import DocTable.Proofs.Value.Sorting
import Mathlib.Data.List.Forall2

/-! Values that are trees: lists, and maps under distinct names, over leaves of some kind. Equality
of trees goes part by part; it neither depends on the order of entries. -/

namespace DocTable.Value

open Entries

/-- A tree over leaves. -/
inductive Tree (leaf : Value → Prop) : Value → Prop where
  | leaf {v : Value} (h : leaf v) : Tree leaf v
  | list {items : List Value} (h : ∀ v ∈ items, Tree leaf v) : Tree leaf (.list items)
  | map {entries : Entries} (hnames : Named entries) (h : ∀ e ∈ entries, Tree leaf e.2) :
    Tree leaf (.map entries)

/-- The values that are neither lists nor maps. -/
def Simple : Value → Prop
  | list _ | map _ => False
  | _ => True

section

variable {leaf : Value → Prop}

theorem Tree.keyed {named : List (Spelling × Value)} (hnames : (named.map (·.1)).Nodup)
    (h : ∀ e ∈ named, Tree leaf e.2) : Tree leaf (.map (keyed named)) :=
  .map (named_keyed.mpr hnames) (List.forall_mem_map.mpr h)

theorem Tree.named {entries : Entries} (hleaf : ∀ v, leaf v → v.Simple)
    (h : Tree leaf (.map entries)) : Named entries := by
  cases h with
  | leaf h => exact (hleaf _ h).elim
  | map hnames _ => exact hnames

theorem Tree.of_mem_entries {entries : Entries} (hleaf : ∀ v, leaf v → v.Simple)
    (h : Tree leaf (.map entries)) {e : Value × Value} (he : e ∈ entries) : Tree leaf e.2 := by
  cases h with
  | leaf h => exact (hleaf _ h).elim
  | map _ h => exact h e he

theorem Tree.of_mem_items {items : List Value} (hleaf : ∀ v, leaf v → v.Simple)
    (h : Tree leaf (.list items)) {v : Value} (hv : v ∈ items) : Tree leaf v := by
  cases h with
  | leaf h => exact (hleaf _ h).elim
  | list h => exact h v hv

end

/-! ## Texts -/

/-- Whether all texts and names in a value, however deep, have some property. -/
inductive AllTexts (p : Spelling → Prop) : Value → Prop where
  | simple {v : Value} (h : v.Simple) (text : ∀ s, v = .text s → p s) : AllTexts p v
  | list {items : List Value} (h : ∀ v ∈ items, AllTexts p v) : AllTexts p (.list items)
  | map {entries : List (Value × Value)} (names : ∀ e ∈ entries, ∀ s, e.1 = .text s → p s)
      (h : ∀ e ∈ entries, AllTexts p e.2) : AllTexts p (.map entries)

/-- The values no text or name of which has a high half directly in front of a low one. -/
abbrev Unpaired (v : Value) : Prop :=
  v.AllTexts Spelling.Unpaired

/-- The values no text or name of which has halves of pairs. -/
abbrev Plain (v : Value) : Prop :=
  v.AllTexts fun s => s.isPlain = true

namespace AllTexts

variable {p : Spelling → Prop} {s : Spelling} {items : List Value} {entries : Entries}

theorem text (h : p s) : (Value.text s).AllTexts p :=
  .simple trivial fun _ heq => Value.text.inj heq ▸ h

theorem keyed {named : List (Spelling × Value)} (h : ∀ e ∈ named, p e.1 ∧ e.2.AllTexts p) :
    (Value.map (Entries.keyed named)).AllTexts p :=
  .map (List.forall_mem_map.mpr fun e he _ heq => Value.text.inj heq ▸ (h e he).1)
    (List.forall_mem_map.mpr fun e he => (h e he).2)

theorem of_text (h : (Value.text s).AllTexts p) : p s := by
  cases h with
  | simple _ htext => exact htext s rfl

theorem of_list (h : (Value.list items).AllTexts p) : ∀ v ∈ items, v.AllTexts p := by
  cases h with
  | simple hsimple => exact hsimple.elim
  | list hitems => exact hitems

theorem of_map (h : (Value.map entries).AllTexts p) :
    (∀ e ∈ entries, ∀ s, e.1 = .text s → p s) ∧ ∀ e ∈ entries, e.2.AllTexts p := by
  cases h with
  | simple hsimple => exact hsimple.elim
  | map hnames hentries => exact ⟨hnames, hentries⟩

end AllTexts

/-! ## Equality -/

theorem text_same {s : Spelling} {v : Value} : (text s).same v = true ↔ v = text s := by
  cases v <;> simp [same, sameAtom, number?]
  exact eq_comm

theorem text_same_text {s s' : Spelling} : (text s).same (text s') = true ↔ s = s' := by
  rw [text_same, text.injEq, eq_comm]

theorem sameItems_iff {as bs : List Value} :
    sameItems as bs = true ↔ List.Forall₂ (fun a b => a.same b = true) as bs := by
  induction as generalizing bs with
  | nil => cases bs <;> simp [sameItems]
  | cons a as ih => cases bs <;> simp [sameItems, ih]

theorem allIn_iff {as bs : List Value} :
    allIn as bs = true ↔ ∀ a ∈ as, ∃ b ∈ bs, a.same b = true := by
  induction as with
  | nil => simp [allIn]
  | cons a as ih => simp [allIn, ih]

/-- A name is looked up in a map under distinct names. -/
theorem find?_named {entries : Entries} (h : Named entries) {name : Spelling} {v : Value} :
    List.find? (fun e => (text name).same e.1) entries = some (text name, v) ↔
      (text name, v) ∈ entries := by
  constructor
  · exact List.mem_of_find?_eq_some
  · intro hmem
    obtain ⟨e, he⟩ : ∃ e, List.find? (fun e => (text name).same e.1) entries = some e := by
      refine Option.isSome_iff_exists.mp (List.find?_isSome.mpr ⟨_, hmem, ?_⟩)
      exact text_same.mpr rfl
    have hkey : e.1 = text name := text_same.mp (by simpa using List.find?_some he)
    rw [he, h.eq_of_mem (List.mem_of_find?_eq_some he) hmem hkey]

/-- Maps under distinct names are equal when one has as many entries as the other, each with an
equal value under the same name in the other. -/
theorem map_same_iff {entries entries' : Entries} (h : Named entries) (h' : Named entries') :
    (map entries).same (map entries') = true ↔ entries.length = entries'.length ∧
      ∀ e ∈ entries, ∃ e' ∈ entries', e'.1 = e.1 ∧ e.2.same e'.2 = true := by
  have hall : allEntriesIn entries entries' = true ↔
      ∀ e ∈ entries, ∃ e' ∈ entries', e'.1 = e.1 ∧ e.2.same e'.2 = true := by
    have hnames := h.1
    clear h
    induction entries with
    | nil => simp [allEntriesIn]
    | cons e entries ih =>
      obtain ⟨k, v⟩ := e
      obtain ⟨⟨name, hname⟩, hrest⟩ := List.forall_mem_cons.mp hnames
      obtain rfl : k = text name := hname
      rw [List.forall_mem_cons, allEntriesIn, Bool.and_eq_true]
      refine and_congr ?_ (ih hrest)
      constructor
      · intro hfind
        split at hfind
        next e' he' =>
          have hkey := text_same.mp (by simpa using List.find?_some he')
          exact ⟨e', List.mem_of_find?_eq_some he', hkey, hfind⟩
        next => cases hfind
      · rintro ⟨⟨k', v'⟩, hmem, rfl, hsame⟩
        rw [(find?_named h').mpr hmem]
        exact hsame
  rw [same, Bool.and_eq_true, beq_iff_eq, hall]

end DocTable.Value
