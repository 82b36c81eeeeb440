import DocTable.Token.KeyToken
import DocTable.Proofs.Outcome
import DocTable.Proofs.Value.Tree

/-! Attribute values that stand in tokens. `Attr.Held` says, kind by kind, which payload is read as
which attribute value; a map is read by ascending names. Two values that are read as such are equal
when the attribute values are, up to whether byte strings are held as changeable. -/

namespace DocTable

namespace Attr

open Entries

variable {bytesOf : ByteReader} {a : Attr} {v payload : Value} {t : Tag}

/-- Induction over the parts of attribute values. -/
@[elab_as_elim]
theorem byParts {motive : Attr → Prop} (text : ∀ s, motive (.text s))
    (number : ∀ s, motive (.number s)) (bytes : ∀ c content, motive (.bytes c content))
    (bool : ∀ b, motive (.bool b)) (null : motive .null) (texts : ∀ ss, motive (.texts ss))
    (numbers : ∀ ss, motive (.numbers ss)) (byteSets : ∀ bs, motive (.byteSets bs))
    (list : ∀ items, (∀ a ∈ items, motive a) → motive (.list items))
    (map : ∀ entries : List (Spelling × Attr), (∀ e ∈ entries, motive e.2) → motive (.map entries))
    (a : Attr) : motive a :=
  @Attr.rec motive (fun items => ∀ a ∈ items, motive a) (fun entries => ∀ e ∈ entries, motive e.2)
    (fun e => motive e.2) text number bytes bool null texts numbers byteSets list map
    (fun _ h => absurd h List.not_mem_nil)
    (fun _ _ hfirst hrest => List.forall_mem_cons.mpr ⟨hfirst, hrest⟩)
    (fun _ h => absurd h List.not_mem_nil)
    (fun _ _ hfirst hrest => List.forall_mem_cons.mpr ⟨hfirst, hrest⟩)
    (fun _ _ h => h) a

/-! ## Reading -/

theorem readItems_eq (limit : Option Nat) (bytesOf : ByteReader) (items : List Value) :
    readItems limit bytesOf items = items.mapM (read limit bytesOf) := by
  induction items with
  | nil => rfl
  | cons v items ih => rw [readItems, ih, List.mapM_cons]

theorem readEntries_eq (limit : Option Nat) (bytesOf : ByteReader) (entries : Entries) :
    readEntries limit bytesOf entries = entries.map (Prod.map id (read limit bytesOf)) := by
  induction entries with
  | nil => rfl
  | cons e entries ih => rw [readEntries, ih]; rfl

theorem textsOf_eq_ok {code : String} {ss : List Spelling} :
    textsOf code payload = .ok ss ↔ payload = .list (ss.map .text) := by
  have hitems : ∀ (items : List Value) (ss : List Spelling),
      items.mapM textsOf.textOf? = some ss ↔ items = ss.map .text := by
    intro items
    induction items with
    | nil => intro ss; cases ss <;> simp
    | cons v items ih =>
      intro ss
      cases v with
      | text s =>
        cases ss <;> simp [List.mapM_cons, textsOf.textOf?, Option.bind_eq_some_iff, ih, and_comm]
      | _ => cases ss <;> simp [List.mapM_cons, textsOf.textOf?]
  constructor
  · intro h
    cases payload with
    | list items =>
      rw [textsOf] at h
      split at h
      next heq => exact congrArg _ ((hitems items ss).mp (Except.ok.inj h ▸ heq))
      next => cases h
    | _ => cases h
  · rintro rfl
    rw [textsOf, (hitems _ ss).mpr rfl]

theorem mapM_named_eq_ok {named : List (Spelling × Outcome Attr)} {attrs : List (Spelling × Attr)} :
    ((keyed named).mapM fun (k, a) => do return (← k.spelled, ← a)) = .ok attrs ↔
      named = attrs.map (Prod.map id .ok) := by
  rw [Outcome.mapM_eq_ok]
  induction named generalizing attrs with
  | nil => cases attrs <;> simp [keyed]
  | cons e named ih =>
    obtain ⟨name, o⟩ := e
    cases attrs with
    | nil => simp [keyed]
    | cons r attrs =>
      obtain ⟨name', a⟩ := r
      rw [keyed_cons, List.forall₂_cons, ih]
      cases o <;> simp [bind, Except.bind, pure, Except.pure]

/-- What is read by names: the entries under ascending names, each of them read. -/
theorem sortedAttrs_eq_ok {entries : List (Value × Outcome Attr)} (h : Named entries)
    {attrs : List (Spelling × Attr)} :
    sortedAttrs entries = .ok attrs ↔
      Ascending attrs ∧ entries.Perm (keyed (attrs.map (Prod.map id .ok))) := by
  obtain ⟨sorted, hsorted, hperm, hascending⟩ := Value.exists_sortedBy h
  have hread : sortedAttrs entries = .ok attrs ↔
      ∃ attrs', sorted = attrs'.map (Prod.map id .ok) ∧ OrderedMap.ofList attrs' = attrs := by
    rw [sortedAttrs, hsorted]
    show (((keyed sorted).mapM fun (k, a) => do return (← k.spelled, ← a)) >>= _) = _ ↔ _
    rw [Outcome.bind_eq_ok]
    refine exists_congr fun attrs' => and_congr mapM_named_eq_ok ?_
    exact ⟨Except.ok.inj, congrArg _⟩
  have hofList : ∀ attrs : List (Spelling × Attr),
      Ascending attrs → OrderedMap.ofList attrs = attrs :=
    fun attrs h => OrderedMap.ofList_of_distinct (OrderedMap.distinct_iff_nodup.mpr h.nodup)
  rw [hread]
  constructor
  · rintro ⟨attrs', rfl, rfl⟩
    have hascending' := ascending_map.mp hascending
    rw [hofList _ hascending']
    exact ⟨hascending', hperm.symm⟩
  · rintro ⟨hattrs, hentries⟩
    have heq := hascending.eq_of_perm (ascending_map.mpr hattrs)
      (keyed_perm_iff.mp (hperm.trans hentries))
    exact ⟨attrs, heq, hofList attrs hattrs⟩

/-- Whether entries are read as attribute values by ascending names. -/
def EntriesHeld (bytesOf : ByteReader) (entries : Entries) (attrs : List (Spelling × Attr)) :
    Prop :=
  Ascending attrs ∧
    (entries.map (Prod.map id (read none bytesOf))).Perm (keyed (attrs.map (Prod.map id .ok)))

theorem sortedAttrs_readEntries {entries : Entries} (h : Named entries)
    {attrs : List (Spelling × Attr)} :
    sortedAttrs (readEntries none bytesOf entries) = .ok attrs ↔
      EntriesHeld bytesOf entries attrs := by
  rw [readEntries_eq, sortedAttrs_eq_ok (h.map _), EntriesHeld]

/-- Whether a payload is read as an attribute value of some kind. -/
def Held (bytesOf : ByteReader) (payload : Value) : Attr → Prop
  | text s | number s => payload = .text s
  | bytes changeable content => bytesOf Tag.bytes.code payload = .ok (changeable, content)
  | bool b => payload = .bool b
  | null => payload = .bool true
  | texts ss | numbers ss => payload = .list (ss.map .text)
  | byteSets bs => ∃ items, payload = .list items ∧
      List.Forall₂ (fun v b => ∃ c, bytesOf Tag.byteSets.code v = .ok (c, b)) items bs
  | list attrs => ∃ items, payload = .list items ∧
      List.Forall₂ (fun v a => read none bytesOf v = .ok a) items attrs
  | map attrs => ∃ entries, payload = .map entries ∧ EntriesHeld bytesOf entries attrs

theorem forall₂_snd {α β γ : Type} {R : α → β × γ → Prop} {as : List α} {cs : List γ} :
    (∃ ps, List.Forall₂ R as ps ∧ ps.map (·.2) = cs) ↔
      List.Forall₂ (fun a c => ∃ b, R a (b, c)) as cs := by
  constructor
  · rintro ⟨ps, hps, rfl⟩
    exact List.forall₂_map_right_iff.mpr (hps.imp fun _ p h => ⟨p.1, h⟩)
  · intro h
    induction h with
    | nil => exact ⟨[], .nil, rfl⟩
    | @cons a c as cs hac _ ih =>
      obtain ⟨b, hb⟩ := hac
      obtain ⟨ps, hps, rfl⟩ := ih
      exact ⟨(b, c) :: ps, .cons hb hps, rfl⟩

theorem read_single_eq_ok (hpayload : Value.Tree Value.Simple payload) :
    read none bytesOf (single t payload) = .ok a ↔ t = a.tag ∧ Held bytesOf payload a := by
  rw [single, read.eq_def]
  simp only [deeper, Value.plainText_text, Spelling.mended_plain, Outcome.ok_bind, Tag.ofCode?_code]
  cases t with
  | text | number | bool => cases payload <;> cases a <;> simp [tag, Held]
  | null =>
    cases payload with
    | bool b => cases b <;> cases a <;> simp [tag, Held]
    | _ => cases a <;> simp [tag, Held]
  | texts | numbers =>
    dsimp only
    rw [Outcome.bind_eq_ok]
    simp only [textsOf_eq_ok]
    cases a <;> simp [tag, Held, pure, Except.pure]
  | bytes =>
    dsimp only
    rw [Outcome.bind_eq_ok]
    cases a <;> simp [tag, Held, pure, Except.pure]
  | byteSets =>
    cases payload with
    | list items =>
      dsimp only
      rw [Outcome.bind_eq_ok]
      cases a <;> simp [tag, Held, pure, Except.pure, Outcome.mapM_eq_ok, forall₂_snd]
    | _ => cases a <;> simp [tag, Held]
  | list =>
    cases payload with
    | list items =>
      show readList none bytesOf (.list items) = _ ↔ _
      rw [readList, Outcome.bind_eq_ok, readItems_eq]
      cases a <;> simp [tag, Held, pure, Except.pure, Outcome.mapM_eq_ok]
    | _ => cases a <;> simp [tag, Held, readList]
  | map =>
    cases payload with
    | map entries =>
      have hentries := hpayload.named fun _ => id
      show readMap none bytesOf (.map entries) = _ ↔ _
      rw [readMap, Outcome.bind_eq_ok]
      simp only [sortedAttrs_readEntries hentries]
      cases a <;> simp [tag, Held, pure, Except.pure]
    | _ => cases a <;> simp [tag, Held, readMap]

theorem read_eq_ok (hv : Value.Tree Value.Simple v) :
    read none bytesOf v = .ok a ↔ ∃ payload, v = single a.tag payload ∧ Held bytesOf payload a := by
  have hpayload : ∀ {t payload}, v = single t payload → Value.Tree Value.Simple payload := by
    rintro t payload rfl
    exact hv.of_mem_entries (fun _ => id) List.mem_cons_self
  constructor
  · intro h
    obtain ⟨k, payload, rfl⟩ : ∃ k payload, v = .map [(k, payload)] := by
      rw [read.eq_def] at h
      split at h
      next k payload => exact ⟨k, payload, rfl⟩
      next => cases h
    obtain ⟨code, hcode⟩ := (hv.named fun _ => id).1 _ List.mem_cons_self
    obtain rfl : k = .text code := hcode
    obtain ⟨t, ht⟩ : ∃ t, Tag.ofCode? code.mended = some t := by
      rw [read.eq_def] at h
      simp only [deeper, Value.plainText_text, Outcome.ok_bind] at h
      cases ht : Tag.ofCode? code.mended with
      | some t => exact ⟨t, rfl⟩
      | none =>
        rw [ht] at h
        cases h
    obtain rfl : code = t.code :=
      (Spelling.mended_eq_iff (by cases t <;> decide)).mp (Tag.code_of_ofCode? ht).symm
    obtain ⟨rfl, hheld⟩ := (read_single_eq_ok (hpayload rfl)).mp h
    exact ⟨payload, rfl, hheld⟩
  · rintro ⟨payload, rfl, hheld⟩
    exact (read_single_eq_ok (hpayload rfl)).mpr ⟨rfl, hheld⟩

end Attr

namespace KeyToken

open Attr Entries

/-- What is read of a tree as a key stands in it under a name, by ascending names. -/
theorem exists_held {v : Value} (hv : Value.Tree Value.Simple v) {key : List (Spelling × Attr)}
    (h : keyOf v = .ok key) :
    ∃ entries k held, v = .map entries ∧ (k, .map held) ∈ entries ∧
      Value.Tree Value.Simple (.map held) ∧ EntriesHeld portableBytes held key ∧
      ∀ limit, keyOf v limit = sortedAttrs (readEntries limit portableBytes held) := by
  have hleaf : ∀ v : Value, v.Simple → v.Simple := fun _ => id
  unfold keyOf at h
  split at h
  next entries =>
    split at h
    next e rest hfind =>
      obtain ⟨k, -, hmem⟩ := OrderedMap.exists_mem_of_find? hfind
      have hheld := hv.of_mem_entries hleaf hmem
      refine ⟨entries, k, e :: rest, rfl, hmem, hheld, ?_, fun limit => by rw [keyOf, hfind]⟩
      exact (sortedAttrs_readEntries (hheld.named hleaf)).mp h
    next => cases h
  next => cases h

end KeyToken

end DocTable
