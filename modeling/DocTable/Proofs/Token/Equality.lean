import DocTable.Proofs.Token.Reading

/-! When two values that are read as attribute values are equal: exactly when the attribute values
are, once all byte strings count as unchangeable. Attribute values are in order, so what is equal up
to the order of entries becomes the same. -/

namespace DocTable.Attr

open Entries

mutual

/-- An attribute value with all byte strings unchangeable. -/
def unchangeable : Attr → Attr
  | bytes _ content => bytes false content
  | list items => list (unchangeableItems items)
  | map entries => map (unchangeableEntries entries)
  | a => a

def unchangeableItems : List Attr → List Attr
  | [] => []
  | a :: rest => unchangeable a :: unchangeableItems rest

def unchangeableEntries : List (Spelling × Attr) → List (Spelling × Attr)
  | [] => []
  | (name, a) :: rest => (name, unchangeable a) :: unchangeableEntries rest

end

variable {a a' : Attr} {v v' : Value} {attrs attrs' : List (Spelling × Attr)}

theorem unchangeableItems_eq (items : List Attr) :
    unchangeableItems items = items.map unchangeable := by
  induction items with
  | nil => rfl
  | cons a items ih => rw [unchangeableItems, ih, List.map_cons]

theorem unchangeableEntries_eq (entries : List (Spelling × Attr)) :
    unchangeableEntries entries = entries.map (Prod.map id unchangeable) := by
  induction entries with
  | nil => rfl
  | cons e entries ih => rw [unchangeableEntries, ih]; rfl

theorem tag_unchangeable (a : Attr) : a.unchangeable.tag = a.tag := by
  cases a <;> rfl

theorem unchangeable_idem (a : Attr) : a.unchangeable.unchangeable = a.unchangeable := by
  induction a using byParts with
  | list items ih =>
    simp only [unchangeable, unchangeableItems_eq, List.map_map, list.injEq]
    exact List.map_congr_left ih
  | map entries ih =>
    simp only [unchangeable, unchangeableEntries_eq, List.map_map, map.injEq]
    exact List.map_congr_left fun e he => congrArg (Prod.mk e.1) (ih e he)
  | _ => rfl

theorem ascending_unchangeable :
    Ascending (attrs.map (Prod.map id unchangeable)) ↔ Ascending attrs :=
  ascending_map

/-! ## Parts -/

theorem nativeBytes_eq_ok {code : String} {c : Bool} {content : List UInt8} :
    nativeBytes code v = .ok (c, content) ↔ v = .bytes c content := by
  cases v <;> simp [nativeBytes]

theorem single_same {t t' : Tag} : (single t v).same (single t' v') = true ↔
    t = t' ∧ v.same v' = true := by
  rw [single, single, Value.map_same_iff (named_singleton _ _) (named_singleton _ _)]
  simp only [List.length_singleton, true_and, List.mem_singleton, forall_eq, exists_eq_left,
    Value.text.injEq]
  refine and_congr_left fun _ => ⟨fun h => ?_, fun h => h ▸ rfl⟩
  exact (Tag.code_injective (Spelling.plain.inj h)).symm

/-- Two lists are related when what stands for them is. -/
theorem forall₂_iff_of_forall₂ {α β γ δ : Type} {R : α → γ → Prop} {R' : β → δ → Prop}
    {S : α → β → Prop} {T : γ → δ → Prop} {as : List α} {bs : List β} {cs : List γ} {ds : List δ}
    (hac : List.Forall₂ R as cs) (hbd : List.Forall₂ R' bs ds)
    (h : ∀ a ∈ as, ∀ b ∈ bs, ∀ c ∈ cs, ∀ d, R a c → R' b d → (S a b ↔ T c d)) :
    List.Forall₂ S as bs ↔ List.Forall₂ T cs ds := by
  induction hac generalizing bs ds with
  | nil => cases hbd <;> simp
  | @cons a c as cs hfirst hrest ih =>
    cases hbd with
    | nil => simp
    | @cons b d bs ds hfirst' hrest' =>
      rw [List.forall₂_cons, List.forall₂_cons]
      refine and_congr ?_ (ih hrest' ?_)
      · exact h a List.mem_cons_self b List.mem_cons_self c List.mem_cons_self d hfirst hfirst'
      · intro a ha b hb c hc
        exact h a (List.mem_cons_of_mem _ ha) b (List.mem_cons_of_mem _ hb) c
          (List.mem_cons_of_mem _ hc)

theorem texts_same {ss ss' : List Spelling} :
    (Value.list (ss.map .text)).same (.list (ss'.map .text)) = true ↔ ss = ss' := by
  rw [Value.same, Value.sameItems_iff, List.forall₂_map_left_iff, List.forall₂_map_right_iff]
  simp only [Value.text_same_text]
  exact iff_of_eq (congrFun (congrFun (List.forall₂_eq_eq_eq (α := Spelling)) ss) ss')

namespace EntriesHeld

variable {bytesOf : ByteReader} {entries entries' : Entries}

theorem length_eq (h : EntriesHeld bytesOf entries attrs) : entries.length = attrs.length := by
  simpa [keyed] using h.2.length_eq

theorem exists_attr (h : EntriesHeld bytesOf entries attrs) {e : Value × Value} (he : e ∈ entries) :
    ∃ r ∈ attrs, e.1 = .text r.1 ∧ read none bytesOf e.2 = .ok r.2 := by
  have hmem := h.2.subset (List.mem_map_of_mem he)
  simp only [keyed, List.mem_map, List.map_map] at hmem
  obtain ⟨r, hr, heq⟩ := hmem
  exact ⟨r, hr, (congrArg Prod.fst heq).symm, (congrArg Prod.snd heq).symm⟩

theorem exists_entry (h : EntriesHeld bytesOf entries attrs) {r : Spelling × Attr}
    (hr : r ∈ attrs) :
    ∃ e ∈ entries, e.1 = .text r.1 ∧ read none bytesOf e.2 = .ok r.2 := by
  have hmem := h.2.symm.subset (List.mem_map_of_mem (List.mem_map_of_mem hr))
  obtain ⟨e, he, heq⟩ := List.mem_map.mp hmem
  exact ⟨e, he, congrArg Prod.fst heq, congrArg Prod.snd heq⟩

/-- Maps are equal when what is read from them is, if that is so for their parts. -/
theorem same_iff (h : EntriesHeld bytesOf entries attrs) (h' : EntriesHeld bytesOf entries' attrs')
    (hnames : Named entries) (hnames' : Named entries')
    (hparts : ∀ e ∈ entries, ∀ e' ∈ entries', ∀ r ∈ attrs, ∀ r' ∈ attrs',
      read none bytesOf e.2 = .ok r.2 → read none bytesOf e'.2 = .ok r'.2 →
        (e.2.same e'.2 = true ↔ r.2.unchangeable = r'.2.unchangeable)) :
    (Value.map entries).same (.map entries') = true ↔
      attrs.map (Prod.map id unchangeable) = attrs'.map (Prod.map id unchangeable) := by
  have hascending := ascending_unchangeable.mpr h.1
  have hascending' := ascending_unchangeable.mpr h'.1
  rw [Value.map_same_iff hnames hnames', h.length_eq, h'.length_eq]
  constructor
  · rintro ⟨hlength, hsame⟩
    have hsubset :
        attrs.map (Prod.map id unchangeable) ⊆ attrs'.map (Prod.map id unchangeable) := by
      intro q hq
      obtain ⟨r, hr, rfl⟩ := List.mem_map.mp hq
      obtain ⟨e, he, hkey, hread⟩ := h.exists_entry hr
      obtain ⟨e', he', hkey', hsame⟩ := hsame e he
      obtain ⟨r', hr', hkey'', hread'⟩ := h'.exists_attr he'
      have hname : r'.1 = r.1 := Value.text.inj (hkey''.symm.trans (hkey'.trans hkey))
      have hattr := (hparts e he e' he' r hr r' hr' hread hread').mp hsame
      exact List.mem_map.mpr ⟨r', hr', Prod.ext hname hattr.symm⟩
    have hsubperm := List.subperm_of_subset (List.Nodup.of_map _ hascending.nodup) hsubset
    exact hascending.eq_of_perm hascending' (hsubperm.perm_of_length_le (by simp [hlength]))
  · intro heq
    refine ⟨by simpa using congrArg List.length heq, ?_⟩
    intro e he
    obtain ⟨r, hr, hkey, hread⟩ := h.exists_attr he
    have hmem : Prod.map id unchangeable r ∈ attrs'.map (Prod.map id unchangeable) :=
      heq ▸ List.mem_map_of_mem hr
    obtain ⟨r', hr', hr'eq⟩ := List.mem_map.mp hmem
    obtain ⟨hname, hattr⟩ := Prod.ext_iff.mp hr'eq
    obtain ⟨e', he', hkey', hread'⟩ := h'.exists_entry hr'
    exact ⟨e', he', by rw [hkey', hkey, show r'.1 = r.1 from hname],
      (hparts e he e' he' r hr r' hr' hread hread').mpr hattr.symm⟩

end EntriesHeld

/-- Values of one kind are equal when their payloads are. -/
theorem same_iff_of_payload (hv : Value.Tree Value.Simple v) (hv' : Value.Tree Value.Simple v')
    (h : read none nativeBytes v = .ok a) (h' : read none nativeBytes v' = .ok a')
    (hpayload : ∀ p p', Value.Tree Value.Simple p → Value.Tree Value.Simple p' →
      Held nativeBytes p a → Held nativeBytes p' a' → a.tag = a'.tag →
        (p.same p' = true ↔ a.unchangeable = a'.unchangeable)) :
    v.same v' = true ↔ a.unchangeable = a'.unchangeable := by
  obtain ⟨p, rfl, hp⟩ := (read_eq_ok hv).mp h
  obtain ⟨p', rfl, hp'⟩ := (read_eq_ok hv').mp h'
  have hleaf : ∀ v : Value, v.Simple → v.Simple := fun _ => id
  rw [single_same]
  by_cases htag : a.tag = a'.tag
  · rw [and_iff_right htag]
    exact hpayload p p' (hv.of_mem_entries hleaf List.mem_cons_self)
      (hv'.of_mem_entries hleaf List.mem_cons_self) hp hp' htag
  · refine iff_of_false (fun hsame => htag hsame.1) fun heq => htag ?_
    rw [← tag_unchangeable a, heq, tag_unchangeable]

/-- **Equal values** are those that are read as one attribute value, changeable bytes apart. The
induction is on the first of the attribute values. -/
theorem same_iff (hv : Value.Tree Value.Simple v) (hv' : Value.Tree Value.Simple v')
    (h : read none nativeBytes v = .ok a) (h' : read none nativeBytes v' = .ok a') :
    v.same v' = true ↔ a.unchangeable = a'.unchangeable := by
  have hleaf : ∀ v : Value, v.Simple → v.Simple := fun _ => id
  induction a using byParts generalizing v v' a' with
  | text s =>
    refine same_iff_of_payload hv hv' h h' fun p p' _ _ hp hp' htag => ?_
    cases a' <;> cases htag
    obtain rfl := hp
    obtain rfl := hp'
    exact Value.text_same_text.trans (iff_of_eq (text.injEq ..).symm)
  | number s =>
    refine same_iff_of_payload hv hv' h h' fun p p' _ _ hp hp' htag => ?_
    cases a' <;> cases htag
    obtain rfl := hp
    obtain rfl := hp'
    exact Value.text_same_text.trans (iff_of_eq (number.injEq ..).symm)
  | bytes c content =>
    refine same_iff_of_payload hv hv' h h' fun p p' _ _ hp hp' htag => ?_
    cases a' <;> cases htag
    obtain rfl := nativeBytes_eq_ok.mp hp
    obtain rfl := nativeBytes_eq_ok.mp hp'
    simp [Value.same, Value.sameAtom, unchangeable]
  | bool b =>
    refine same_iff_of_payload hv hv' h h' fun p p' _ _ hp hp' htag => ?_
    cases a' <;> cases htag
    obtain rfl := hp
    obtain rfl := hp'
    simp [Value.same, Value.sameAtom, unchangeable]
  | null =>
    refine same_iff_of_payload hv hv' h h' fun p p' _ _ hp hp' htag => ?_
    cases a' <;> cases htag
    obtain rfl := hp
    obtain rfl := hp'
    simp [Value.same, Value.sameAtom]
  | texts ss =>
    refine same_iff_of_payload hv hv' h h' fun p p' _ _ hp hp' htag => ?_
    cases a' <;> cases htag
    obtain rfl := hp
    obtain rfl := hp'
    exact texts_same.trans (iff_of_eq (texts.injEq ..).symm)
  | numbers ss =>
    refine same_iff_of_payload hv hv' h h' fun p p' _ _ hp hp' htag => ?_
    cases a' <;> cases htag
    obtain rfl := hp
    obtain rfl := hp'
    exact texts_same.trans (iff_of_eq (numbers.injEq ..).symm)
  | byteSets bs =>
    refine same_iff_of_payload hv hv' h h' fun p p' _ _ hp hp' htag => ?_
    cases a' <;> cases htag
    obtain ⟨items, rfl, hitems⟩ := hp
    obtain ⟨items', rfl, hitems'⟩ := hp'
    show _ ↔ byteSets bs = byteSets _
    rw [Value.same, Value.sameItems_iff, byteSets.injEq, ← List.forall₂_eq_eq_eq]
    refine forall₂_iff_of_forall₂ hitems hitems' fun v _ v' _ b _ b' hb hb' => ?_
    obtain ⟨c, hb⟩ := hb
    obtain ⟨c', hb'⟩ := hb'
    obtain rfl := nativeBytes_eq_ok.mp hb
    obtain rfl := nativeBytes_eq_ok.mp hb'
    simp [Value.same, Value.sameAtom]
  | list items ih =>
    refine same_iff_of_payload hv hv' h h' fun p p' ht ht' hp hp' htag => ?_
    cases a' <;> cases htag
    obtain ⟨vs, rfl, hvs⟩ := hp
    obtain ⟨vs', rfl, hvs'⟩ := hp'
    rw [Value.same, Value.sameItems_iff, unchangeable, unchangeable, list.injEq,
      unchangeableItems_eq, unchangeableItems_eq, ← List.forall₂_eq_eq_eq,
      List.forall₂_map_left_iff, List.forall₂_map_right_iff]
    exact forall₂_iff_of_forall₂ hvs hvs' fun v hv v' hv' b hb b' hread hread' =>
      ih b hb (ht.of_mem_items hleaf hv) (ht'.of_mem_items hleaf hv') hread hread'
  | map entries ih =>
    refine same_iff_of_payload hv hv' h h' fun p p' ht ht' hp hp' htag => ?_
    cases a' <;> cases htag
    obtain ⟨held, rfl, hheld⟩ := hp
    obtain ⟨held', rfl, hheld'⟩ := hp'
    rw [unchangeable, unchangeable, map.injEq, unchangeableEntries_eq, unchangeableEntries_eq]
    exact hheld.same_iff hheld' (ht.named hleaf) (ht'.named hleaf)
      fun e he e' he' r hr r' _ hread hread' =>
        ih r hr (ht.of_mem_entries hleaf he) (ht'.of_mem_entries hleaf he') hread hread'

end DocTable.Attr
