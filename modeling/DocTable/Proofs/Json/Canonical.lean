import DocTable.Proofs.Json.Restored

/-! The tree that is written for a value is canonical: it is the same for two values if and only if
they differ in nothing but the order in which the entries of maps stand, however deep. Its text is
that of all trees that are the same when halves of pairs are joined. -/

namespace DocTable

open Entries Outcome

/-- Whether two values are the same but for the order of the entries of maps. -/
inductive Value.Reordered : Value → Value → Prop where
  | refl (v : Value) : Reordered v v
  | list {items items' : List Value} (h : List.Forall₂ Reordered items items') :
    Reordered (.list items) (.list items')
  | map {entries entries' : List (Value × Value)}
      (keys : (entries.map (·.1)).Perm (entries'.map (·.1)))
      (h : ∀ e ∈ entries, ∀ e' ∈ entries', e.1 = e'.1 → Reordered e.2 e'.2) :
    Reordered (.map entries) (.map entries')

theorem Value.Reordered.of_mem {entries entries' : Entries} (hnames : Named entries)
    (h : (Value.map entries).Reordered (.map entries')) {e e' : Value × Value} (he : e ∈ entries)
    (he' : e' ∈ entries') (hkey : e.1 = e'.1) : e.2.Reordered e'.2 := by
  cases h with
  | refl => exact hnames.eq_of_mem he he' hkey ▸ .refl e.2
  | map _ h => exact h e he e' he' hkey

/-- Entries under the same names, for whose values something is the same, are the same for it. -/
theorem Entries.Named.perm_map {ν μ : Type} {entries entries' : OrderedMap Value ν} {f : ν → μ}
    (h : Named entries) (hkeys : entries.keys.Perm entries'.keys)
    (hvalues : ∀ e ∈ entries, ∀ e' ∈ entries', e.1 = e'.1 → f e.2 = f e'.2) :
    (entries.map (Prod.map id f)).Perm (entries'.map (Prod.map id f)) := by
  have hnodup : (entries.map (Prod.map id f)).Nodup :=
    .of_map Prod.fst (by simpa [OrderedMap.keys, Function.comp_def] using (named_iff_keys.mp h).2)
  have hsubset : entries.map (Prod.map id f) ⊆ entries'.map (Prod.map id f) := by
    refine List.forall_mem_map.mpr fun e he => ?_
    obtain ⟨e', he', hkey⟩ := List.mem_map.mp (hkeys.subset (List.mem_map_of_mem he))
    exact List.mem_map.mpr ⟨e', he', Prod.ext hkey (hvalues e he e' he' hkey.symm).symm⟩
  refine (List.subperm_of_subset hnodup hsubset).perm_of_length_le ?_
  simpa [OrderedMap.keys] using hkeys.length_eq.ge

namespace Json

variable {v w u : Value}

/-! ## One tree for all orders -/

/-- Sorting members does not depend on the order that they had. -/
theorem sortedMembers_congr {entries entries' : List (Value × Outcome Json)} (h : Named entries)
    (hperm : entries.Perm entries') : sortedMembers entries = sortedMembers entries' := by
  obtain ⟨sorted, hsorted, hmembers, hascending⟩ := Value.exists_sortedBy h
  obtain ⟨sorted', hsorted', hmembers', hascending'⟩ :=
    Value.exists_sortedBy (h.of_perm (hperm.symm.map Prod.fst))
  obtain rfl : sorted = sorted' := hascending.eq_of_perm hascending'
    (keyed_perm_iff.mp (hmembers.trans (hperm.trans hmembers'.symm)))
  rw [sortedMembers, hsorted, sortedMembers, hsorted']

theorem ofValue_of_reordered (hv : Value.Tree Leaf v) (h : v.Reordered w) :
    ofValue v = ofValue w := by
  induction hv generalizing w with
  | leaf hv =>
    cases h with
    | refl => rfl
    | list | map => exact hv.simple.elim
  | @list items _ ih =>
    cases h with
    | refl => rfl
    | @list _ items' h =>
      have hitems : List.Forall₂ (fun v w => ofValue v = ofValue w) items items' := by
        have hmem := (List.forall₂_and_left _ _).mpr ⟨ih, h⟩
        exact hmem.imp fun _ _ h => h.1 h.2
      rw [ofValue, ofValue, ofItems_eq, ofItems_eq, mapM_congr hitems]
  | @map entries hnames _ ih =>
    cases h with
    | refl => rfl
    | @map _ entries' hkeys h =>
      have hperm := hnames.perm_map (f := ofValue) hkeys fun e he e' he' hkey =>
        ih e he (h e he e' he' hkey)
      rw [ofValue, ofValue, ofEntries_eq, ofEntries_eq,
        sortedMembers_congr (hnames.map ofValue) hperm]

/-! ## One order for each tree -/

theorem Leaf.eq_of_restores (h : Leaf v) (hrestores : v.Restores List.Perm w) : v = w := by
  cases h <;> cases hrestores <;> rfl

theorem Leaf.eq_of_restored (h : Leaf v) (hrestores : w.Restores List.Perm v) : w = v := by
  cases h <;> cases hrestores <;> rfl

/-- Two values for both of which the same can come back differ in the order of entries only. -/
theorem reordered_of_restores (hv : Value.Tree Leaf v) (h : u.Restores List.Perm v)
    (h' : u.Restores List.Perm w) : v.Reordered w := by
  induction hv generalizing u w with
  | leaf hv =>
    obtain rfl := hv.eq_of_restored h
    obtain rfl := hv.eq_of_restores h'
    exact .refl u
  | @list items _ ih =>
    obtain ⟨us, rfl, hitems⟩ := h.exists_list
    obtain ⟨items', rfl, hitems'⟩ := h'.exists_of_list
    refine .list (forall₂_trans ((List.forall₂_and_left _ _).mpr ⟨ih, hitems.flip⟩) hitems' ?_)
    exact fun v u w hv h' => hv.1 hv.2 h'
  | @map entries hnames _ ih =>
    obtain ⟨us, rfl, hkeys, hvalues⟩ := h.exists_map (fun _ _ => id) hnames
    obtain ⟨entries', rfl, hkeys', hvalues'⟩ :=
      h'.exists_of_map (fun _ _ => id) (hnames.of_perm hkeys)
    refine .map (hkeys.symm.trans hkeys') fun e he e' he' hkey => ?_
    obtain ⟨u, hu, heq⟩ := List.mem_map.mp (hkeys.symm.subset (List.mem_map_of_mem he))
    exact ih e he (hvalues u hu e he heq) (hvalues' u hu e' he' (heq.trans hkey))

/-- **Values have the same tree** if and only if they differ in the order of entries only. -/
theorem ofValue_eq_iff (hv : Value.Tree Leaf v) (hw : Value.Tree Leaf w) :
    ofValue v = ofValue w ↔ v.Reordered w := by
  constructor
  · intro h
    obtain ⟨j, hj, -, hrestores⟩ := exists_ofValue hv
    obtain ⟨j', hj', -, hrestores'⟩ := exists_ofValue hw
    obtain rfl : j = j' := Except.ok.inj (hj.symm.trans (h.trans hj'))
    exact reordered_of_restores hv hrestores hrestores'
  · exact ofValue_of_reordered hv

/-- Trees have the same text if and only if they are the same with their halves joined. -/
theorem render_eq_iff {j j' : Json} (hj : j.Readable) (hj' : j'.Readable) :
    j.render .ascii = j'.render .ascii ↔ j.joined = j'.joined := by
  constructor
  · intro h
    have hread := parse_render hj .ascii (allows_none _)
    rw [h, parse_render hj' .ascii (allows_none _)] at hread
    exact (Except.ok.inj hread).symm
  · intro h
    rw [← render_joined, h, render_joined]

/-- So values without pairs have the same text if and only if they differ in the order of entries
only. -/
theorem joined_eq_iff {j j' : Json} (hv : Value.Tree Leaf v) (hw : Value.Tree Leaf w)
    (hpairs : v.Unpaired) (hpairs' : w.Unpaired) (hj : ofValue v = .ok j)
    (hj' : ofValue w = .ok j') : j.joined = j'.joined ↔ v.Reordered w := by
  rw [(unpaired_of_ofValue hv hpairs hj).joined_eq, (unpaired_of_ofValue hw hpairs' hj').joined_eq,
    ← ofValue_eq_iff hv hw, hj, hj', Except.ok.injEq]

end Json

end DocTable
