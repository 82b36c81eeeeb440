import DocTable.OrderedMap
import Mathlib.Data.List.Forall2

/-! Maps without two equal keys: building such a map from its entries gives the entries back, and
every entry is found under its key. Equality of keys need not be lawful. -/

namespace DocTable.OrderedMap

variable {κ ν : Type} {m entries : OrderedMap κ ν} {k : κ} {v : ν}

theorem nodup_keys_concat (hm : m.keys.Nodup) (hk : k ∉ m.keys) :
    (keys (m ++ [(k, v)])).Nodup := by
  rw [keys, List.map_append]
  refine List.nodup_append.mpr ⟨hm, List.pairwise_singleton _ _, fun a ha b hb heq => ?_⟩
  obtain rfl : b = k := List.mem_singleton.mp hb
  exact hk (heq ▸ ha)

theorem notMem_keys_of_nodup {e : κ × ν} (h : (keys (m ++ e :: entries)).Nodup) :
    e.1 ∉ m.keys := by
  rw [keys, List.map_append] at h
  exact fun hmem => (List.nodup_append.mp h).2.2 _ hmem _ List.mem_cons_self rfl

variable [BEq κ]

/-- No two keys are equal. -/
def Distinct (m : OrderedMap κ ν) : Prop :=
  m.Pairwise fun e e' => (e.1 == e'.1) = false

theorem distinct_iff_nodup [LawfulBEq κ] : m.Distinct ↔ m.keys.Nodup := by
  simp only [Distinct, keys, List.Nodup, List.pairwise_map, beq_eq_false_iff_ne]

theorem put_of_new (h : ∀ e ∈ m, (e.1 == k) = false) : m.put k v = m ++ [(k, v)] := by
  induction m with
  | nil => rfl
  | cons e m ih =>
    obtain ⟨hne, hrest⟩ := List.forall_mem_cons.mp h
    rw [put, if_neg (by simp [hne]), ih hrest, List.cons_append]

theorem find?_of_new (h : ∀ e ∈ m, (e.1 == k) = false) : m.find? k = none := by
  induction m with
  | nil => rfl
  | cons e m ih =>
    obtain ⟨he, hm⟩ := List.forall_mem_cons.mp h
    rw [find?, he, if_neg Bool.false_ne_true, ih hm]

theorem find?_erase_self (m : OrderedMap κ ν) (k : κ) : (m.erase k).find? k = none :=
  find?_of_new fun _ he => by simpa using (List.mem_filter.mp he).2

theorem overlay_of_distinct (h : Distinct (m ++ entries)) : m.overlay entries = m ++ entries := by
  induction entries generalizing m with
  | nil => exact (List.append_nil m).symm
  | cons e entries ih =>
    obtain ⟨k, v⟩ := e
    have hnew : ∀ e ∈ m, (e.1 == k) = false := fun e he =>
      (List.pairwise_append.mp h).2.2 e he _ List.mem_cons_self
    have happend : m ++ (k, v) :: entries = m ++ [(k, v)] ++ entries := by simp
    rw [overlay_cons, put_of_new hnew, happend, ih (happend ▸ h)]

theorem ofList_of_distinct (h : Distinct entries) : ofList entries = entries :=
  overlay_of_distinct (m := []) h

theorem exists_mem_of_find? (h : m.find? k = some v) : ∃ k', (k' == k) = true ∧ (k', v) ∈ m := by
  induction m with
  | nil => cases h
  | cons e m ih =>
    rw [find?] at h
    split at h
    next heq => exact ⟨e.1, heq, Option.some.inj h ▸ List.mem_cons_self⟩
    next =>
      obtain ⟨k', heq, hmem⟩ := ih h
      exact ⟨k', heq, List.mem_cons_of_mem _ hmem⟩

theorem mem_of_find? [LawfulBEq κ] (h : m.find? k = some v) : (k, v) ∈ m := by
  obtain ⟨k', heq, hmem⟩ := exists_mem_of_find? h
  exact eq_of_beq heq ▸ hmem

theorem find?_eq_none [LawfulBEq κ] : m.find? k = none ↔ k ∉ m.keys := by
  induction m with
  | nil => simp [keys]
  | cons e m ih =>
    rw [find?]
    split
    next heq => simp [keys, eq_of_beq heq]
    next hne =>
      have hne' : k ≠ e.1 := fun heq => hne (by simp [heq])
      rw [ih]
      simp [keys, hne']

theorem exists_find? [LawfulBEq κ] (h : k ∈ m.keys) : ∃ v, m.find? k = some v :=
  Option.ne_none_iff_exists'.mp fun hnone => find?_eq_none.mp hnone h

theorem has_eq_false [LawfulBEq κ] : m.has k = false ↔ k ∉ m.keys := by
  rw [← find?_eq_none, has, Option.isSome_eq_false_iff, Option.isNone_iff_eq_none]

theorem put_of_notMem [LawfulBEq κ] (h : k ∉ m.keys) : m.put k v = m ++ [(k, v)] :=
  put_of_new fun _ he => beq_eq_false_iff_ne.mpr fun heq => h (heq ▸ List.mem_map_of_mem he)

theorem find?_of_mem (hm : m.Distinct) (hrefl : (k == k) = true) (h : (k, v) ∈ m) :
    m.find? k = some v := by
  induction m with
  | nil => cases h
  | cons e m ih =>
    obtain ⟨hfirst, hrest⟩ := List.pairwise_cons.mp hm
    rcases List.mem_cons.mp h with rfl | hmem
    · rw [find?, if_pos hrefl]
    · rw [find?, if_neg (by simp [hfirst _ hmem]), ih hrest hmem]

/-- Two entries under one key, with values in some relation. -/
def Alike {μ : Type} (R : ν → μ → Prop) (e : κ × ν) (e' : κ × μ) : Prop :=
  e.1 = e'.1 ∧ R e.2 e'.2

section

variable {μ : Type} {R : ν → μ → Prop} {m' entries' : OrderedMap κ μ} {v' : μ}

theorem forall₂_put (h : List.Forall₂ (Alike R) m m') (hv : R v v') (k : κ) :
    List.Forall₂ (Alike R) (m.put k v) (m'.put k v') := by
  induction h with
  | nil => exact .cons ⟨rfl, hv⟩ .nil
  | @cons e e' m m' he hrest ih =>
    obtain ⟨hkey, hvalue⟩ := he
    rw [put, put, hkey]
    split
    · exact .cons ⟨rfl, hv⟩ hrest
    · exact .cons ⟨rfl, hvalue⟩ ih

/-- Maps built from alike entries are alike. -/
theorem forall₂_overlay (h : List.Forall₂ (Alike R) m m')
    (hentries : List.Forall₂ (Alike R) entries entries') :
    List.Forall₂ (Alike R) (m.overlay entries) (m'.overlay entries') := by
  refine List.rel_foldl (fun m m' hm ⟨k, v⟩ ⟨k', v'⟩ ⟨hkey, hvalue⟩ => ?_) h hentries
  obtain rfl : k = k' := hkey
  exact forall₂_put hm hvalue k

theorem forall₂_ofList (h : List.Forall₂ (Alike R) entries entries') :
    List.Forall₂ (Alike R) (ofList entries) (ofList entries') :=
  forall₂_overlay .nil h

end

theorem find?_map {μ : Type} (f : ν → μ) (m : OrderedMap κ ν) (k : κ) :
    find? (m.map (Prod.map id f)) k = (m.find? k).map f := by
  induction m with
  | nil => rfl
  | cons e m ih =>
    rw [List.map_cons, find?, find?, ih]
    show (if (e.1 == k) = true then some (f e.2) else _) = _
    split <;> rfl

theorem find?_mapWithKey [LawfulBEq κ] {μ : Type} (f : κ → ν → μ) (m : OrderedMap κ ν) (k : κ) :
    find? (m.map fun e => (e.1, f e.1 e.2)) k = (m.find? k).map (f k) := by
  induction m with
  | nil => rfl
  | cons e m ih =>
    rw [List.map_cons, find?, find?, ih]
    split
    next heq => exact eq_of_beq heq ▸ rfl
    next => rfl

theorem ofList_concat (entries : List (κ × ν)) (e : κ × ν) :
    ofList (entries ++ [e]) = (ofList entries).put e.1 e.2 := by
  rw [ofList, overlay, List.foldl_append]
  rfl

theorem nodup_keys_put [LawfulBEq κ] (h : m.keys.Nodup) (k : κ) (v : ν) :
    (m.put k v).keys.Nodup := by
  by_cases hk : k ∈ m.keys
  · rw [keys_put, if_pos (by simpa using hk)]
    exact h
  · rw [put_of_notMem hk]
    exact nodup_keys_concat h hk

theorem nodup_keys_ofList [LawfulBEq κ] (entries : List (κ × ν)) : (ofList entries).keys.Nodup := by
  have hoverlay : ∀ m : OrderedMap κ ν, m.keys.Nodup → (m.overlay entries).keys.Nodup := by
    induction entries with
    | nil => exact fun _ h => h
    | cons e entries ih => exact fun m h => ih _ (nodup_keys_put h e.1 e.2)
  exact hoverlay [] .nil

/-- Maps with the same keys in the same order and the same values under them are the same. -/
theorem ext_of_find? [LawfulBEq κ] {m' : OrderedMap κ ν} (hkeys : m.keys = m'.keys)
    (hnodup : m.keys.Nodup) (h : ∀ k, m.find? k = m'.find? k) : m = m' := by
  induction m generalizing m' with
  | nil => exact (List.map_eq_nil_iff.mp hkeys.symm).symm
  | cons e m ih =>
    obtain ⟨k, v⟩ := e
    cases m' with
    | nil => cases hkeys
    | cons e' m' =>
      obtain ⟨k', v'⟩ := e'
      obtain ⟨rfl, htail⟩ := List.cons.inj hkeys
      obtain ⟨hnew, hnodup⟩ := List.nodup_cons.mp hnodup
      have hvalue : v = v' := by simpa [find?] using h k
      have hrest : ∀ k', find? m k' = find? m' k' := by
        intro k'
        by_cases heq : k = k'
        · subst heq
          rw [find?_eq_none.mpr hnew, find?_eq_none.mpr fun hmem => hnew (htail ▸ hmem)]
        · simpa [find?, heq] using h k'
      rw [hvalue, ih htail hnodup hrest]

/-- What is found in a map was among the entries that it was built from. -/
theorem mem_of_find?_ofList [LawfulBEq κ] {entries : List (κ × ν)}
    (h : (ofList entries).find? k = some v) : (k, v) ∈ entries := by
  have hoverlay : ∀ m : OrderedMap κ ν, (m.overlay entries).find? k = some v →
      m.find? k = some v ∨ (k, v) ∈ entries := by
    clear h
    induction entries with
    | nil => exact fun _ => .inl
    | cons e entries ih =>
      intro m h
      rcases ih (m.put e.1 e.2) h with hput | hmem
      · rw [find?_put] at hput
        split at hput
        next heq =>
          obtain rfl := eq_of_beq heq
          obtain rfl := Option.some.inj hput
          exact .inr List.mem_cons_self
        next => exact .inl hput
      · exact .inr (List.mem_cons_of_mem _ hmem)
  exact (hoverlay [] h).resolve_left nofun

theorem mem_of_mem_ofList [LawfulBEq κ] {entries : List (κ × ν)} {e : κ × ν}
    (h : e ∈ ofList entries) : e ∈ entries := by
  have hdistinct : Distinct (ofList entries) := distinct_iff_nodup.mpr (nodup_keys_ofList entries)
  exact mem_of_find?_ofList (find?_of_mem hdistinct (beq_self_eq_true e.1) h)

theorem mem_keys_put [LawfulBEq κ] {k' : κ} : k' ∈ (m.put k v).keys ↔ k' ∈ m.keys ∨ k' = k := by
  by_cases hk : k ∈ m.keys
  · rw [keys_put, if_pos (by simpa using hk)]
    exact ⟨.inl, fun h => h.elim id fun heq => heq ▸ hk⟩
  · rw [put_of_notMem hk]
    simp [keys]

theorem mem_keys_ofList [LawfulBEq κ] {entries : List (κ × ν)} :
    k ∈ (ofList entries).keys ↔ k ∈ entries.map (·.1) := by
  have hoverlay : ∀ m : OrderedMap κ ν,
      k ∈ (m.overlay entries).keys ↔ k ∈ m.keys ∨ k ∈ entries.map (·.1) := by
    induction entries with
    | nil => simp
    | cons e entries ih =>
      intro m
      rw [overlay_cons, ih, mem_keys_put, List.map_cons, List.mem_cons, or_assoc]
  exact (hoverlay []).trans (or_iff_right List.not_mem_nil)

/-- Putting a key that is there adds none. -/
theorem keys_put_of_find? [LawfulBEq κ] {v' : ν} (h : m.find? k = some v') (v : ν) :
    (m.put k v).keys = m.keys := by
  rw [keys_put, if_pos]
  exact List.elem_eq_true_of_mem (List.mem_map_of_mem (mem_of_find? h))

end DocTable.OrderedMap
