import DocTable.Proofs.Value.Tree

/-! What comes back for a value that was written: which sets are frozen and which byte strings can
be changed is not kept, and the entries of a map may be in another order. For trees that does not
matter: what comes back is equal to what was written. -/

namespace DocTable

namespace Value

open Entries

/-- Whether the first value can come back for the second, where the keys of a map come back in an
order that may depend on the order that they had. -/
inductive Restores (order : List Value → List Value → Prop) : Value → Value → Prop where
  | refl (v : Value) : Restores order v v
  | bytes (changeable : Bool) (content : List UInt8) :
    Restores order (.bytes false content) (.bytes changeable content)
  | set (frozen : Bool) (members : List Value) :
    Restores order (.set false members) (.set frozen members)
  | list {items' items : List Value} (h : List.Forall₂ (Restores order) items' items) :
    Restores order (.list items') (.list items)
  | map {entries' entries : List (Value × Value)}
      (keys : order (entries'.map (·.1)) (entries.map (·.1)))
      (h : ∀ e' ∈ entries', ∀ e ∈ entries, e'.1 = e.1 → Restores order e'.2 e.2) :
    Restores order (.map entries') (.map entries)

variable {v v' : Value} {leaf : Value → Prop} {order : List Value → List Value → Prop}

theorem Restores.ne_null (h : Restores order v' v) (hv : v ≠ null) : v' ≠ null := by
  cases h with
  | refl => exact hv
  | _ => exact nofun

/-! ## What comes back from the store -/

mutual

/-- A value with unchangeable byte strings and changeable sets, as they come back. -/
def restored : Value → Value
  | bytes _ content => bytes false content
  | set _ members => set false members
  | list items => list (restoredItems items)
  | map entries => map (restoredEntries entries)
  | v => v

def restoredItems : List Value → List Value
  | [] => []
  | v :: rest => restored v :: restoredItems rest

def restoredEntries : List (Value × Value) → List (Value × Value)
  | [] => []
  | (k, v) :: rest => (k, restored v) :: restoredEntries rest

end

theorem restoredItems_eq (items : List Value) : restoredItems items = items.map restored := by
  induction items with
  | nil => rfl
  | cons v items ih => rw [restoredItems, ih, List.map_cons]

theorem restoredEntries_eq (entries : List (Value × Value)) :
    restoredEntries entries = entries.map (Prod.map id restored) := by
  induction entries with
  | nil => rfl
  | cons e entries ih => rw [restoredEntries, ih]; rfl

/-- A tree can come back with all its byte strings unchangeable and all its sets changeable. -/
theorem Tree.restores_restored (hleaf : ∀ v, leaf v → v.Simple) (h : Tree leaf v) :
    v.restored.Restores Eq v := by
  induction h with
  | @leaf v h =>
    cases v with
    | bytes changeable content => exact .bytes changeable content
    | set frozen members => exact .set frozen members
    | list | map => exact (hleaf _ h).elim
    | _ => exact .refl _
  | @list items _ ih =>
    rw [restored, restoredItems_eq]
    exact .list (List.forall₂_map_left_iff.mpr (List.forall₂_same.mpr ih))
  | @map entries hnames _ ih =>
    rw [restored, restoredEntries_eq]
    refine .map (by simp [Function.comp_def]) fun e' he' e he hkey => ?_
    obtain ⟨e'', he'', rfl⟩ := List.mem_map.mp he'
    obtain rfl := hnames.eq_of_mem he'' he hkey
    exact ih _ he''

/-! ## Lists and maps -/

theorem Restores.exists_list {items : List Value} (h : v'.Restores order (.list items)) :
    ∃ items', v' = .list items' ∧ List.Forall₂ (Restores order) items' items := by
  cases h with
  | refl => exact ⟨items, rfl, List.forall₂_same.mpr fun v _ => .refl v⟩
  | list hitems => exact ⟨_, rfl, hitems⟩

theorem Restores.exists_of_list {items' : List Value} (h : (Value.list items').Restores order v) :
    ∃ items, v = .list items ∧ List.Forall₂ (Restores order) items' items := by
  cases h with
  | refl => exact ⟨items', rfl, List.forall₂_same.mpr fun v _ => .refl v⟩
  | list hitems => exact ⟨_, rfl, hitems⟩

section

variable (horder : ∀ ks' ks, order ks' ks → ks'.Perm ks) {entries entries' : Entries}

include horder

theorem Restores.exists_map (hnames : Named entries) (h : v'.Restores order (.map entries)) :
    ∃ entries' : Entries, v' = .map entries' ∧ entries'.keys.Perm entries.keys ∧
      ∀ e' ∈ entries', ∀ e ∈ entries, e'.1 = e.1 → Restores order e'.2 e.2 := by
  cases h with
  | refl =>
    refine ⟨entries, rfl, .refl _, fun e' he' e he heq => ?_⟩
    rw [hnames.eq_of_mem he' he heq]
    exact .refl _
  | map hkeys hrestores => exact ⟨_, rfl, horder _ _ hkeys, hrestores⟩

theorem Restores.exists_of_map (hnames : Named entries')
    (h : (Value.map entries').Restores order v) :
    ∃ entries : Entries, v = .map entries ∧ entries'.keys.Perm entries.keys ∧
      ∀ e' ∈ entries', ∀ e ∈ entries, e'.1 = e.1 → Restores order e'.2 e.2 := by
  cases h with
  | refl =>
    refine ⟨entries', rfl, .refl _, fun e' he' e he heq => ?_⟩
    rw [hnames.eq_of_mem he' he heq]
    exact .refl _
  | map hkeys hrestores => exact ⟨_, rfl, horder _ _ hkeys, hrestores⟩

end

/-- **What comes back** for a tree is equal to it. -/
theorem Tree.same_of_restores (hleaf : ∀ v, leaf v → v.Simple)
    (hrefl : ∀ v, leaf v → v.same v = true) (horder : ∀ ks' ks, order ks' ks → ks'.Perm ks)
    (hv : Tree leaf v) (h : Restores order v' v) : v'.same v = true := by
  induction hv generalizing v' with
  | @leaf v hv =>
    have hsame := hrefl v hv
    cases h with
    | refl => exact hsame
    | bytes c content => simp [same, sameAtom]
    | set frozen members =>
      rw [same] at hsame ⊢
      exact hsame
    | list | map => exact (hleaf _ hv).elim
  | @list items hitems ih =>
    obtain ⟨items', rfl, hrestores⟩ := h.exists_list
    rw [same, sameItems_iff, List.forall₂_iff_zip]
    exact ⟨hrestores.length_eq, fun hmem =>
      ih _ (List.of_mem_zip hmem).2 (List.forall₂_zip hrestores hmem)⟩
  | @map entries hnames hentries ih =>
    obtain ⟨entries', rfl, hkeys, hrestores⟩ := h.exists_map horder hnames
    refine (map_same_iff (hnames.of_perm hkeys) hnames).mpr
      ⟨by simpa [OrderedMap.keys] using hkeys.length_eq, fun e' he' => ?_⟩
    have hkey : e'.1 ∈ entries.keys := hkeys.subset (List.mem_map_of_mem he')
    obtain ⟨e, he, heq⟩ := List.mem_map.mp hkey
    exact ⟨e, he, heq, ih e he (hrestores e' he' e he heq.symm)⟩

end Value

end DocTable
