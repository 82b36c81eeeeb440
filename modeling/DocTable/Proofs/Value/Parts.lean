import DocTable.Proofs.OrderedMap
import DocTable.Proofs.Outcome
import DocTable.Stored.Basic

/-! What stands inside values, at any depth. Of entries whose keys turn into one name only the last
one counts, since that is the one that is written. -/

namespace DocTable

/-! ## Application values -/

/-- The entries of a map under the names that their keys turn into, later ones replacing earlier
ones. -/
def Entries.byName (entries : Entries) : OrderedMap Spelling Value :=
  .ofList (entries.map fun e => (e.1.spelling, e.2))

theorem Entries.exists_of_mem_byName {entries : Entries} {e : Spelling × Value}
    (h : e ∈ entries.byName) : ∃ e' ∈ entries, (e'.1.spelling, e'.2) = e := by
  have hfind := OrderedMap.find?_of_mem
    (OrderedMap.distinct_iff_nodup.mpr (OrderedMap.nodup_keys_ofList _)) (beq_self_eq_true e.1) h
  exact List.mem_map.mp (OrderedMap.mem_of_find?_ofList hfind)

namespace Value

/-- Induction over the parts of values. -/
@[elab_as_elim]
theorem byParts {motive : Value → Prop} (null : motive .null) (bool : ∀ b, motive (.bool b))
    (int : ∀ n, motive (.int n)) (float : ∀ x, motive (.float x))
    (decimal : ∀ d, motive (.decimal d)) (text : ∀ s, motive (.text s))
    (bytes : ∀ c content, motive (.bytes c content))
    (list : ∀ items, (∀ v ∈ items, motive v) → motive (.list items))
    (tuple : ∀ items, (∀ v ∈ items, motive v) → motive (.tuple items))
    (set : ∀ frozen members, (∀ v ∈ members, motive v) → motive (.set frozen members))
    (map : ∀ entries : Entries, (∀ e ∈ entries, motive e.2) → motive (.map entries))
    (wildcard : motive .wildcard) (record : ∀ fields, motive (.record fields))
    (other : ∀ kind shown, motive (.other kind shown)) (v : Value) : motive v :=
  @Value.rec motive (fun items => ∀ v ∈ items, motive v) (fun entries => ∀ e ∈ entries, motive e.2)
    (fun _ => True) (fun e => motive e.2) (fun _ => True) null bool int float decimal text bytes
    list tuple set map wildcard (fun fields _ => record fields) other
    (fun _ h => absurd h List.not_mem_nil)
    (fun _ _ hfirst hrest => List.forall_mem_cons.mpr ⟨hfirst, hrest⟩)
    (fun _ h => absurd h List.not_mem_nil)
    (fun _ _ hfirst hrest => List.forall_mem_cons.mpr ⟨hfirst, hrest⟩)
    trivial (fun _ _ _ _ => trivial) (fun _ _ _ h => h) (fun _ _ _ => trivial) v

/-- Whether a value, or one inside of it that is written with it, has some property. -/
inductive Has (q : Value → Prop) : Value → Prop where
  | here {v : Value} (h : q v) : Has q v
  | list {items : List Value} {v : Value} (hv : v ∈ items) (h : Has q v) : Has q (.list items)
  | tuple {items : List Value} {v : Value} (hv : v ∈ items) (h : Has q v) : Has q (.tuple items)
  | set {frozen : Bool} {members : List Value} {v : Value} (hv : v ∈ members) (h : Has q v) :
    Has q (.set frozen members)
  | map {entries : Entries} {e : Spelling × Value} (he : e ∈ entries.byName) (h : Has q e.2) :
    Has q (.map entries)

variable {q : Value → Prop}

theorem has_list {items : List Value} :
    (list items).Has q ↔ q (list items) ∨ ∃ v ∈ items, v.Has q := by
  constructor
  · intro h
    cases h with
    | here h => exact .inl h
    | list hv h => exact .inr ⟨_, hv, h⟩
  · rintro (h | ⟨v, hv, h⟩)
    · exact .here h
    · exact .list hv h

theorem has_tuple {items : List Value} :
    (tuple items).Has q ↔ q (tuple items) ∨ ∃ v ∈ items, v.Has q := by
  constructor
  · intro h
    cases h with
    | here h => exact .inl h
    | tuple hv h => exact .inr ⟨_, hv, h⟩
  · rintro (h | ⟨v, hv, h⟩)
    · exact .here h
    · exact .tuple hv h

theorem has_set {frozen : Bool} {members : List Value} :
    (set frozen members).Has q ↔ q (set frozen members) ∨ ∃ v ∈ members, v.Has q := by
  constructor
  · intro h
    cases h with
    | here h => exact .inl h
    | set hv h => exact .inr ⟨_, hv, h⟩
  · rintro (h | ⟨v, hv, h⟩)
    · exact .here h
    · exact .set hv h

theorem has_map {entries : Entries} :
    (map entries).Has q ↔ q (map entries) ∨ ∃ e ∈ entries.byName, e.2.Has q := by
  constructor
  · intro h
    cases h with
    | here h => exact .inl h
    | map he h => exact .inr ⟨_, he, h⟩
  · rintro (h | ⟨e, he, h⟩)
    · exact .here h
    · exact .map he h

/-- Whether a value is neither a list, a tuple, a set nor a map. -/
def Whole : Value → Prop
  | list _ | tuple _ | set .. | map _ => False
  | _ => True

theorem has_of_whole {v : Value} (hv : v.Whole) : v.Has q ↔ q v := by
  refine ⟨fun h => ?_, .here⟩
  cases h with
  | here h => exact h
  | _ => exact hv.elim

end Value

/-! ## Attribute values -/

namespace Attr

/-- Whether an attribute value, or one inside of it, has some property. -/
inductive Has (q : Attr → Prop) : Attr → Prop where
  | here {a : Attr} (h : q a) : Has q a
  | list {items : List Attr} {a : Attr} (ha : a ∈ items) (h : Has q a) : Has q (.list items)
  | map {entries : List (Spelling × Attr)} {e : Spelling × Attr} (he : e ∈ entries)
    (h : Has q e.2) :
    Has q (.map entries)

variable {q : Attr → Prop}

theorem has_list {items : List Attr} :
    (list items).Has q ↔ q (list items) ∨ ∃ a ∈ items, a.Has q := by
  constructor
  · intro h
    cases h with
    | here h => exact .inl h
    | list ha h => exact .inr ⟨_, ha, h⟩
  · rintro (h | ⟨a, ha, h⟩)
    · exact .here h
    · exact .list ha h

theorem has_map {entries : List (Spelling × Attr)} :
    (map entries).Has q ↔ q (map entries) ∨ ∃ e ∈ entries, e.2.Has q := by
  constructor
  · intro h
    cases h with
    | here h => exact .inl h
    | map he h => exact .inr ⟨_, he, h⟩
  · rintro (h | ⟨e, he, h⟩)
    · exact .here h
    · exact .map he h

/-- Whether an attribute value is neither a list nor a map. -/
def Whole : Attr → Prop
  | list _ | map _ => False
  | _ => True

theorem has_of_whole {a : Attr} (ha : a.Whole) : a.Has q ↔ q a := by
  refine ⟨fun h => ?_, .here⟩
  cases h with
  | here h => exact h
  | _ => exact ha.elim

end Attr

end DocTable
