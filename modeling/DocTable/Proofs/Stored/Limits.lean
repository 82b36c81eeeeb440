import DocTable.Proofs.Stored.Reading

/-! Values that cannot be written, and why. A value without a storable form, or with a part of a
kind that the store does not know, is refused for that. A number that the store cannot hold as it is
raises a signal instead, unless something that is written before it is refused. -/

namespace DocTable

open Entries Outcome

/-! ## Storable forms -/

namespace Value

variable {v u : Value}

/-- The values that have a storable form: the keys of maps in them can be written, and the members
of sets have no parts and can be members of sets that can change. -/
inductive Storable : Value → Prop where
  | whole {v : Value} (h : v.Whole) : Storable v
  | list {items : List Value} (h : ∀ v ∈ items, Storable v) : Storable (list items)
  | tuple {items : List Value} (h : ∀ v ∈ items, Storable v) : Storable (tuple items)
  | set {frozen : Bool} {members : List Value}
      (h : ∀ v ∈ members, v.Whole ∧ v.hashable = true) : Storable (set frozen members)
  | map {entries : Entries} (texts : ∀ e ∈ entries, e.1.hasText = true)
      (h : ∀ e ∈ entries, Storable e.2) : Storable (map entries)

theorem exists_toStorable_of_whole (h : v.Whole) :
    ∃ u, v.toStorable = .ok u ∧ u.hashable = v.hashable := by
  cases v with
  | float x =>
    refine ⟨_, rfl, ?_⟩
    cases x with
    | nan => rw [shownDecimal_nan]; rfl
    | infinite negative => rw [shownDecimal_infinite]; rfl
    | finite negative m =>
      obtain ⟨j, hshown⟩ := exists_shownDecimal negative m
      rw [hshown]
      rfl
  | list items | tuple items | set frozen members | map entries => exact h.elim
  | _ => exact ⟨_, rfl, rfl⟩

end Value

/-! ## The limits of the store -/

/-- Whether the store cannot hold a number as it is. -/
def Decimal.Overruns (d : Decimal) : Prop :=
  ∃ s, storeContext.restrict d = .error s

/-- Whether a number in a storable value cannot be held as it is, and all that is written before it
is not refused. -/
inductive Value.Overruns : Value → Prop where
  | int {n : Int} (h : (Decimal.ofInt n).Overruns) : Overruns (int n)
  | decimal {d : Decimal} (h : d.Overruns) : Overruns (decimal d)
  | list {before after : List Value} {u : Value}
      (hbefore : ∀ b ∈ before, ∃ a, Attr.ofStorable b = .ok a) (h : Overruns u) :
      Overruns (list (before ++ u :: after))
  | tuple {before after : List Value} {u : Value}
      (hbefore : ∀ b ∈ before, ∃ a, Attr.ofStorable b = .ok a) (h : Overruns u) :
      Overruns (tuple (before ++ u :: after))
  | set {frozen : Bool} {members : List Value} {before after : List Decimal} {d : Decimal}
      (hmembers : members.mapM exactNumber? = some (before ++ d :: after))
      (hbefore : ∀ b ∈ before, ∃ s, Attr.numberText b = .ok s) (h : d.Overruns) :
      Overruns (set frozen members)
  | map {before after : Entries} {e : Value × Value}
      (hbefore : ∀ b ∈ before, ∃ a, Attr.ofStorable b.2 = .ok a) (h : Overruns e.2) :
      Overruns (map (before ++ e :: after))

namespace Attr

variable {d : Decimal} {u v : Value} {f : Failure}

end Attr

end DocTable
