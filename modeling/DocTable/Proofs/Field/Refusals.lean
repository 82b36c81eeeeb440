import DocTable.Field.Codec
import DocTable.Proofs.Stored.Writing
import DocTable.Proofs.Value.Sorting

/-! Why fields refuse values. What keeps a value from being written is no refusal of the library's
own until the field makes it one; and what a field does to a value by itself, it refuses for the
value: that never says that a request is at fault. Only a converter, which is given from outside,
could say so. -/

namespace DocTable

open Outcome

/-- Whether a failure, if there is one, is none of a request. -/
abbrev Acquits {α : Type} (o : Outcome α) : Prop :=
  Fails (fun f => ∀ fault, f ≠ .request fault) o

/-- Whether a failure, if there is one, is no refusal of the library's own. -/
abbrev Foreign {α : Type} (o : Outcome α) : Prop :=
  Fails (fun f => f.isValidation = false) o

theorem Foreign.acquits {α : Type} {o : Outcome α} (h : Foreign o) : Acquits o :=
  h.mono fun f hf fault heq => by
    rw [heq] at hf
    cases hf

namespace Value

theorem foreign_ofDecimal (d : Decimal) : Foreign (ofDecimal d) := by
  unfold ofDecimal
  split
  · exact fails_error.mpr rfl
  · exact fails_error.mpr rfl
  · exact fails_ok _

mutual

theorem foreign_simplified (v : Value) : Foreign v.simplified := by
  unfold simplified
  split
  · exact foreign_ofDecimal _
  · exact (foreign_simplifiedEntries _).bind fun _ _ => fails_ok _
  · exact (foreign_simplifiedItems _).bind fun _ _ => fails_ok _
  · exact (foreign_simplifiedItems _).bind fun _ _ => fails_ok _
  · exact fails_ok _

theorem foreign_simplifiedItems (items : List Value) : Foreign (simplifiedItems items) := by
  cases items with
  | nil => exact fails_ok _
  | cons v rest =>
    exact (foreign_simplified v).bind fun _ _ =>
      (foreign_simplifiedItems rest).bind fun _ _ => fails_ok _

theorem foreign_simplifiedEntries (entries : List (Value × Value)) :
    Foreign (simplifiedEntries entries) := by
  match entries with
  | [] => exact fails_ok _
  | (k, v) :: rest =>
    exact (foreign_simplified v).bind fun _ _ =>
      (foreign_simplifiedEntries rest).bind fun _ _ => fails_ok _

end

/-! ## Order -/

theorem foreign_lessNumber (a b : Value) : Foreign (lessNumber a b) := by
  unfold lessNumber
  split
  · exact .ite (fails_error.mpr rfl) (fails_ok _)
  · exact fails_error.mpr rfl

mutual

theorem foreign_less (a b : Value) : Foreign (less a b) := by
  unfold less
  split
  · exact fails_ok _
  · exact fails_ok _
  · exact foreign_lessItems _ _
  · exact foreign_lessItems _ _
  · exact fails_ok _
  · exact foreign_lessNumber _ _

theorem foreign_lessItems (as bs : List Value) : Foreign (lessItems as bs) := by
  unfold lessItems
  split
  · split
    · exact foreign_lessItems _ _
    · exact foreign_less _ _
  · exact fails_ok _
  · exact fails_ok _

end

theorem foreign_insertSorted {α : Type} {before : α → α → Outcome Bool}
    (h : ∀ a b, Foreign (before a b)) (x : α) (xs : List α) :
    Foreign (insertSorted before x xs) := by
  induction xs with
  | nil => exact fails_ok _
  | cons y ys ih =>
    refine (h x y).bind fun first _ => ?_
    split
    · exact fails_ok _
    · exact ih.bind fun _ _ => fails_ok _

theorem foreign_sortedBy {α : Type} {before : α → α → Outcome Bool}
    (h : ∀ a b, Foreign (before a b)) (xs : List α) : Foreign (sortedBy before xs) :=
  .foldlM (fun done x _ => foreign_insertSorted h x done) []

end Value

namespace Json

theorem foreign_ofInt (n : Int) : Foreign (ofInt n) := by
  exact .ite (fails_error.mpr rfl) (fails_ok _)

theorem foreign_nameOf (v : Value) : Foreign (nameOf v) := by
  unfold nameOf
  split
  all_goals try exact fails_ok _
  · exact (foreign_ofInt _).bind fun _ _ => fails_ok _
  · exact fails_error.mpr rfl

theorem foreign_sortedMembers {entries : List (Value × Outcome Json)}
    (h : ∀ e ∈ entries, Foreign e.2) : Foreign (sortedMembers entries) := by
  refine Fails.bind (Value.foreign_sortedBy (fun a b => Value.foreign_less a.1 b.1) entries)
    fun sorted hsorted => .mapM fun e he => ?_
  have hmember := h e ((Value.perm_of_sortedBy hsorted).subset he)
  exact (foreign_nameOf e.1).bind fun _ _ => hmember.bind fun _ _ => fails_ok _

mutual

theorem foreign_ofValue (v : Value) : Foreign (ofValue v) := by
  unfold ofValue
  split
  all_goals try exact fails_ok _
  · exact foreign_ofInt _
  · exact (foreign_ofItems _).bind fun _ _ => fails_ok _
  · exact (foreign_ofItems _).bind fun _ _ => fails_ok _
  · exact (foreign_sortedMembers (foreign_ofEntries _)).bind fun _ _ => fails_ok _
  · exact fails_error.mpr rfl

theorem foreign_ofItems (items : List Value) : Foreign (ofItems items) := by
  cases items with
  | nil => exact fails_ok _
  | cons v rest =>
    exact (foreign_ofValue v).bind fun _ _ => (foreign_ofItems rest).bind fun _ _ => fails_ok _

theorem foreign_ofEntries (entries : List (Value × Value)) :
    ∀ e ∈ ofEntries entries, Foreign e.2 := by
  match entries with
  | [] => exact fun _ h => nomatch h
  | (k, v) :: rest =>
    exact List.forall_mem_cons.mpr ⟨foreign_ofValue v, foreign_ofEntries rest⟩

end

end Json

theorem Attr.Refused.foreign {f : Failure} (h : Refused f) : f.isValidation = false := by
  rcases h with ⟨why, rfl⟩ | ⟨s, rfl⟩ <;> rfl

theorem Attr.foreign_ofValue (v : Value) : Foreign (ofValue v) :=
  (fails_ofValue v).mono fun _ => Refused.foreign

namespace Definition

variable {d : Definition} {v : Value}

theorem foreign_jsonText (v : Value) : Foreign (jsonText v) :=
  (Value.foreign_simplified v).bind fun simple _ =>
    (Json.foreign_ofValue simple).bind fun _ _ => fails_ok _

theorem acquits_refusal {α : Type} (d : Definition) (fault : FieldFault) :
    Acquits (.error (d.refusal fault) : Outcome α) :=
  fails_error.mpr (by simp [refusal])

theorem acquits_checked (d : Definition) (v : Value) : Acquits (d.checked v) := by
  unfold checked
  split
  · exact .ite (.ite (d.acquits_refusal _) (fails_ok _)) (d.acquits_refusal _)
  · exact d.acquits_refusal _

theorem acquits_blaming {o : Outcome Attr} (h : Acquits o) : Acquits (d.blaming o) := by
  unfold blaming
  split
  · exact d.acquits_refusal _
  · exact h

/-- How a field comes to refuse a value: for the value, or because its converter does. Nothing is
converted in place of a value that is not there. -/
def Refuses (d : Definition) (v : Value) (f : Failure) : Prop :=
  (∀ fault, f ≠ .request fault) ∨
    v ≠ .null ∧ ∃ c, d.converter = some c ∧ c.store v = .error f

theorem fails_heldValue (hv : v ≠ .null) : Fails (d.Refuses v) (d.heldValue v) := by
  have hjson : ∀ held, Fails (d.Refuses v) (if d.json = true then jsonText held else .ok held) :=
    fun held => .ite (Fails.mono (foreign_jsonText held).acquits fun _ => .inl) (fails_ok _)
  unfold heldValue
  dsimp only
  split
  next c hc =>
    have hstore : Fails (d.Refuses v) (c.store v) := fun f hf => .inr ⟨hv, c, hc, hf⟩
    exact hstore.bind fun held _ => hjson held
  next => exact hjson v

/-- **Refusals of a field** never blame a request, except for those of its converter. -/
theorem fails_encode (d : Definition) (v : Value) : Fails (d.Refuses v) (d.encode v) := by
  unfold encode
  split
  next => exact Fails.mono (d.acquits_refusal .required) fun _ => .inl
  next hv =>
    refine (fails_heldValue hv).bind fun held _ => ?_
    refine Fails.mono ((d.acquits_checked held).bind fun _ _ => ?_) fun _ => .inl
    split
    · exact fails_ok _
    · exact acquits_blaming (Attr.foreign_ofValue _).acquits

end Definition

end DocTable
