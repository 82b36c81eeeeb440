import DocTable.Proofs.Outcome
import DocTable.Proofs.Text.Digits
import DocTable.Proofs.Text.Spelling
import DocTable.Value.Access

/-! The texts of values. Only a value of a kind that is merely named could be shown as nothing, so
what counts as true is shown as something. Only a value with an integer of too many digits cannot be
shown at all. -/

namespace DocTable

theorem ofList_ne_empty {cs : List Char} (h : cs ≠ []) : String.ofList cs ≠ "" := by
  intro heq
  exact h (by simpa using congrArg String.toList heq)

theorem signed_ne_empty (negative : Bool) {cs : List Char} (h : cs ≠ []) :
    String.ofList (if negative then '-' :: cs else cs) ≠ "" := by
  refine ofList_ne_empty ?_
  split
  · exact List.cons_ne_nil _ _
  · exact h

theorem integerText_ne_empty (n : Int) : integerText n ≠ "" := by
  have hnatural : naturalText n.natAbs ≠ "" := ofList_ne_empty (decimalDigits_ne_nil _)
  unfold integerText
  split
  · simp
  · exact hnatural

namespace Binary64

theorem setOut_ne_nil {digits : List Char} (h : digits ≠ []) (layout : Layout) (place : Int) :
    setOut layout digits place ≠ [] := by
  unfold setOut
  dsimp only
  repeat' split
  all_goals simp [h]

theorem toText_ne_empty (x : Binary64) : x.toText ≠ "" := by
  unfold toText textIn
  split
  · decide
  · simp [plainLayout]
  · exact signed_ne_empty _ (setOut_ne_nil (decimalDigits_ne_nil _) _ _)

end Binary64

namespace Decimal

theorem magnitudeText_ne_nil (coefficient : Nat) (exponent : Int) :
    magnitudeText coefficient exponent ≠ [] := by
  have hdigits := decimalDigits_ne_nil coefficient
  unfold magnitudeText
  dsimp only
  repeat' split
  all_goals simp [hdigits, exponentText]

theorem toText_ne_empty (d : Decimal) : d.toText ≠ "" := by
  cases d with
  | finite negative coefficient exponent => exact signed_ne_empty _ (magnitudeText_ne_nil _ _)
  | infinite negative | nan negative signaling payload => exact signed_ne_empty _ (by simp)

end Decimal

namespace Value

/-- Whether a value is shown as something. -/
def Visible (v : Value) : Prop :=
  ∀ kind, v ≠ .other kind ""

theorem shown_ne_empty {v : Value} (h : v.Visible) : v.shown ≠ "" := by
  unfold shown
  split
  case h_2 b => cases b <;> decide
  case h_3 n => exact integerText_ne_empty n
  case h_4 x => exact x.toText_ne_empty
  case h_6 s => exact s.quoted_ne_empty
  case h_7 content => exact ofList_ne_empty (List.cons_ne_nil _ _)
  case h_8 content => simp [Text.quotedBuffer]
  case h_19 kind shown => exact fun hshown => h kind (hshown ▸ rfl)
  all_goals simp

/-- What counts as true has a plain text. -/
theorem plain_ne_empty {v : Value} (htruthy : v.truthy = true) (h : v.Visible) : v.plain ≠ "" := by
  unfold plain
  split
  next s => exact mt Spelling.mended_eq_empty_iff.mp (by simpa [truthy] using htruthy)
  next d => exact d.toText_ne_empty
  next => exact shown_ne_empty h

theorem spelling_ne_empty {v : Value} (htruthy : v.truthy = true) (h : v.Visible) :
    v.spelling ≠ "" := by
  unfold spelling
  split
  next s => simpa [truthy] using htruthy
  next => exact mt Spelling.plain.inj (plain_ne_empty htruthy h)

section

variable {v : Value}

theorem spelled_eq_ok {s : Spelling} : v.spelled = .ok s ↔ v.hasText = true ∧ v.spelling = s := by
  unfold spelled
  split <;> simp_all

/-- Texts of a value fail for one reason. -/
theorem fails_if_hasText {α : Type} (v : Value) (text : α) :
    Outcome.Fails (fun f => v.hasText = false ∧ f = .badText)
      (if v.hasText then .ok text else .error .badText) := by
  split
  next => exact Outcome.fails_ok _
  next htext => exact Outcome.fails_error.mpr ⟨Bool.eq_false_iff.mpr htext, rfl⟩

theorem fails_plainText (v : Value) :
    Outcome.Fails (fun f => v.hasText = false ∧ f = .badText) v.plainText :=
  v.fails_if_hasText v.plain

theorem fails_spelled (v : Value) :
    Outcome.Fails (fun f => v.hasText = false ∧ f = .badText) v.spelled :=
  v.fails_if_hasText v.spelling

end

end Value

end DocTable
