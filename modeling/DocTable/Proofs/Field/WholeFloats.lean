import DocTable.Proofs.Field.Elements
import DocTable.Proofs.Field.Reading
import DocTable.Proofs.Number.Integers
import DocTable.Proofs.Number.Whole
import Mathlib.Algebra.Ring.Int.Defs

/-! Floating point numbers that denote integers, in fields for numbers. They are written as their
shortest decimals, and what is read is the integer that the decimal denotes: one that is read as the
same floating point number, but not always the one that it denotes. -/

namespace DocTable

open Outcome

variable {d : Definition} {x : Binary64} {n k : Int} {a : Attr}

theorem pow_dvd_iff (w : Int) (zeros : Nat) : (10 : Int) ^ zeros ∣ w ↔ 10 ^ zeros ∣ w.natAbs := by
  rw [← Int.natCast_dvd, Int.natCast_pow]
  rfl

/-- The shortest decimal of a number that denotes an integer denotes an integer too. -/
theorem Value.exists_shownInt (h : x.toInt? = some n) : ∃ k : Int,
    (shownDecimal x).toInt? = some k ∧ x.NearestTo k ∧
      (k = n ↔ ∀ (w : Int) (zeros : Nat), x.NearestTo w → 10 ^ zeros ∣ w → 10 ^ zeros ∣ n) ∧
      (n.natAbs < 2 ^ 53 → k = n) := by
  obtain ⟨negative, m, whole, rfl, hunits, rfl⟩ := Binary64.exists_whole h
  obtain ⟨c, place, hshortest, hreads, hself⟩ := Binary64.Magnitude.exists_shortest hunits
  obtain ⟨j, hshown⟩ := exists_shownDecimal negative m
  rw [hshortest] at hshown
  refine ⟨signed negative (c * 10 ^ place), ?_, hreads.nearestTo negative, ?_, fun hsmall => ?_⟩
  · rw [hshown]
    exact Decimal.toInt?_shift negative c place j
  · rw [signed_inj, hself]
    constructor
    · intro hmost w zeros hw hdvd
      have hdvd := hmost w.natAbs zeros hw.reads ((pow_dvd_iff w zeros).mp hdvd)
      rwa [pow_dvd_iff, natAbs_signed]
    · intro hmost w zeros hw hdvd
      have hsigned := hmost (signed negative w) zeros (hw.nearestTo negative)
      rw [pow_dvd_iff, pow_dvd_iff, natAbs_signed, natAbs_signed] at hsigned
      exact hsigned hdvd
  · rw [natAbs_signed] at hsmall
    rw [signed_inj]
    exact hreads.eq_of_lt hunits hsmall

namespace Definition

/-- A floating point number is written as its shortest decimal. -/
theorem encode_float (htag : d.tag? = some .number) (hconverter : d.converter = none)
    (x : Binary64) : d.encode (.float x) =
      d.blaming (do return .number (← Attr.numberText (Value.shownDecimal x))) := by
  have hchecked : d.checked (.float x) = .ok .number := checked_eq_ok.mpr ⟨htag, rfl, nofun⟩
  rw [encode_of_checked hconverter (json_eq_false_of_tag? htag nofun) Value.noConfusion, hchecked]
  exact encodeChecked_of_not_bytes rfl

/-- What has been written is read as the plain number for the shortest decimal. -/
theorem decode_float (htag : d.tag? = some .number) (hconverter : d.converter = none)
    (h : d.encode (.float x) = .ok a) :
    d.decode a.toValue = Value.ofDecimal (Value.shownDecimal x) := by
  rw [encode_float htag hconverter, blaming_eq_ok] at h
  exact decode_of_ofStored hconverter (json_eq_false_of_tag? htag nofun) (Attr.ofStored_number h)

/-- **A floating point number that denotes an integer is read back as an integer** that is read as
the same number. It is the integer itself just if no integer that is read as the number ends with
more zeros; below `2 ^ 53` it always is. -/
theorem decode_whole (htag : d.tag? = some .number) (hconverter : d.converter = none)
    (hwhole : x.toInt? = some n) (h : d.encode (.float x) = .ok a) :
    (∃ k : Int, d.decode a.toValue = .ok (.int k) ∧ x.NearestTo k) ∧
      (d.decode a.toValue = .ok (.int n) ↔
        ∀ (w : Int) (zeros : Nat), x.NearestTo w → 10 ^ zeros ∣ w → 10 ^ zeros ∣ n) ∧
      (n.natAbs < 2 ^ 53 → d.decode a.toValue = .ok (.int n)) := by
  obtain ⟨k, hshown, hnearest, hself, hsmall⟩ := Value.exists_shownInt hwhole
  rw [decode_float htag hconverter h, Value.ofDecimal_of_toInt? hshown, Except.ok.injEq,
    Value.int.injEq]
  exact ⟨⟨k, rfl, hnearest⟩, hself, hsmall⟩

/-- The floating point number nearest to ten to the twenty-third. It denotes a smaller integer. -/
def huge : Binary64 :=
  .finite false ⟨5960464477539062, 1098, by decide⟩

theorem shownDecimal_huge : Value.shownDecimal huge = .finite false 1 23 := by
  decide +kernel

theorem toInt?_huge : huge.toInt? = some 99999999999999991611392 := by
  decide +kernel

theorem encode_huge : rating.encode (.float huge) = .ok (.number "1E+23") := by
  rw [encode_float rfl rfl, shownDecimal_huge]
  rfl

theorem decode_huge : rating.decode (Attr.number "1E+23").toValue = .ok (.int (10 ^ 23)) := by
  rw [decode_float rfl rfl encode_huge, shownDecimal_huge]
  rfl

/-- Twelve, which is shown with a zero behind the point. -/
def dozen : Binary64 :=
  .finite false ⟨6755399441055744, 1025, by decide⟩

theorem toInt?_dozen : dozen.toInt? = some 12 := by
  decide +kernel

theorem encode_dozen : rating.encode (.float dozen) = .ok (.number "12.0") := by
  have hshown : Value.shownDecimal dozen = .finite false 120 (-1) := by decide +kernel
  rw [encode_float rfl rfl, hshown]
  rfl

theorem decode_whole_rating :
    (rating.encode (.float dozen) = .ok (.number "12.0") ∧ dozen.toInt? = some 12 ∧
      rating.decode (Attr.number "12.0").toValue = .ok (.int 12)) ∧
    (rating.encode (.float huge) = .ok (.number "1E+23") ∧
      huge.toInt? = some 99999999999999991611392 ∧
      ¬ ∀ (w : Int) (zeros : Nat), huge.NearestTo w → 10 ^ zeros ∣ w →
        10 ^ zeros ∣ (99999999999999991611392 : Int)) := by
  have hdozen := decode_whole rfl rfl toInt?_dozen encode_dozen
  have hhuge := decode_whole rfl rfl toInt?_huge encode_huge
  refine ⟨⟨encode_dozen, toInt?_dozen, hdozen.2.2 (by decide)⟩, encode_huge, toInt?_huge,
    fun hmost => ?_⟩
  cases decode_huge.symm.trans (hhuge.2.1.mpr hmost)

/-- Ten to the twenty-third is written, and then read as an integer that it does not denote. -/
theorem not_decode_whole : ¬ ∀ (d : Definition) (x : Binary64) (n : Int) (a : Attr),
    d.tag? = some .number → d.converter = none → x.toInt? = some n →
    d.encode (.float x) = .ok a → d.decode a.toValue = .ok (.int n) := by
  intro h
  have hread := h rating huge _ _ rfl rfl toInt?_huge encode_huge
  rw [decode_huge] at hread
  cases hread

end Definition

end DocTable
