import DocTable.Proofs.Number.Decimals
import DocTable.Stored.Reading

/-! Integers as the store holds them: an integer with no more digits than the store keeps is written
as its digits, and its digits are read as the same decimal, which denotes the integer again. Equal
decimals of this kind denote equal integers. -/

namespace DocTable

variable {n m : Int}

namespace Exact

/-- What is divided out, multiplied in again. -/
theorem strip_mul (factor limit n : Nat) :
    (strip factor limit n).1 * factor ^ (strip factor limit n).2 = n := by
  induction limit generalizing n with
  | zero => simp [strip]
  | succ limit ih =>
    rw [strip]
    split
    next hmod =>
      show (strip factor limit (n / factor)).1 *
        factor ^ ((strip factor limit (n / factor)).2 + 1) = n
      rw [Nat.pow_succ, ← Nat.mul_assoc, ih]
      exact Nat.div_mul_cancel (Nat.dvd_of_mod_eq_zero hmod)
    next => simp

/-- The integer that an exact number is, if it is one. -/
def toInt (x : Exact) : Int :=
  x.odd * (5 ^ x.fives.toNat * 2 ^ x.twos.toNat : Nat)

theorem toInt_ofInt (n : Int) : (ofInt n).toInt = n := by
  unfold ofInt ofParts
  split
  next h => simp [toInt, h]
  next h =>
    have htwo := strip_mul 2 (n.natAbs.log2 + 1) n.natAbs
    generalize strip 2 (n.natAbs.log2 + 1) n.natAbs = r at htwo ⊢
    obtain ⟨n', two⟩ := r
    dsimp only at htwo ⊢
    have hfive := strip_mul 5 (n'.log2 + 1) n'
    generalize strip 5 (n'.log2 + 1) n' = r at hfive ⊢
    obtain ⟨n'', five⟩ := r
    dsimp only at hfive ⊢
    have hmag : n'' * (5 ^ five * 2 ^ two) = n.natAbs := by
      rw [← Nat.mul_assoc, hfive, htwo]
    simp only [toInt, Int.zero_add, Int.toNat_natCast]
    rw [Int.mul_assoc, ← Int.natCast_mul, hmag, Int.sign_mul_natAbs]

theorem ofInt_injective (h : ofInt n = ofInt m) : n = m := by
  rw [← toInt_ofInt n, h, toInt_ofInt]

end Exact

/-! ## Decimals -/

namespace Decimal

theorem signed_natAbs (n : Int) :
    (if decide (n < 0) = true then -(n.natAbs : Int) else (n.natAbs : Int)) = n := by
  by_cases h : n < 0
  · rw [decide_eq_true h, if_pos rfl, Int.ofNat_natAbs_of_nonpos (by omega), Int.neg_neg]
  · rw [decide_eq_false h, if_neg Bool.false_ne_true, Int.natAbs_of_nonneg (by omega)]

theorem toInt?_ofInt (n : Int) : (ofInt n).toInt? = some n := by
  by_cases hzero : n.natAbs = 0
  · obtain rfl := Int.natAbs_eq_zero.mp hzero
    rfl
  · have hunit : n.natAbs * Nat.pow 10 (0 : Int).toNat = n.natAbs := Nat.mul_one _
    simp only [ofInt, toInt?, if_neg hzero, Int.le_refl, if_true, hunit, signed_natAbs]

/-- The store keeps thirty-eight digits. -/
theorem admitted_ofInt (h : n.natAbs < 10 ^ 38) : admitted (ofInt n) = .ok (ofInt n) := by
  have hdigits := (digitCount_le_iff (n := n.natAbs) (k := 38) (by decide)).mpr h
  have hpos := digitCount_pos n.natAbs
  have hrestrict : storeContext.restrict (ofInt n) = .ok (ofInt n) := by
    simp only [ofInt, Context.restrict]
    split
    next => exact if_neg (by decide)
    next =>
      have hhigh : ¬storeContext.greatest < adjusted n.natAbs 0 := by
        show ¬(126 : Int) < 0 + digitCount n.natAbs - 1
        omega
      have hlow : ¬adjusted n.natAbs 0 < storeContext.least := by
        show ¬(0 : Int) + digitCount n.natAbs - 1 < -128
        omega
      have hexcess : digitCount n.natAbs - storeContext.precision = 0 :=
        Nat.sub_eq_zero_of_le hdigits
      rw [if_neg hhigh]
      simp only [if_neg hlow, hexcess, if_true]
  rw [admitted, hrestrict]

end Decimal

/-! ## Numbers of the store -/

theorem Attr.numberText_ofInt (h : n.natAbs < 10 ^ 38) :
    numberText (.ofInt n) = .ok (Decimal.ofInt n).toText :=
  numberText_eq_ok.mpr ⟨Decimal.admitted_ofInt h, nofun, nofun, rfl⟩

namespace Value

theorem toDecimal_toText_ofInt (h : n.natAbs < 10 ^ 38) :
    (text (Decimal.ofInt n).toText).toDecimal = .ok (.ofInt n) :=
  toDecimal_of_numberText (Attr.numberText_ofInt h)

theorem ofDecimal_of_toInt? {d : Decimal} (h : d.toInt? = some n) : ofDecimal d = .ok (int n) := by
  cases d with
  | finite negative coefficient exponent => simp only [ofDecimal, h]
  | infinite negative => cases h
  | nan negative signaling payload => cases h

theorem ofDecimal_ofInt (n : Int) : ofDecimal (.ofInt n) = .ok (int n) :=
  ofDecimal_of_toInt? (Decimal.toInt?_ofInt n)

theorem decimal_same_iff :
    (decimal (.ofInt n)).same (decimal (.ofInt m)) = true ↔ n = m := by
  have hexact : ∀ n : Int, Extended.ofDecimal (.ofInt n) = .finite (.ofInt n) := fun n => by
    simp only [Decimal.ofInt, Extended.ofDecimal, Exact.ofInt, Decimal.signed_natAbs]
  simp only [same, sameAtom, number?, hexact, Extended.same, decide_eq_true_eq]
  exact ⟨Exact.ofInt_injective, congrArg _⟩

end Value

end DocTable
