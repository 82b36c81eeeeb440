import DocTable.Number.Rounding
import DocTable.Text.Digit
import DocTable.Text.Quoted
import Mathlib.Algebra.Group.Nat.Defs

/-! The digits of a natural number: which characters they are, how many, and that they read back as
the number. -/

namespace DocTable

variable {n k : Nat} {c : Char}

theorem isDigit_of_mem_decimalDigits (h : c ∈ decimalDigits n) : c.isDigit = true :=
  Nat.isDigit_of_mem_toDigits (by decide) (by decide) h

theorem ne_of_isDigit {d : Char} (hc : c.isDigit = true) (hd : d.isDigit = false) : c ≠ d := by
  rintro rfl
  exact absurd (hc.symm.trans hd) (by decide)

theorem ofDigitChars_decimalDigits (n : Nat) : Nat.ofDigitChars 10 (decimalDigits n) 0 = n :=
  Nat.ofDigitChars_ten_toDigits

theorem decimalDigits_ne_nil (n : Nat) : decimalDigits n ≠ [] :=
  Nat.toDigits_ne_nil

theorem digitCount_le_iff (h : 0 < k) : digitCount n ≤ k ↔ n < 10 ^ k :=
  Nat.length_toDigits_le_iff (by decide) h

theorem digitCount_pos (n : Nat) : 0 < digitCount n :=
  List.length_pos_iff.mpr (decimalDigits_ne_nil n)

theorem pow_le_of_lt_digitCount (hn : n ≠ 0) (h : k < digitCount n) : 10 ^ k ≤ n := by
  rcases Nat.eq_zero_or_pos k with rfl | hk
  · exact Nat.pos_of_ne_zero hn
  · exact Nat.le_of_not_lt fun hlt => Nat.not_le.mpr h ((digitCount_le_iff hk).mpr hlt)

/-- No number but zero begins with the digit zero. -/
theorem decimalDigits_head (h : n ≠ 0) : ∃ c cs, decimalDigits n = c :: cs ∧ c ≠ '0' := by
  induction n using Nat.strongRecOn with
  | ind n ih =>
    by_cases hsmall : n < 10
    · refine ⟨n.digitChar, [], Nat.toDigits_of_lt_base hsmall, ?_⟩
      have hdigit : ∀ n < 10, n ≠ 0 → n.digitChar ≠ '0' := by decide
      exact hdigit n hsmall h
    · obtain ⟨c, cs, heq, hne⟩ := ih (n / 10) (by omega) (by omega)
      refine ⟨c, cs ++ [(n % 10).digitChar], ?_, hne⟩
      rw [decimalDigits, Nat.toDigits_of_base_le (by decide) (by omega)]
      exact congrArg (· ++ _) heq

namespace Text

theorem hexValue?_digitChar : ∀ n < 16, hexValue? n.digitChar = some n := by
  decide

/-- The four digits of a unit, the leading zeros among them. -/
theorem hexDigits_four (h : n < 0x10000) :
    hexDigits 4 n = [(n / 0x1000).digitChar, (n / 0x100 % 16).digitChar, (n / 0x10 % 16).digitChar,
      (n % 16).digitChar] := by
  have hzero : '0' = (0 : Nat).digitChar := rfl
  have hbase (m : Nat) (hm : 16 ≤ m) := Nat.toDigits_of_base_le (b := 16) (by decide) hm
  have hdiv : n / 16 / 16 = n / 0x100 ∧ n / 0x100 / 16 = n / 0x1000 := by omega
  by_cases h₁ : n < 0x10
  · have : n / 0x1000 = 0 ∧ n / 0x100 = 0 ∧ n / 0x10 = 0 ∧ n % 16 = n := by omega
    simp [hexDigits, Nat.toDigits_of_lt_base h₁, this, List.replicate]
  by_cases h₂ : n < 0x100
  · have : n / 0x1000 = 0 ∧ n / 0x100 = 0 ∧ n / 0x10 % 16 = n / 0x10 := by omega
    simp [hexDigits, hbase n (by omega), Nat.toDigits_of_lt_base (show n / 16 < 16 by omega), this,
      List.replicate]
  by_cases h₃ : n < 0x1000
  · have : n / 0x1000 = 0 ∧ n / 0x100 % 16 = n / 0x100 := by omega
    simp [hexDigits, hbase n (by omega), hbase (n / 16) (by omega), hdiv,
      Nat.toDigits_of_lt_base (show n / 0x100 < 16 by omega), this]
  · simp [hexDigits, hbase n (by omega), hbase (n / 16) (by omega), hdiv,
      hbase (n / 0x100) (by omega),
      Nat.toDigits_of_lt_base (show n / 0x1000 < 16 by omega)]

end Text

end DocTable
