import DocTable.Number.Decimal
import DocTable.Number.Shortest
import DocTable.Proofs.Text.Digits

/-! Numerals: how numbers are written with a point and an exponent, and what they denote. The texts
of decimals and of floating point numbers are numerals, and a numeral is read as what it denotes. -/

namespace DocTable

/-- The exponent of a numeral: a letter, a sign, and digits that may begin with zeros. -/
structure Numeral.Exponent where
  letter : Char
  zeros : Nat
  value : Int
  isLetter : letter = 'e' ∨ letter = 'E'

/-- Digits before and behind a point, and perhaps an exponent. Without digits behind it the point
is not written either. -/
structure Numeral where
  whole : List Char
  fraction : List Char
  exponent : Option Numeral.Exponent
  whole_ne_nil : whole ≠ []
  digits : ∀ c ∈ whole ++ fraction, c.isDigit = true

namespace Numeral

variable {n : Numeral} {c : Char} {cs rest : List Char}

def Exponent.chars (x : Exponent) : List Char :=
  x.letter :: (if x.value < 0 then '-' else '+') ::
    (List.replicate x.zeros '0' ++ decimalDigits x.value.natAbs)

/-- A point and the digits behind it. -/
def pointed : List Char → List Char
  | [] => []
  | ds => '.' :: ds

theorem pointed_of_ne_nil {ds : List Char} (h : ds ≠ []) : pointed ds = '.' :: ds := by
  cases ds with
  | nil => exact absurd rfl h
  | cons d ds => rfl

theorem mem_pointed {ds : List Char} (h : c ∈ pointed ds) : c = '.' ∨ c ∈ ds := by
  cases ds with
  | nil => cases h
  | cons d ds => exact List.mem_cons.mp h

def exponentChars (n : Numeral) : List Char :=
  n.exponent.elim [] Exponent.chars

def chars (n : Numeral) : List Char :=
  n.whole ++ (pointed n.fraction ++ n.exponentChars)

theorem exists_chars_cons (n : Numeral) : ∃ c cs, n.chars = c :: cs ∧ c.isDigit = true := by
  obtain ⟨c, cs, hwhole⟩ := List.exists_cons_of_ne_nil n.whole_ne_nil
  exact ⟨c, _, by rw [chars, hwhole, List.cons_append],
    n.digits c (List.mem_append_left _ (hwhole ▸ List.mem_cons_self))⟩

/-- The number that all digits denote together. -/
def coefficient (n : Numeral) : Nat :=
  Nat.ofDigitChars 10 (n.whole ++ n.fraction) 0

/-- The exponent of ten of the last digit. -/
def scale (n : Numeral) : Int :=
  n.exponent.elim 0 Exponent.value - n.fraction.length

/-! ## Digits -/

/-- The digits at the start of a text end where something else begins. -/
theorem span_digits (hcs : ∀ c ∈ cs, c.isDigit = true)
    (hrest : ∀ c ∈ rest.head?, c.isDigit = false) :
    (cs ++ rest).takeWhile Char.isDigit = cs ∧ (cs ++ rest).dropWhile Char.isDigit = rest := by
  have hstop : rest.takeWhile Char.isDigit = [] ∧ rest.dropWhile Char.isDigit = rest := by
    cases rest with
    | nil => exact ⟨rfl, rfl⟩
    | cons c rest =>
      have hc : c.isDigit = false := hrest c rfl
      exact ⟨List.takeWhile_cons_of_neg (by simp [hc]), List.dropWhile_cons_of_neg (by simp [hc])⟩
  rw [List.takeWhile_append_of_pos hcs, List.dropWhile_append_of_pos hcs, hstop.1, hstop.2,
    List.append_nil]
  exact ⟨rfl, rfl⟩

theorem ofDigitChars_zeros (k : Nat) (ds : List Char) :
    Nat.ofDigitChars 10 (List.replicate k '0' ++ ds) 0 = Nat.ofDigitChars 10 ds 0 := by
  rw [Nat.ofDigitChars_append, Nat.ofDigitChars_replicate_zero, Nat.mul_zero]

theorem isDigit_of_mem_zeros {k : Nat} (h : c ∈ List.replicate k '0') : c.isDigit = true := by
  rw [List.eq_of_mem_replicate h]
  rfl

namespace Exponent

variable (x : Exponent)

/-- The digits of an exponent, the zeros at their head among them. -/
theorem digits {c : Char} (h : c ∈ List.replicate x.zeros '0' ++ decimalDigits x.value.natAbs) :
    c.isDigit = true :=
  (List.mem_append.mp h).elim isDigit_of_mem_zeros isDigit_of_mem_decimalDigits

theorem mem_chars {c : Char} (h : c ∈ x.chars) :
    c = 'e' ∨ c = 'E' ∨ c = '-' ∨ c = '+' ∨ c.isDigit = true := by
  rcases List.mem_cons.mp h with rfl | h
  · exact x.isLetter.elim .inl (.inr ∘ .inl)
  rcases List.mem_cons.mp h with rfl | h
  · split <;> simp
  · exact .inr (.inr (.inr (.inr (x.digits h))))

theorem letter_not_digit : x.letter.isDigit = false ∧ x.letter ≠ '.' := by
  rcases x.isLetter with h | h <;> rw [h] <;> decide

theorem splitSign_chars (cs : List Char) :
    Decimal.splitSign ((if x.value < 0 then '-' else '+') :: cs) = (decide (x.value < 0), cs) := by
  by_cases h : x.value < 0 <;> simp [h, Decimal.splitSign]

theorem signed_digits : (if decide (x.value < 0) = true then
      -(Nat.ofDigitChars 10 (List.replicate x.zeros '0' ++ decimalDigits x.value.natAbs) 0 : Int)
    else Nat.ofDigitChars 10 (List.replicate x.zeros '0' ++ decimalDigits x.value.natAbs) 0) =
      x.value := by
  rw [ofDigitChars_zeros, ofDigitChars_decimalDigits]
  split
  next h =>
    have hnegative : x.value < 0 := of_decide_eq_true h
    omega
  next h =>
    have hnegative : ¬ x.value < 0 := fun hlt => h (decide_eq_true hlt)
    omega

theorem readExponent?_chars : Decimal.readExponent? x.chars = some x.value := by
  have hne : List.replicate x.zeros '0' ++ decimalDigits x.value.natAbs ≠ [] :=
    List.append_ne_nil_of_right_ne_nil _ (decimalDigits_ne_nil _)
  have hall :
      (List.replicate x.zeros '0' ++ decimalDigits x.value.natAbs).all Char.isDigit = true :=
    List.all_eq_true.mpr fun c hc => x.digits hc
  rw [chars, Decimal.readExponent?, if_pos x.isLetter, splitSign_chars]
  show (if _ ∧ _ then some (if _ then _ else _) else _) = _
  rw [if_pos ⟨hne, hall⟩, signed_digits]

end Exponent

/-! ## Reading -/

/-- What is behind the digits of a numeral is no digit, and no point either. -/
theorem exponentChars_head (n : Numeral) :
    ∀ c ∈ n.exponentChars.head?, c.isDigit = false ∧ c ≠ '.' := by
  intro c hc
  unfold exponentChars at hc
  cases hx : n.exponent with
  | none =>
    rw [hx] at hc
    cases hc
  | some x =>
    rw [hx] at hc
    obtain rfl : x.letter = c := Option.some.inj hc
    exact x.letter_not_digit

theorem exists_of_mem_exponentChars (n : Numeral) (h : c ∈ n.exponentChars) :
    ∃ x, n.exponent = some x ∧ c ∈ x.chars := by
  unfold exponentChars at h
  cases hx : n.exponent with
  | none =>
    rw [hx] at h
    cases h
  | some x => exact ⟨x, rfl, by rwa [hx] at h⟩

theorem readExponent?_exponentChars (n : Numeral) :
    Decimal.readExponent? n.exponentChars = some (n.exponent.elim 0 Exponent.value) := by
  unfold exponentChars
  cases n.exponent with
  | none => rfl
  | some x => exact x.readExponent?_chars

/-- **A numeral is read as the decimal that it denotes.** -/
theorem readMagnitude?_chars (n : Numeral) (negative : Bool) :
    Decimal.readMagnitude? negative n.chars = some (.finite negative n.coefficient n.scale) := by
  have hwhole : ∀ c ∈ n.whole, c.isDigit = true :=
    fun c hc => n.digits c (List.mem_append_left _ hc)
  have hfraction : ∀ c ∈ n.fraction, c.isDigit = true := fun c hc =>
    n.digits c (List.mem_append_right _ hc)
  have hexponent := fun c hc => (n.exponentChars_head c hc).1
  unfold Decimal.readMagnitude?
  cases hcs : n.fraction with
  | nil =>
    obtain ⟨htake, hdrop⟩ := span_digits hwhole hexponent
    simp only [chars, hcs, pointed, List.nil_append, htake, hdrop]
    have hnopoint : ∀ rest, n.exponentChars ≠ '.' :: rest := fun rest heq =>
      (n.exponentChars_head '.' (by rw [heq]; rfl)).2 rfl
    split
    next heq => exact absurd heq (hnopoint _)
    next =>
      simp [n.whole_ne_nil, readExponent?_exponentChars, coefficient, scale, hcs]
  | cons d ds =>
    rw [hcs] at hfraction
    have hpoint : ∀ c ∈ ('.' :: (d :: ds) ++ n.exponentChars).head?, c.isDigit = false := by
      intro c hc
      obtain rfl : '.' = c := Option.some.inj hc
      rfl
    obtain ⟨htake, hdrop⟩ := span_digits hwhole hpoint
    obtain ⟨htake', hdrop'⟩ := span_digits hfraction hexponent
    simp only [chars, hcs, pointed, htake, hdrop]
    rw [List.cons_append] at htake' hdrop' ⊢
    simp [htake', hdrop', n.whole_ne_nil, readExponent?_exponentChars, coefficient, scale, hcs]

/-! ## Ways to set out a number -/

variable {k place : Nat}

/-- Digits behind a zero, a point and some more zeros. -/
def below (k zeros : Nat) : Numeral where
  whole := ['0']
  fraction := List.replicate zeros '0' ++ decimalDigits k
  exponent := none
  whole_ne_nil := nofun
  digits c hc := by
    rcases List.mem_append.mp hc with h | h
    · rw [List.mem_singleton.mp h]
      rfl
    · exact (List.mem_append.mp h).elim isDigit_of_mem_zeros isDigit_of_mem_decimalDigits

theorem below_chars (k zeros : Nat) : (below k zeros).chars =
    '0' :: '.' :: (List.replicate zeros '0' ++ decimalDigits k) := by
  have hne : List.replicate zeros '0' ++ decimalDigits k ≠ [] :=
    List.append_ne_nil_of_right_ne_nil _ (decimalDigits_ne_nil k)
  simp [chars, below, exponentChars, pointed_of_ne_nil hne]

theorem below_coefficient (k zeros : Nat) : (below k zeros).coefficient = k := by
  show Nat.ofDigitChars 10 (List.replicate 1 '0' ++ _) 0 = k
  rw [ofDigitChars_zeros, below, ofDigitChars_zeros, ofDigitChars_decimalDigits]

theorem below_scale (k zeros : Nat) : (below k zeros).scale = -(zeros + digitCount k : Nat) := by
  simp [below, scale, digitCount]

/-- Digits with a point behind some of them. -/
def split (k place : Nat) (h : 0 < place) (exponent : Option Exponent) : Numeral where
  whole := (decimalDigits k).take place
  fraction := (decimalDigits k).drop place
  exponent := exponent
  whole_ne_nil heq := by
    rcases List.take_eq_nil_iff.mp heq with hzero | hnil
    · exact absurd hzero (Nat.ne_of_gt h)
    · exact decimalDigits_ne_nil k hnil
  digits c hc := by
    rw [List.take_append_drop] at hc
    exact isDigit_of_mem_decimalDigits hc

variable (h : 0 < place) (exponent : Option Exponent)

theorem split_chars : (split k place h exponent).chars = (decimalDigits k).take place ++
    (pointed ((decimalDigits k).drop place) ++ exponent.elim [] Exponent.chars) :=
  rfl

theorem split_chars_of_lt (hlt : place < digitCount k) : (split k place h none).chars =
    (decimalDigits k).take place ++ '.' :: (decimalDigits k).drop place := by
  have hne : (decimalDigits k).drop place ≠ [] := fun hnil =>
    Nat.not_le.mpr hlt (List.drop_eq_nil_iff.mp hnil)
  rw [split_chars, pointed_of_ne_nil hne, Option.elim_none, List.append_nil]

theorem split_coefficient : (split k place h exponent).coefficient = k := by
  rw [coefficient, split, List.take_append_drop, ofDigitChars_decimalDigits]

theorem split_scale : (split k place h exponent).scale =
    exponent.elim 0 Exponent.value - (digitCount k - place : Nat) := by
  rw [scale, split, List.length_drop, digitCount]

/-- Digits with zeros behind them, and one more behind the point. -/
def padded (k zeros : Nat) : Numeral where
  whole := decimalDigits k ++ List.replicate zeros '0'
  fraction := ['0']
  exponent := none
  whole_ne_nil := List.append_ne_nil_of_left_ne_nil (decimalDigits_ne_nil k) _
  digits c hc := by
    rcases List.mem_append.mp hc with h | h
    · exact (List.mem_append.mp h).elim isDigit_of_mem_decimalDigits isDigit_of_mem_zeros
    · rw [List.mem_singleton.mp h]
      rfl

theorem padded_chars (k zeros : Nat) : (padded k zeros).chars =
    decimalDigits k ++ List.replicate zeros '0' ++ ['.', '0'] :=
  rfl

theorem padded_coefficient (k zeros : Nat) :
    (padded k zeros).coefficient = k * 10 ^ (zeros + 1) := by
  have hzeros : (padded k zeros).whole ++ (padded k zeros).fraction =
      decimalDigits k ++ List.replicate (zeros + 1) '0' := by
    rw [List.replicate_succ', ← List.append_assoc]
    rfl
  rw [coefficient, hzeros, Nat.ofDigitChars_append, ofDigitChars_decimalDigits,
    Nat.ofDigitChars_replicate_zero, Nat.mul_comm]

theorem padded_scale (k zeros : Nat) : (padded k zeros).scale = -1 :=
  rfl

/-- A numeral that shows that it is no integer, and has no zero at its head that could be left
out. -/
structure Fractional (n : Numeral) : Prop where
  head : n.whole = ['0'] ∨ ∃ c cs, n.whole = c :: cs ∧ c ≠ '0'
  shown : n.fraction ≠ [] ∨ n.exponent ≠ none

theorem below_fractional (k zeros : Nat) : (below k zeros).Fractional :=
  ⟨.inl rfl, .inl (List.append_ne_nil_of_right_ne_nil _ (decimalDigits_ne_nil k))⟩

theorem padded_fractional (hk : k ≠ 0) (zeros : Nat) : (padded k zeros).Fractional := by
  obtain ⟨c, cs, heq, hne⟩ := decimalDigits_head hk
  have hwhole : (padded k zeros).whole = c :: (cs ++ List.replicate zeros '0') :=
    congrArg (· ++ _) heq
  exact ⟨.inr ⟨c, _, hwhole, hne⟩, .inl (List.cons_ne_nil _ _)⟩

theorem split_fractional (hk : k ≠ 0) (hshown : place < digitCount k ∨ exponent ≠ none) :
    (split k place h exponent).Fractional := by
  obtain ⟨c, cs, heq, hne⟩ := decimalDigits_head hk
  obtain ⟨place, rfl⟩ : ∃ p, place = p + 1 := Nat.exists_eq_succ_of_ne_zero (Nat.ne_of_gt h)
  have hwhole : (split k (place + 1) h exponent).whole = c :: cs.take place :=
    congrArg (List.take (place + 1)) heq
  refine ⟨.inr ⟨c, _, hwhole, hne⟩, ?_⟩
  exact hshown.imp_left fun hlt hnil => Nat.not_le.mpr hlt (List.drop_eq_nil_iff.mp hnil)

end Numeral

/-! ## Texts of numbers -/

open Numeral

/-- The text of a decimal is the numeral of its coefficient and exponent. -/
theorem Decimal.exists_numeral (k : Nat) (e : Int) :
    ∃ n : Numeral, n.chars = magnitudeText k e ∧ n.coefficient = k ∧ n.scale = e := by
  have hpos := digitCount_pos k
  have hlength : (decimalDigits k).length = digitCount k := rfl
  unfold magnitudeText
  simp only [hlength]
  split
  next hzero =>
    refine ⟨.split k (digitCount k) hpos none, ?_, split_coefficient _ _, ?_⟩
    · rw [split_chars, List.take_of_length_le (Nat.le_of_eq hlength),
        List.drop_eq_nil_of_le (Nat.le_of_eq hlength)]
      exact List.append_nil _
    · rw [split_scale, Nat.sub_self, hzero]
      rfl
  next hzero =>
    split
    next hplain =>
      split
      next hplace =>
        refine ⟨.below k (-(e + digitCount k)).toNat, below_chars _ _, below_coefficient _ _, ?_⟩
        rw [below_scale]
        omega
      next hplace =>
        refine ⟨.split k (e + digitCount k).toNat (by omega) none, ?_, split_coefficient _ _, ?_⟩
        · exact split_chars_of_lt _ (by omega)
        · rw [split_scale, Option.elim_none]
          omega
    next hplain =>
      refine ⟨.split k 1 Nat.one_pos (some ⟨'E', 0, e + digitCount k - 1, .inr rfl⟩), ?_,
        split_coefficient _ _, ?_⟩
      · rw [split_chars, ← List.append_assoc]
        generalize decimalDigits k = ds
        -- the point goes behind the first digit if others follow
        cases ds with
        | nil => rfl
        | cons d ds => cases ds <;> rfl
      · rw [split_scale, Option.elim_some]
        show e + digitCount k - 1 - (digitCount k - 1 : Nat) = e
        omega

/-- The text of a floating point number is a numeral of its shortest decimal, but for zeros that
are put behind the digits. -/
theorem Binary64.exists_numeral {k : Nat} (hk : k ≠ 0) (e : Int) :
    ∃ (n : Numeral) (j : Nat),
      n.chars = setOut plainLayout (decimalDigits k) ((decimalDigits k).length + e) ∧
        n.coefficient = k * 10 ^ j ∧ n.scale = e - j ∧ n.Fractional := by
  have hpos := digitCount_pos k
  have hlength : (decimalDigits k).length = digitCount k := rfl
  unfold setOut
  simp only [hlength]
  split
  next =>
    split
    next hplace =>
      refine ⟨.below k (-(digitCount k + e)).toNat, 0, below_chars _ _, ?_, ?_,
        below_fractional _ _⟩
      · rw [below_coefficient, Nat.pow_zero, Nat.mul_one]
      · rw [below_scale]
        omega
    next hplace =>
      split
      next hwhole =>
        refine ⟨.padded k ((digitCount k + e).toNat - digitCount k),
          (digitCount k + e).toNat - digitCount k + 1, padded_chars _ _, padded_coefficient _ _, ?_,
          padded_fractional hk _⟩
        rw [padded_scale]
        omega
      next hwhole =>
        refine ⟨.split k (digitCount k + e).toNat (by omega) none, 0, ?_, ?_, ?_,
          split_fractional _ _ hk (.inl (by omega))⟩
        · exact split_chars_of_lt _ (by omega)
        · rw [split_coefficient, Nat.pow_zero, Nat.mul_one]
        · rw [split_scale, Option.elim_none]
          omega
  next =>
    refine ⟨.split k 1 Nat.one_pos
      (some ⟨'e', plainLayout.exponentDigits - (decimalDigits (digitCount k + e - 1).natAbs).length,
        digitCount k + e - 1, .inl rfl⟩), 0, ?_, ?_, ?_,
      split_fractional _ _ hk (.inr (Option.some_ne_none _))⟩
    · rw [split_chars, ← List.append_assoc]
      generalize decimalDigits k = ds
      cases ds with
      | nil => rfl
      | cons d ds => cases ds <;> rfl
    · rw [split_coefficient, Nat.pow_zero, Nat.mul_one]
    · rw [split_scale, Option.elim_some]
      show digitCount k + e - 1 - (digitCount k - 1 : Nat) = e - (0 : Nat)
      omega

end DocTable
