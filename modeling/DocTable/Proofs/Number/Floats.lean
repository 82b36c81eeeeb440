import DocTable.Proofs.Number.Numerals

/-! Floating point numbers and the decimals that show them. What a decimal is read as does not
depend on how many zeros its coefficient ends with; so the shortest decimal of a number is read as
the number, whether it was found on a grid or is its exact value. -/

namespace DocTable

variable {n d k : Nat}

/-- Rounding a quotient does not depend on how it is expanded. -/
theorem roundHalfEven_mul_right (n d : Nat) (hk : 0 < k) :
    roundHalfEven (n * k) (d * k) = roundHalfEven n d := by
  have htwice : 2 * (n * k % (d * k)) = 2 * (n % d) * k := by
    rw [Nat.mul_mod_mul_right, Nat.mul_assoc]
  simp only [roundHalfEven, Nat.mul_div_mul_right n d hk, htwice, Nat.mul_lt_mul_right hk]

theorem decimalDigits_mul_ten (h : n ≠ 0) : decimalDigits (n * 10) = decimalDigits n ++ ['0'] := by
  rw [decimalDigits, Nat.toDigits_of_base_le (by decide) (by omega),
    Nat.mul_div_cancel n (by decide),
    Nat.mul_mod_left]
  rfl

theorem decimalDigits_mul_pow (h : n ≠ 0) (k : Nat) :
    decimalDigits (n * 10 ^ k) = decimalDigits n ++ List.replicate k '0' := by
  induction k with
  | zero => simp
  | succ k ih =>
    have hne : n * 10 ^ k ≠ 0 := Nat.mul_ne_zero h (by simp)
    rw [Nat.pow_succ, ← Nat.mul_assoc, decimalDigits_mul_ten hne, ih,
      List.append_assoc, ← List.replicate_succ']

theorem digitCount_mul_pow (h : n ≠ 0) (k : Nat) : digitCount (n * 10 ^ k) = digitCount n + k := by
  rw [digitCount, decimalDigits_mul_pow h, List.length_append, List.length_replicate, digitCount]

/-- The zeros that are stripped off, put on again. -/
theorem stripZeros_mul (limit n : Nat) :
    (stripZeros limit n).1 * 10 ^ (stripZeros limit n).2 = n := by
  induction limit generalizing n with
  | zero => simp [stripZeros]
  | succ limit ih =>
    rw [stripZeros]
    split
    next h =>
      show (stripZeros limit (n / 10)).1 * 10 ^ ((stripZeros limit (n / 10)).2 + 1) = n
      rw [Nat.pow_succ, ← Nat.mul_assoc, ih]
      exact Nat.div_mul_cancel (Nat.dvd_of_mod_eq_zero h.2)
    next => simp

namespace Binary64

variable {m : Magnitude} {negative : Bool} {coefficient : Nat} {exponent : Int}

/-- The size with a rounded mantissa, which may have got one more bit. -/
def Magnitude.ofMantissa? (shift mantissa : Nat) : Option Magnitude :=
  if mantissa = Nat.pow 2 53 then ofParts? (Nat.pow 2 52) (shift + 1) else ofParts? mantissa shift

theorem Magnitude.ofUnits?_eq (n d : Nat) : ofUnits? n d =
    ofMantissa? ((n / d).log2 - 52) (roundHalfEven n (d * Nat.pow 2 ((n / d).log2 - 52))) := rfl

theorem Magnitude.ofUnits?_mul_right (n d : Nat) (hk : 0 < k) :
    ofUnits? (n * k) (d * k) = ofUnits? n d := by
  have hround : ∀ power, roundHalfEven (n * k) (d * k * power) = roundHalfEven n (d * power) := by
    intro power
    rw [Nat.mul_right_comm, roundHalfEven_mul_right n _ hk]
  simp only [ofUnits?_eq, Nat.mul_div_mul_right n d hk, hround]

theorem ofUnits_eq (negative : Bool) (n d : Nat) : ofUnits negative n d =
    (Magnitude.ofUnits? n d).elim (.infinite negative) (.finite negative) := by
  unfold ofUnits
  cases Magnitude.ofUnits? n d <;> rfl

theorem ofUnits_mul_right (negative : Bool) (n d : Nat) (hk : 0 < k) :
    ofUnits negative (n * k) (d * k) = ofUnits negative n d := by
  rw [ofUnits_eq, ofUnits_eq, Magnitude.ofUnits?_mul_right n d hk]

theorem log2_mul_pow {mantissa : Nat} (shift : Nat) (hlow : 2 ^ 52 ≤ mantissa)
    (hhigh : mantissa < 2 ^ 53) : (mantissa * 2 ^ shift).log2 = 52 + shift := by
  have hpos : 0 < mantissa := Nat.lt_of_lt_of_le (Nat.two_pow_pos 52) hlow
  refine (Nat.log2_eq_iff (Nat.ne_of_gt (Nat.mul_pos hpos (Nat.two_pow_pos shift)))).mpr ⟨?_, ?_⟩
  · rw [Nat.pow_add]
    exact Nat.mul_le_mul_right _ hlow
  · rw [Nat.add_right_comm, Nat.pow_add]
    exact Nat.mul_lt_mul_of_pos_right hhigh (Nat.two_pow_pos shift)

/-- The shift is seen from the length of what is shifted. -/
theorem log2_parts {mantissa shift : Nat} (hlt : mantissa < 2 ^ 53)
    (hnormal : shift = 0 ∨ 2 ^ 52 ≤ mantissa) : (mantissa * 2 ^ shift).log2 - 52 = shift := by
  rcases hnormal with hshift | hnormal
  · -- the mantissa has at most its top bit set
    rw [hshift, Nat.pow_zero, Nat.mul_one]
    by_cases hzero : mantissa = 0
    · rw [hzero]
      rfl
    · have hlog : mantissa.log2 < 53 := (Nat.log2_lt hzero).mpr hlt
      omega
  · have hlog := log2_mul_pow shift hnormal hlt
    omega

theorem Magnitude.log2_units (m : Magnitude) : m.units.log2 - 52 = m.shift :=
  log2_parts m.fits.1 m.fits.2.1

/-- A size is the nearest to itself. -/
theorem Magnitude.ofUnits?_units (m : Magnitude) : ofUnits? m.units 1 = some m := by
  have hround : roundHalfEven m.units (1 * Nat.pow 2 m.shift) = m.mantissa := by
    rw [Nat.one_mul, units]
    exact roundHalfEven_mul m.mantissa (Nat.two_pow_pos m.shift)
  rw [ofUnits?_eq, Nat.div_one, log2_units, hround, ofMantissa?, if_neg (Nat.ne_of_lt m.fits.1),
    ofParts?_parts]

/-! ## Decimals -/

theorem ofScientific_zero (negative : Bool) (exponent : Int) :
    ofScientific negative 0 exponent = .finite negative .zero := by
  simp [ofScientific]

/-- What a decimal is read as, without telling apart the signs of its exponent. -/
theorem ofScientific_eq (negative : Bool) (h : coefficient ≠ 0) (exponent : Int) :
    ofScientific negative coefficient exponent =
      if (digitCount coefficient : Int) + exponent < -330 then .finite negative .zero
      else if 400 < (digitCount coefficient : Int) + exponent then .infinite negative
      else ofUnits negative (coefficient * 10 ^ exponent.toNat * 2 ^ unitExponent)
        (10 ^ (-exponent).toNat) := by
  have hzero : (coefficient = 0 ∨ (digitCount coefficient : Int) + exponent < -330) ↔
      (digitCount coefficient : Int) + exponent < -330 := or_iff_right h
  simp only [ofScientific, hzero, Nat.pow_eq]
  by_cases hexponent : 0 ≤ exponent
  · have hden : (-exponent).toNat = 0 := by omega
    rw [if_pos hexponent, hden, Nat.pow_zero]
  · have hnum : exponent.toNat = 0 := by omega
    rw [if_neg hexponent, hnum, Nat.pow_zero, Nat.mul_one]

/-- What a decimal is read as does not depend on the zeros at its end. -/
theorem ofScientific_mul_pow (negative : Bool) (h : coefficient ≠ 0) (exponent : Int) (k : Nat) :
    ofScientific negative (coefficient * 10 ^ k) (exponent - k) =
      ofScientific negative coefficient exponent := by
  have hne : coefficient * 10 ^ k ≠ 0 := Nat.mul_ne_zero h (Nat.ne_of_gt (Nat.pow_pos (by decide)))
  have htop : (digitCount (coefficient * 10 ^ k) : Int) + (exponent - k) =
      digitCount coefficient + exponent := by
    rw [digitCount_mul_pow h]
    omega
  -- both quotients are expanded by the powers of ten that do not cancel
  obtain ⟨j, hnum, hden⟩ : ∃ j, k + (exponent - k).toNat = exponent.toNat + j ∧
      (-(exponent - k)).toNat = (-exponent).toNat + j :=
    ⟨(-(exponent - k)).toNat - (-exponent).toNat, by omega, by omega⟩
  have hunits : coefficient * 10 ^ k * 10 ^ (exponent - k).toNat * 2 ^ unitExponent =
      coefficient * 10 ^ exponent.toNat * 2 ^ unitExponent * 10 ^ j := by
    rw [Nat.mul_assoc coefficient, ← Nat.pow_add, hnum, Nat.pow_add, ← Nat.mul_assoc,
      Nat.mul_right_comm]
  rw [ofScientific_eq negative hne, ofScientific_eq negative h, htop, hunits, hden, Nat.pow_add,
    ofUnits_mul_right negative _ _ (Nat.pow_pos (by decide))]

/-- What a decimal is read as with a sign is what it is read as without one. -/
theorem ofScientific_of_unsigned (h : ofScientific false coefficient exponent = .finite false m)
    (negative : Bool) : ofScientific negative coefficient exponent = .finite negative m := by
  by_cases hzero : coefficient = 0
  · rw [hzero, ofScientific_zero] at h ⊢
    rw [(finite.inj h).2]
  · rw [ofScientific_eq _ hzero] at h ⊢
    split at h
    next hsmall => rw [if_pos hsmall, (finite.inj h).2]
    next hsmall =>
      rw [if_neg hsmall]
      split at h
      next => cases h
      next hlarge =>
        rw [if_neg hlarge, ofUnits_eq] at *
        generalize Magnitude.ofUnits? _ _ = size at h ⊢
        cases size with
        | none => cases h
        | some m' => rw [Option.elim_some, (finite.inj h).2]

namespace Magnitude

theorem eq_zero_of_units (h : m.units = 0) : m = zero := by
  obtain ⟨mantissa, shift, hfits⟩ := m
  have hmantissa : mantissa = 0 :=
    (Nat.mul_eq_zero.mp h).resolve_right (Nat.ne_of_gt (Nat.two_pow_pos shift))
  subst hmantissa
  have hshift : shift = 0 := hfits.2.1.resolve_right (by decide)
  subst hshift
  rfl

theorem units_lt {top : Nat} (h : m.shift ≤ top) : m.units < 2 ^ 53 * 2 ^ top :=
  Nat.mul_lt_mul_of_lt_of_le m.fits.1 (Nat.pow_le_pow_right (by decide) h) (Nat.two_pow_pos top)

/-- The exact value of a size, which has a place for each digit of the unit. -/
theorem ofScientific_exact (h : m.units ≠ 0) (negative : Bool) :
    ofScientific negative (m.units * Nat.pow 5 unitExponent) (-(unitExponent : Int)) =
      .finite negative m := by
  have hne : m.units * 5 ^ unitExponent ≠ 0 :=
    Nat.mul_ne_zero h (Nat.ne_of_gt (Nat.pow_pos (by decide)))
  have hleast : 744 ≤ digitCount (m.units * 5 ^ unitExponent) := by
    have hpow : 10 ^ 743 ≤ 5 ^ unitExponent := by decide +kernel
    have hle : 10 ^ 743 ≤ m.units * 5 ^ unitExponent :=
      Nat.le_trans hpow (Nat.le_mul_of_pos_left _ (Nat.pos_of_ne_zero h))
    refine Nat.lt_of_not_le fun hcount => ?_
    exact Nat.not_lt.mpr hle ((digitCount_le_iff (by decide)).mp hcount)
  have hgreatest : digitCount (m.units * 5 ^ unitExponent) ≤ 1474 := by
    have hunits : m.units < 2 ^ 53 * 2 ^ 2045 := units_lt m.fits.2.2
    have hpow : 2 ^ 53 * 2 ^ 2045 * 5 ^ unitExponent ≤ 10 ^ 1474 := by decide +kernel
    refine (digitCount_le_iff (by decide)).mpr (Nat.lt_of_lt_of_le ?_ hpow)
    exact Nat.mul_lt_mul_of_pos_right hunits (Nat.pow_pos (by decide))
  have hbounds : ¬ (digitCount (m.units * 5 ^ unitExponent) : Int) + -(unitExponent : Int) < -330 ∧
      ¬ 400 < (digitCount (m.units * 5 ^ unitExponent) : Int) + -(unitExponent : Int) := by
    rw [unitExponent] at *
    omega
  have hnum : (-(unitExponent : Int)).toNat = 0 := by omega
  have hten : m.units * 5 ^ unitExponent * 10 ^ 0 * 2 ^ unitExponent =
      m.units * 10 ^ unitExponent := by
    rw [Nat.pow_zero, Nat.mul_one, Nat.mul_assoc, ← Nat.mul_pow]
  rw [Nat.pow_eq, ofScientific_eq negative hne, if_neg hbounds.1, if_neg hbounds.2, hnum, hten,
    Int.neg_neg, Int.toNat_natCast]
  have hpos : 0 < 10 ^ unitExponent := Nat.pow_pos (by decide)
  have hexpand := ofUnits_mul_right negative m.units 1 hpos
  rw [Nat.one_mul] at hexpand
  rw [hexpand, ofUnits_eq, ofUnits?_units, Option.elim_some]

/-- A decimal that is read as the size, with either sign. -/
def ReadFrom (m : Magnitude) (parts : Nat × Int) : Prop :=
  ∀ negative, ofScientific negative parts.1 parts.2 = .finite negative m

theorem readFrom_of_readsBack (h : m.readsBack coefficient exponent = true) :
    m.ReadFrom (coefficient, exponent) :=
  ofScientific_of_unsigned (of_decide_eq_true h)

theorem readsBack_of_onGrid? (h : m.onGrid? exponent = some coefficient) :
    m.readsBack coefficient exponent = true := by
  have hread : ∀ near far, (if m.readsBack near exponent = true then some near
      else if m.readsBack far exponent = true then some far else none) = some coefficient →
      m.readsBack coefficient exponent = true := by
    intro near far h
    split at h
    next hnear => exact Option.some.inj h ▸ hnear
    next =>
      split at h
      next hfar => exact Option.some.inj h ▸ hfar
      next => cases h
  exact hread _ _ h

theorem readFrom_shortestFrom (h : m.units ≠ 0) (leading : Int) (tries digits : Nat) :
    m.ReadFrom (m.shortestFrom leading tries digits) := by
  induction tries generalizing digits with
  | zero => exact ofScientific_exact h
  | succ tries ih =>
    rw [shortestFrom]
    cases hgrid : m.onGrid? (leading - digits + 1) with
    | none => exact ih (digits + 1)
    | some coefficient => exact readFrom_of_readsBack (readsBack_of_onGrid? hgrid)

theorem ReadFrom.coefficient_ne_zero {parts : Nat × Int} (h : m.ReadFrom parts)
    (hm : m.units ≠ 0) : parts.1 ≠ 0 := by
  intro hzero
  have hread := h false
  rw [hzero, ofScientific_zero] at hread
  exact hm ((finite.inj hread).2 ▸ units_zero)

/-- **The shortest decimal of a size is read as the size.** -/
theorem readFrom_shortest (m : Magnitude) : m.ReadFrom m.shortest := by
  unfold shortest
  split
  next hzero =>
    intro negative
    rw [ofScientific_zero, eq_zero_of_units hzero]
  next hunits =>
    have hread := readFrom_shortestFrom hunits (leadingExponent m.units) 17 1
    generalize m.shortestFrom (leadingExponent m.units) 17 1 = parts at hread ⊢
    obtain ⟨coefficient, exponent⟩ := parts
    have hzeros := stripZeros_mul 20 coefficient
    have hne : (stripZeros 20 coefficient).1 ≠ 0 := fun hzero =>
      hread.coefficient_ne_zero hunits (by rw [← hzeros, hzero, Nat.zero_mul])
    intro negative
    show ofScientific negative (stripZeros 20 coefficient).1
      (exponent + (stripZeros 20 coefficient).2) = _
    have hshift := ofScientific_mul_pow negative hne (exponent + (stripZeros 20 coefficient).2)
      (stripZeros 20 coefficient).2
    rw [hzeros, Int.add_sub_cancel] at hshift
    rw [← hshift]
    exact hread negative

end Magnitude

/-! ## Texts -/

/-- **The text of a finite number** is a numeral of its shortest decimal, with its sign and with
zeros put behind the digits. -/
theorem exists_numeral_of_shortest (m : Magnitude) : ∃ (n : Numeral) (j : Nat), n.Fractional ∧
    (∀ negative, toText (.finite negative m) =
      String.ofList (if negative then '-' :: n.chars else n.chars)) ∧
    n.coefficient = m.shortest.1 * 10 ^ j ∧ n.scale = m.shortest.2 - j := by
  by_cases hzero : m.units = 0
  · obtain rfl := Magnitude.eq_zero_of_units hzero
    exact ⟨.padded 0 0, 1, ⟨.inl rfl, .inl nofun⟩, fun _ => rfl, rfl, rfl⟩
  · have hne := m.readFrom_shortest.coefficient_ne_zero hzero
    obtain ⟨n, j, hchars, hcoefficient, hscale, hfractional⟩ := exists_numeral hne m.shortest.2
    refine ⟨n, j, hfractional, fun negative => ?_, hcoefficient, hscale⟩
    rw [hchars]
    rfl

/-- The text of a finite number is a numeral, with its sign, that is read as the number. -/
theorem exists_numeral_of_size (m : Magnitude) : ∃ n : Numeral, n.Fractional ∧
    (∀ negative, toText (.finite negative m) =
      String.ofList (if negative then '-' :: n.chars else n.chars)) ∧
    ∀ negative, ofScientific negative n.coefficient n.scale = .finite negative m := by
  obtain ⟨n, j, hfractional, htext, hcoefficient, hscale⟩ := exists_numeral_of_shortest m
  refine ⟨n, hfractional, htext, fun negative => ?_⟩
  have hread := m.readFrom_shortest negative
  rw [hcoefficient, hscale]
  by_cases hzero : m.shortest.1 = 0
  · rw [hzero, ofScientific_zero] at hread
    rw [hzero, Nat.zero_mul, ofScientific_zero, hread]
  · rw [ofScientific_mul_pow negative hzero, hread]

end Binary64

end DocTable
