import DocTable.Proofs.Number.Floats

/-! Rounding to the floating point numbers. A count of units is rounded to one whose mantissa has at
most fifty-three bits; this keeps the order, is off by little, and tells which floating point number
a count is read as. -/

namespace DocTable

variable {a b n d : Nat}

theorem roundHalfEven_mono (h : a ≤ b) (d : Nat) : roundHalfEven a d ≤ roundHalfEven b d := by
  have hdiv : a / d ≤ b / d := Nat.div_le_div_right h
  by_cases heq : a / d = b / d
  · -- the quotients are the same, so the remainders decide
    have hmod : a % d ≤ b % d := by
      have ha := Nat.div_add_mod a d
      have hb := Nat.div_add_mod b d
      rw [heq] at ha
      omega
    simp only [roundHalfEven, heq]
    grind
  · calc roundHalfEven a d
      _ ≤ a / d + 1 := roundHalfEven_le a d
      _ ≤ b / d := by omega
      _ ≤ roundHalfEven b d := le_roundHalfEven b d

/-- A number less than half a step above a multiple is rounded to it. -/
theorem roundHalfEven_add {r : Nat} (h : 2 * r < d) (k : Nat) :
    roundHalfEven (k * d + r) d = k := by
  have hlt : r < d := by omega
  have hdiv : (k * d + r) / d = k := by
    rw [Nat.mul_comm, Nat.mul_add_div (by omega), Nat.div_eq_of_lt hlt, Nat.add_zero]
  have hmod : (k * d + r) % d = r := by
    rw [Nat.mul_comm, Nat.mul_add_mod, Nat.mod_eq_of_lt hlt]
  simp only [roundHalfEven, hdiv, hmod, if_pos h]

/-- A number not more than half a step below a multiple is rounded to it, if the multiple is an even
one or half a step is not reached. -/
theorem roundHalfEven_sub {k r : Nat} (hk : 0 < k) (hr : 0 < r) (h : 2 * r ≤ d)
    (heven : 2 * r < d ∨ k % 2 = 0) : roundHalfEven (k * d - r) d = k := by
  obtain ⟨low, rfl⟩ : ∃ low, k = low + 1 := Nat.exists_eq_succ_of_ne_zero (by omega)
  have hlt : d - r < d := by omega
  have hsplit : (low + 1) * d - r = low * d + (d - r) := by
    rw [Nat.succ_mul]
    omega
  have hdiv : (low * d + (d - r)) / d = low := by
    rw [Nat.mul_comm, Nat.mul_add_div (by omega), Nat.div_eq_of_lt hlt, Nat.add_zero]
  have hmod : (low * d + (d - r)) % d = d - r := by
    rw [Nat.mul_comm, Nat.mul_add_mod, Nat.mod_eq_of_lt hlt]
  simp only [roundHalfEven, hsplit, hdiv, hmod]
  grind

/-- Rounding is off by half a step at most. -/
theorem roundHalfEven_dist (n : Nat) (hd : 0 < d) :
    2 * (n - roundHalfEven n d * d) ≤ d ∧ 2 * (roundHalfEven n d * d - n) ≤ d := by
  have hdivMod := Nat.div_add_mod' n d
  have hmod : n % d < d := Nat.mod_lt n hd
  have hnext : (n / d + 1) * d = n / d * d + d := Nat.succ_mul ..
  unfold roundHalfEven
  simp only
  split
  · omega
  · split
    · omega
    · split <;> omega

namespace Binary64.Magnitude

variable {m : Magnitude} {mantissa shift : Nat}

/-- How many bits of a count of units are rounded off. -/
def excess (n : Nat) : Nat :=
  n.log2 - 52

/-- The mantissa of a count of units, rounded. -/
def roundedMantissa (n : Nat) : Nat :=
  roundHalfEven n (2 ^ excess n)

/-- A count of units, rounded to the nearest one that is that of a floating point number. -/
def rounded (n : Nat) : Nat :=
  roundedMantissa n * 2 ^ excess n

theorem roundedMantissa_of_excess (h : excess n = 0) : roundedMantissa n = n := by
  rw [roundedMantissa, h]
  simpa using roundHalfEven_mul n Nat.one_pos

theorem lt_pow_excess (n : Nat) : n < 2 ^ 53 * 2 ^ excess n := by
  have hlog : n < 2 ^ (n.log2 + 1) := Nat.lt_log2_self
  rw [← Nat.pow_add]
  exact Nat.lt_of_lt_of_le hlog (Nat.pow_le_pow_right (by decide) (by rw [excess]; omega))

theorem pow_excess_le (h : excess n ≠ 0) : 2 ^ 52 * 2 ^ excess n ≤ n := by
  have hne : n ≠ 0 := by
    rintro rfl
    exact h rfl
  rw [← Nat.pow_add]
  refine Nat.le_trans (Nat.pow_le_pow_right (by decide) ?_) (Nat.log2_self_le hne)
  rw [excess] at h ⊢
  omega

theorem roundedMantissa_le (n : Nat) : roundedMantissa n ≤ 2 ^ 53 := by
  have hdiv : n / 2 ^ excess n < 2 ^ 53 :=
    (Nat.div_lt_iff_lt_mul (Nat.two_pow_pos _)).mpr (lt_pow_excess n)
  exact Nat.le_trans (roundHalfEven_le ..) hdiv

theorem le_roundedMantissa (h : excess n ≠ 0) : 2 ^ 52 ≤ roundedMantissa n := by
  have hdiv : 2 ^ 52 ≤ n / 2 ^ excess n :=
    (Nat.le_div_iff_mul_le (Nat.two_pow_pos _)).mpr (pow_excess_le h)
  exact Nat.le_trans hdiv (le_roundHalfEven ..)

theorem excess_eq (hlow : 2 ^ 52 * 2 ^ shift ≤ n) (hhigh : n < 2 ^ 53 * 2 ^ shift) :
    excess n = shift := by
  have hlog : n.log2 = 52 + shift := by
    refine (Nat.log2_eq_iff ?_).mpr ⟨?_, ?_⟩
    · exact Nat.ne_of_gt (Nat.lt_of_lt_of_le (Nat.mul_pos (by decide) (Nat.two_pow_pos _)) hlow)
    · rw [Nat.pow_add]
      exact hlow
    · rw [Nat.add_right_comm, Nat.pow_add]
      exact hhigh
  rw [excess, hlog]
  omega

/-- **Rounding keeps the order.** -/
theorem rounded_mono (h : a ≤ b) : rounded a ≤ rounded b := by
  have hexcess : excess a ≤ excess b := by
    by_cases ha : a = 0
    · rw [ha]
      exact Nat.zero_le _
    · have hlog : a.log2 ≤ b.log2 :=
        (Nat.le_log2 (by omega)).mpr (Nat.le_trans (Nat.log2_self_le ha) h)
      exact Nat.sub_le_sub_right hlog 52
  rcases Nat.eq_or_lt_of_le hexcess with heq | hlt
  · rw [rounded, rounded, roundedMantissa, roundedMantissa, heq]
    exact Nat.mul_le_mul_right _ (roundHalfEven_mono h _)
  · calc rounded a
      _ ≤ 2 ^ 53 * 2 ^ excess a := Nat.mul_le_mul_right _ (roundedMantissa_le a)
      _ = 2 ^ 52 * 2 ^ (excess a + 1) := by rw [Nat.pow_succ]; omega
      _ ≤ 2 ^ 52 * 2 ^ excess b := Nat.mul_le_mul_left _ (Nat.pow_le_pow_right (by decide) hlt)
      _ ≤ rounded b := Nat.mul_le_mul_right _ (le_roundedMantissa (by omega))

/-- **Rounding is off by one part in `2 ^ 53` at most.** -/
theorem rounded_dist (n : Nat) :
    (n - rounded n) * 2 ^ 53 ≤ n ∧ (rounded n - n) * 2 ^ 53 ≤ n := by
  by_cases h : excess n = 0
  · have hself : rounded n = n := by
      rw [rounded, roundedMantissa_of_excess h, h, Nat.pow_zero, Nat.mul_one]
    rw [hself, Nat.sub_self, Nat.zero_mul]
    exact ⟨Nat.zero_le n, Nat.zero_le n⟩
  · have hdist := roundHalfEven_dist n (Nat.two_pow_pos (excess n))
    have hstep := pow_excess_le h
    change 2 * (n - rounded n) ≤ _ ∧ 2 * (rounded n - n) ≤ _ at hdist
    omega

/-- Mantissa and shift, in the form in which the top bit is set or there is no shift, are those of
the size with as many units. -/
theorem ofParts?_eq_some (hlt : mantissa < 2 ^ 53) (hnormal : shift = 0 ∨ 2 ^ 52 ≤ mantissa) :
    ofParts? mantissa shift = some m ↔ mantissa * 2 ^ shift = m.units := by
  constructor
  · intro h
    unfold ofParts? at h
    split at h
    next => exact Option.some.inj h ▸ rfl
    next => cases h
  · intro h
    have hshift : m.shift = shift := by rw [← m.log2_units, ← h, log2_parts hlt hnormal]
    have hunits : mantissa * 2 ^ shift = m.mantissa * 2 ^ m.shift := h
    rw [hshift] at hunits
    have hmantissa : mantissa = m.mantissa := Nat.mul_right_cancel (Nat.two_pow_pos shift) hunits
    rw [hmantissa, ← hshift]
    exact ofParts?_parts m

/-- A rounded mantissa may have got one more bit, and then is a power of two. -/
theorem ofMantissa?_eq_some (hle : mantissa ≤ 2 ^ 53) (hnormal : shift = 0 ∨ 2 ^ 52 ≤ mantissa) :
    ofMantissa? shift mantissa = some m ↔ mantissa * 2 ^ shift = m.units := by
  unfold ofMantissa?
  split
  next htop =>
    have hpow : mantissa * 2 ^ shift = Nat.pow 2 52 * 2 ^ (shift + 1) := by
      rw [htop, Nat.pow_succ, Nat.pow_eq, Nat.pow_eq]
      omega
    rw [hpow]
    exact ofParts?_eq_some (by decide) (.inr (Nat.le_refl _))
  next htop => exact ofParts?_eq_some (Nat.lt_of_le_of_ne hle htop) hnormal

/-- **What a count of units is read as** is the floating point number to which it is rounded. -/
theorem ofUnits?_eq_some : ofUnits? n 1 = some m ↔ rounded n = m.units := by
  have hnormal : excess n = 0 ∨ 2 ^ 52 ≤ roundedMantissa n :=
    Decidable.or_iff_not_imp_left.mpr le_roundedMantissa
  rw [rounded, ← ofMantissa?_eq_some (roundedMantissa_le n) hnormal, ofUnits?_eq, Nat.div_one,
    Nat.one_mul]
  rfl

/-! ## Numbers next to a size -/

theorem rounded_units (m : Magnitude) : rounded m.units = m.units :=
  ofUnits?_eq_some.mp m.ofUnits?_units

theorem rounded_eq (hexcess : excess n = shift) (hround : roundHalfEven n (2 ^ shift) = mantissa) :
    rounded n = mantissa * 2 ^ shift := by
  rw [rounded, roundedMantissa, hexcess, hround]

theorem rounded_above {r : Nat} (hlow : 2 ^ 52 ≤ mantissa) (hhigh : mantissa < 2 ^ 53)
    (h : 2 * r < 2 ^ shift) : rounded (mantissa * 2 ^ shift + r) = mantissa * 2 ^ shift := by
  have hlowUnits := Nat.mul_le_mul_right (2 ^ shift) hlow
  have hhighUnits : (mantissa + 1) * 2 ^ shift ≤ 2 ^ 53 * 2 ^ shift := Nat.mul_le_mul_right _ hhigh
  rw [Nat.succ_mul] at hhighUnits
  exact rounded_eq (excess_eq (by omega) (by omega)) (roundHalfEven_add h mantissa)

theorem rounded_below {r : Nat} (hlow : 2 ^ 52 ≤ mantissa) (hhigh : mantissa < 2 ^ 53) (hr : 0 < r)
    (h : r * 2 ^ 54 ≤ mantissa * 2 ^ shift) :
    rounded (mantissa * 2 ^ shift - r) = mantissa * 2 ^ shift := by
  have hhighUnits := Nat.mul_lt_mul_of_pos_right hhigh (Nat.two_pow_pos shift)
  rcases Nat.eq_or_lt_of_le hlow with rfl | hlow
  · -- below a power of two the numbers lie closer together
    obtain ⟨finer, rfl⟩ : ∃ finer, shift = finer + 1 :=
      Nat.exists_eq_succ_of_ne_zero fun hzero => by
        rw [hzero] at h
        omega
    have hpow : 2 ^ 52 * 2 ^ (finer + 1) = 2 ^ 53 * 2 ^ finer := by
      rw [Nat.pow_succ]
      omega
    rw [hpow] at h ⊢
    refine rounded_eq (excess_eq (by omega) (by omega)) ?_
    exact roundHalfEven_sub (by decide) hr (by omega) (.inr rfl)
  · have hlowUnits : (2 ^ 52 + 1) * 2 ^ shift ≤ mantissa * 2 ^ shift := Nat.mul_le_mul_right _ hlow
    rw [Nat.succ_mul] at hlowUnits
    refine rounded_eq (excess_eq (by omega) (by omega)) ?_
    exact roundHalfEven_sub (by omega) hr (by omega) (.inl (by omega))

/-- **A count of units next to that of a size is rounded to it.** -/
theorem rounded_near {v r : Nat} (hr : r * 2 ^ 54 ≤ m.units)
    (hv : v = m.units + r ∨ v = m.units - r) : rounded v = m.units := by
  have hhigh : m.mantissa < 2 ^ 53 := m.fits.1
  by_cases hzero : r = 0
  · rw [show v = m.units by omega, rounded_units]
  · have hstep := Nat.lt_of_le_of_lt hr (units_lt (Nat.le_refl m.shift))
    rcases m.fits.2.1 with hshift | hlow
    · -- the numbers are one unit apart
      rw [hshift] at hstep
      omega
    · rcases hv with rfl | rfl
      · exact rounded_above hlow hhigh (by omega)
      · exact rounded_below hlow hhigh (Nat.pos_of_ne_zero hzero) hr

end Binary64.Magnitude

end DocTable
