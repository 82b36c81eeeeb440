import DocTable.Proofs.Number.Decimals
import DocTable.Proofs.Number.Rounding

/-! Whole numbers as floating point numbers: which of them are read as a size, and which one the
shortest decimal of the size is. -/

namespace DocTable

namespace Binary64.Magnitude

variable {m : Magnitude} {u v w whole coefficient place : Nat}

/-- A whole number that is read as the size. -/
def Reads (m : Magnitude) (v : Nat) : Prop :=
  ofUnits? (v * 2 ^ unitExponent) 1 = some m

theorem reads_iff : m.Reads v ↔ rounded (v * 2 ^ unitExponent) = m.units :=
  ofUnits?_eq_some

theorem units_injective {m' : Magnitude} (h : m.units = m'.units) : m = m' := by
  have hself := m.ofUnits?_units
  rw [h, m'.ofUnits?_units] at hself
  exact (Option.some.inj hself).symm

theorem Reads.unique {m' : Magnitude} (h : m.Reads v) (h' : m'.Reads v) : m = m' := by
  rw [Reads] at h h'
  exact Option.some.inj (h.symm.trans h')

/-- The whole numbers that are read as a size have no gap. -/
theorem Reads.between (hv : m.Reads v) (hw : m.Reads w) (hvu : v ≤ u) (huw : u ≤ w) :
    m.Reads u := by
  rw [reads_iff] at *
  have hlow := rounded_mono (Nat.mul_le_mul_right (2 ^ unitExponent) hvu)
  have hhigh := rounded_mono (Nat.mul_le_mul_right (2 ^ unitExponent) huw)
  omega

theorem Reads.lt (h : m.Reads v) : v < 10 ^ 400 := by
  have hunits := units_lt m.fits.2.2
  have hdist := (rounded_dist (v * 2 ^ unitExponent)).1
  rw [reads_iff.mp h] at hdist
  have hlt : v * 2 ^ unitExponent < 2 * (2 ^ 53 * 2 ^ 2045) := by omega
  have hle : 2 * (2 ^ 53 * 2 ^ 2045) ≤ 10 ^ 400 * 2 ^ unitExponent := by decide +kernel
  exact Nat.lt_of_mul_lt_mul_right (Nat.lt_of_lt_of_le hlt hle)

/-- A decimal with no digits after the point reads back just if the whole number does. -/
theorem readsBack_iff : m.readsBack coefficient place = true ↔
    m.Reads (coefficient * 10 ^ place) := by
  rw [readsBack, decide_eq_true_iff]
  by_cases hzero : coefficient = 0
  · rw [hzero, ofScientific_zero, Nat.zero_mul, reads_iff, Nat.zero_mul]
    constructor
    · intro h
      rw [← (finite.inj h).2]
      rfl
    · intro h
      rw [eq_zero_of_units h.symm]
  · have hpositive : ¬ (digitCount coefficient : Int) + place < -330 := by omega
    rw [ofScientific_eq _ hzero, if_neg hpositive]
    split
    next hlarge =>
      refine iff_of_false nofun fun h => ?_
      have hdigits := (digitCount_le_iff (by decide)).mpr h.lt
      rw [digitCount_mul_pow hzero] at hdigits
      omega
    next =>
      have hden : (-(place : Int)).toNat = 0 := by omega
      rw [hden, Int.toNat_natCast, Nat.pow_zero, ofUnits_eq, Reads]
      cases ofUnits? (coefficient * 10 ^ place * 2 ^ unitExponent) 1 with
      | none => exact iff_of_false nofun nofun
      | some m' => simp

/-- The size of `2 ^ 53`. -/
def power : Magnitude := ⟨2 ^ 52, unitExponent + 1, by decide⟩

theorem power_units : power.units = 2 ^ 53 * 2 ^ unitExponent := by
  simp only [units, power, Nat.pow_eq, Nat.pow_succ 2 unitExponent]
  generalize 2 ^ unitExponent = unit
  omega

/-- The shortest decimal is taken from the first grid on which there is one. -/
theorem exists_shortestFrom {leading : Int} {tries digits i : Nat} (hi : i < tries)
    (hgrid : ∃ c, m.onGrid? (leading - (digits + i : Nat) + 1) = some c) :
    ∃ i' ≤ i, ∃ c, m.onGrid? (leading - (digits + i' : Nat) + 1) = some c ∧
      (∀ j < i', m.onGrid? (leading - (digits + j : Nat) + 1) = none) ∧
      m.shortestFrom leading tries digits = (c, leading - (digits + i' : Nat) + 1) := by
  induction tries generalizing digits i with
  | zero => exact absurd hi (Nat.not_lt_zero i)
  | succ tries ih =>
    rw [shortestFrom]
    cases hfirst : m.onGrid? (leading - digits + 1) with
    | some c =>
      exact ⟨0, Nat.zero_le i, c, hfirst, fun j hj => absurd hj (Nat.not_lt_zero j), rfl⟩
    | none =>
      obtain _ | i := i
      · obtain ⟨c, hc⟩ := hgrid
        cases hfirst.symm.trans hc
      · have hshift (j : Nat) : digits + (j + 1) = digits + 1 + j := by omega
        rw [hshift] at hgrid
        obtain ⟨i', hle, c, hc, hbefore, heq⟩ := ih (Nat.lt_of_succ_lt_succ hi) hgrid
        refine ⟨i' + 1, Nat.succ_le_succ hle, c, ?_, ?_, ?_⟩
        · rw [hshift, hc]
        · rintro (_ | j) hj
          · exact hfirst
          · rw [hshift, hbefore j (Nat.lt_of_succ_lt_succ hj)]
        · exact hshift i' ▸ heq

section Whole

variable (hunits : m.units = whole * 2 ^ unitExponent)
include hunits

theorem reads_self : m.Reads whole := by
  rw [Reads, ← hunits]
  exact m.ofUnits?_units

/-- A whole number that is read as a size is off by one part in `2 ^ 53` at most. -/
theorem Reads.dist (h : m.Reads v) : (v - whole) * 2 ^ 53 ≤ v ∧ (whole - v) * 2 ^ 53 ≤ v := by
  have hdist := rounded_dist (v * 2 ^ unitExponent)
  rw [reads_iff.mp h, hunits, ← Nat.sub_mul, ← Nat.sub_mul, Nat.mul_right_comm,
    Nat.mul_right_comm (whole - v)] at hdist
  have hpos := Nat.two_pow_pos unitExponent
  exact ⟨Nat.le_of_mul_le_mul_right hdist.1 hpos, Nat.le_of_mul_le_mul_right hdist.2 hpos⟩

theorem reads_near {r : Nat} (hr : r * 2 ^ 54 ≤ whole) (hv : v = whole + r ∨ v = whole - r) :
    m.Reads v := by
  refine reads_iff.mpr (rounded_near (r := r * 2 ^ unitExponent) ?_ ?_)
  · rw [hunits, Nat.mul_right_comm]
    exact Nat.mul_le_mul_right _ hr
  · rw [hunits, ← Nat.add_mul, ← Nat.sub_mul]
    exact hv.imp (congrArg (· * _)) (congrArg (· * _))

/-- Below `2 ^ 53` no two whole numbers are read as the same size. -/
theorem Reads.eq_of_lt (hlt : whole < 2 ^ 53) (h : m.Reads v) : v = whole := by
  have hdist := h.dist hunits
  rcases Nat.lt_or_ge whole v with hless | hle
  · -- the next number is the only one that is not too far away, but has a size of its own
    have hnext : m.Reads (whole + 1) :=
      (reads_self hunits).between h (Nat.le_succ whole) hless
    have htop : whole + 1 = 2 ^ 53 := by
      have hfar := (hnext.dist hunits).1
      omega
    rw [htop] at hnext
    have hpower : m = power := hnext.unique (reads_self power_units)
    rw [hpower, power_units] at hunits
    have hunit := Nat.two_pow_pos unitExponent
    generalize 2 ^ unitExponent = unit at hunits hunit
    have heq := Nat.mul_right_cancel hunit hunits
    omega
  · omega

/-! ## Grids -/

/-- The two neighbours of a whole number on a grid, the nearer one first. -/
theorem exists_neighbours (place : Nat) : ∃ far,
    (roundHalfEven whole (10 ^ place) = whole / 10 ^ place ∧ far = whole / 10 ^ place + 1 ∨
      roundHalfEven whole (10 ^ place) = whole / 10 ^ place + 1 ∧ far = whole / 10 ^ place) ∧
    m.onGrid? place =
      if m.readsBack (roundHalfEven whole (10 ^ place)) place then
        some (roundHalfEven whole (10 ^ place))
      else if m.readsBack far place then some far else none := by
  have hpos := Nat.two_pow_pos unitExponent
  have hlow := le_roundHalfEven whole (10 ^ place)
  have hhigh := roundHalfEven_le whole (10 ^ place)
  have hexponent : ¬ (place : Int) < 0 := by omega
  have hround : roundHalfEven m.units (Nat.pow 2 unitExponent * Nat.pow 10 (place : Int).toNat) =
      roundHalfEven whole (10 ^ place) := by
    rw [hunits, Nat.pow_eq, Nat.pow_eq, Int.toNat_natCast, Nat.mul_comm (2 ^ unitExponent)]
    exact roundHalfEven_mul_right whole _ hpos
  have hdiv : m.units / (Nat.pow 2 unitExponent * Nat.pow 10 (place : Int).toNat) =
      whole / 10 ^ place := by
    rw [hunits, Nat.pow_eq, Nat.pow_eq, Int.toNat_natCast, Nat.mul_comm (2 ^ unitExponent)]
    exact Nat.mul_div_mul_right whole _ hpos
  simp only [onGrid?, if_neg hexponent, hround, hdiv]
  by_cases hnear : roundHalfEven whole (10 ^ place) = whole / 10 ^ place
  · exact ⟨_, .inl ⟨hnear, rfl⟩, by rw [if_pos hnear, hnear]⟩
  · exact ⟨_, .inr ⟨by omega, rfl⟩, by rw [if_neg hnear]⟩

/-- **A grid has a number that reads back if any multiple of its step is read as the size.** -/
theorem exists_onGrid?_of_reads (h : m.Reads (coefficient * 10 ^ place)) :
    ∃ c, m.onGrid? place = some c := by
  obtain ⟨far, hneighbours, hgrid⟩ := exists_neighbours hunits place
  have hself := reads_self hunits
  have hfloor : whole / 10 ^ place * 10 ^ place ≤ whole := Nat.div_mul_le_self ..
  have hceil : whole ≤ (whole / 10 ^ place + 1) * 10 ^ place := by
    rw [Nat.succ_mul]
    exact Nat.le_of_lt (Nat.lt_div_mul_add (Nat.pow_pos (by decide)))
  -- the number lies between the multiple and one of the neighbours
  have hneighbour : m.readsBack (whole / 10 ^ place) place = true ∨
      m.readsBack (whole / 10 ^ place + 1) place = true := by
    simp only [readsBack_iff]
    rcases Nat.lt_or_ge (whole / 10 ^ place) coefficient with hlt | hle
    · exact .inr (hself.between h hceil (Nat.mul_le_mul_right _ hlt))
    · exact .inl (h.between hself (Nat.mul_le_mul_right _ hle) hfloor)
  rw [hgrid]
  split
  next => exact ⟨_, rfl⟩
  next hnear =>
    refine ⟨far, if_pos ?_⟩
    rcases hneighbours with ⟨heq, rfl⟩ | ⟨heq, rfl⟩
    · rw [heq] at hnear
      exact hneighbour.resolve_left hnear
    · rw [heq] at hnear
      exact hneighbour.resolve_right hnear

theorem onGrid?_of_dvd (h : 10 ^ place ∣ whole) : m.onGrid? place = some (whole / 10 ^ place) := by
  obtain ⟨far, -, hgrid⟩ := exists_neighbours hunits place
  have hmul := Nat.div_mul_cancel h
  have hnear : roundHalfEven whole (10 ^ place) = whole / 10 ^ place := by
    have hround := roundHalfEven_mul (whole / 10 ^ place)
      (Nat.pow_pos (n := place) (a := 10) (by decide))
    rwa [hmul] at hround
  rw [hgrid, hnear, if_pos]
  rw [readsBack_iff, hmul]
  exact reads_self hunits

/-- **Seventeen digits are enough**: half a step is then so little that the nearest multiple is read
as the size. -/
theorem exists_onGrid?_of_digits (h : 10 ^ (place + 16) ≤ whole) :
    ∃ c, m.onGrid? place = some c := by
  have hdist := roundHalfEven_dist whole (Nat.pow_pos (n := place) (a := 10) (by decide))
  have hlittle : ∀ r, 2 * r ≤ 10 ^ place → r * 2 ^ 54 ≤ whole := fun r hr =>
    calc r * 2 ^ 54
      _ ≤ r * (2 * 10 ^ 16) := Nat.mul_le_mul_left r (by decide)
      _ = 2 * r * 10 ^ 16 := by rw [← Nat.mul_assoc, Nat.mul_comm r 2]
      _ ≤ 10 ^ place * 10 ^ 16 := Nat.mul_le_mul_right _ hr
      _ = 10 ^ (place + 16) := (Nat.pow_add ..).symm
      _ ≤ whole := h
  have hnearest : m.Reads (roundHalfEven whole (10 ^ place) * 10 ^ place) := by
    generalize roundHalfEven whole (10 ^ place) * 10 ^ place = nearest at hdist ⊢
    rcases Nat.le_total whole nearest with hle | hle
    · exact reads_near hunits (hlittle _ hdist.2) (.inl (by omega))
    · exact reads_near hunits (hlittle _ hdist.1) (.inr (by omega))
  exact exists_onGrid?_of_reads hunits hnearest

/-! ## The shortest decimal -/

theorem leadingExponent_units (h : whole ≠ 0) :
    leadingExponent m.units = (digitCount whole : Int) - 1 := by
  have hwhole : m.units / 2 ^ unitExponent = whole := by
    rw [hunits, Nat.mul_div_cancel whole (Nat.two_pow_pos unitExponent)]
  simp only [leadingExponent, Nat.pow_eq, hwhole, if_neg h]

/-- The shortest decimal of a whole number lies on the coarsest grid, of those that are not coarser
than the number, on which there is one. -/
theorem exists_grid (h : whole ≠ 0) : ∃ place c, place < digitCount whole ∧
    m.onGrid? place = some c ∧
    (∀ coarser, place < coarser → coarser < digitCount whole → m.onGrid? coarser = none) ∧
    m.shortestFrom (leadingExponent m.units) 17 1 = (c, (place : Int)) := by
  have hpos := digitCount_pos whole
  have hgrid (i : Nat) (hi : i < digitCount whole) :
      (digitCount whole : Int) - 1 - (1 + i : Nat) + 1 = (digitCount whole - 1 - i : Nat) := by
    omega
  -- with one unit as its step, or with seventeen digits, a grid has one
  obtain ⟨i, hi, htries, hsome⟩ : ∃ i < digitCount whole, i < 17 ∧
      ∃ c, m.onGrid? (digitCount whole - 1 - i : Nat) = some c := by
    by_cases hshort : digitCount whole ≤ 17
    · refine ⟨digitCount whole - 1, by omega, by omega, whole / 10 ^ 0, ?_⟩
      rw [Nat.sub_self]
      exact onGrid?_of_dvd hunits (Nat.one_dvd whole)
    · refine ⟨16, by omega, by omega, exists_onGrid?_of_digits hunits ?_⟩
      rw [Nat.sub_add_cancel (by omega)]
      exact pow_le_of_lt_digitCount h (by omega)
  rw [leadingExponent_units hunits h]
  rw [← hgrid i hi] at hsome
  obtain ⟨i', hle, c, hc, hbefore, heq⟩ := exists_shortestFrom htries hsome
  rw [hgrid i' (by omega)] at hc heq
  refine ⟨digitCount whole - 1 - i', c, by omega, hc, fun coarser hlt hcoarser => ?_, heq⟩
  have hnone := hbefore (digitCount whole - 1 - coarser) (by omega)
  rw [hgrid _ (by omega)] at hnone
  rwa [show digitCount whole - 1 - (digitCount whole - 1 - coarser) = coarser by omega] at hnone

/-- A number with one digit is too far away from the next power of ten. -/
theorem not_reads_pow (h : whole ≤ 9 * 10 ^ place) : ¬ m.Reads (10 ^ place * 10) := by
  intro hreads
  have hfar := (hreads.dist hunits).1
  have hten : 0 < 10 ^ place := Nat.pow_pos (by decide)
  omega

/-- If a number lies on the grid of its shortest decimal, then no number that is read as the same
size ends with more zeros than the numbers of the grid. -/
theorem zeros_le {c zeros : Nat} (hlt : place < digitCount whole) (hself : c * 10 ^ place = whole)
    (hnone : ∀ coarser, place < coarser → coarser < digitCount whole → m.onGrid? coarser = none)
    (h : whole ≠ 0) (hw : m.Reads w) (hdvd : 10 ^ zeros ∣ w) : zeros ≤ place := by
  refine Nat.le_of_not_lt fun hcoarser => ?_
  have hempty : ∀ coarser k, place < coarser → coarser < digitCount whole →
      ¬ m.Reads (k * 10 ^ coarser) := fun coarser k hplace hcoarse hreads => by
    obtain ⟨c', hc'⟩ := exists_onGrid?_of_reads hunits hreads
    cases (hnone coarser hplace hcoarse).symm.trans hc'
  rcases Nat.lt_or_ge zeros (digitCount whole) with hshort | hlong
  · obtain ⟨k, rfl⟩ := hdvd
    rw [Nat.mul_comm] at hw
    exact hempty zeros k hcoarser hshort hw
  · -- the next power of ten lies between the two numbers
    obtain ⟨leading, hcount⟩ : ∃ leading, digitCount whole = leading + 1 :=
      Nat.exists_eq_succ_of_ne_zero (by omega)
    have hbelow : whole < 10 ^ leading * 10 := by
      rw [← Nat.pow_succ]
      exact (digitCount_le_iff (Nat.succ_pos _)).mp (Nat.le_of_eq hcount)
    have hdist := Reads.dist hunits hw
    have hpos : 0 < w := by omega
    have habove : 10 ^ leading * 10 ≤ w := by
      rw [← Nat.pow_succ, Nat.succ_eq_add_one, ← hcount]
      exact Nat.le_trans (Nat.pow_le_pow_right (by decide) hlong) (Nat.le_of_dvd hpos hdvd)
    have hpower := (reads_self hunits).between hw (Nat.le_of_lt hbelow) habove
    have hplace : place = leading := by
      rcases Nat.lt_or_ge place leading with hless | hmore
      · rw [Nat.mul_comm] at hpower
        exact absurd hpower (hempty leading 10 hless (by omega))
      · omega
    subst hplace
    have hdigit : c < 10 := Nat.lt_of_mul_lt_mul_right (by rwa [hself, Nat.mul_comm])
    have hnine : whole ≤ 9 * 10 ^ place := hself ▸ Nat.mul_le_mul_right _ (by omega)
    exact not_reads_pow hunits hnine hpower

/-- **The shortest decimal of a whole number** is a whole number that is read as the same size. It
is the number itself just if no number that is read as the size ends with more zeros. -/
theorem exists_shortest : ∃ c place : Nat, m.shortest = (c, (place : Int)) ∧
    m.Reads (c * 10 ^ place) ∧
    (c * 10 ^ place = whole ↔ ∀ w zeros, m.Reads w → 10 ^ zeros ∣ w → 10 ^ zeros ∣ whole) := by
  by_cases hzero : whole = 0
  · subst hzero
    have hnone : m.units = 0 := by rw [hunits, Nat.zero_mul]
    refine ⟨0, 0, if_pos hnone, ?_, iff_of_true rfl fun _ _ _ _ => Nat.dvd_zero _⟩
    rw [Nat.zero_mul]
    exact reads_self hunits
  · have hne : m.units ≠ 0 := by
      rw [hunits]
      exact Nat.mul_ne_zero hzero (Nat.ne_of_gt (Nat.two_pow_pos _))
    obtain ⟨place, c, hlt, hgrid, hnone, hfrom⟩ := exists_grid hunits hzero
    have hzeros := stripZeros_mul 20 c
    have hvalue : (stripZeros 20 c).1 * 10 ^ (place + (stripZeros 20 c).2) = c * 10 ^ place := by
      rw [Nat.add_comm, Nat.pow_add, ← Nat.mul_assoc, hzeros]
    have hreads := readsBack_iff.mp (readsBack_of_onGrid? hgrid)
    refine ⟨(stripZeros 20 c).1, place + (stripZeros 20 c).2, ?_, hvalue ▸ hreads, ?_⟩
    · rw [shortest, if_neg hne, hfrom]
      rfl
    rw [hvalue]
    constructor
    · intro hself w zeros hw hdvd
      have hle := zeros_le hunits hlt hself hnone hzero hw hdvd
      rw [← hself]
      exact Nat.dvd_mul_left_of_dvd (Nat.pow_dvd_pow 10 hle) c
    · intro hmost
      have hdvd := hmost _ place hreads (Nat.dvd_mul_left _ _)
      have hfloor := onGrid?_of_dvd hunits hdvd
      rw [hgrid] at hfloor
      rw [Option.some.inj hfloor]
      exact Nat.div_mul_cancel hdvd

end Whole

end Binary64.Magnitude

/-! ## Integers -/

variable {negative : Bool} {n w : Int} {x : Binary64}

/-- A whole number with a sign. -/
def signed (negative : Bool) (size : Nat) : Int :=
  if negative then -(size : Int) else size

@[simp] theorem natAbs_signed (negative : Bool) (size : Nat) :
    (signed negative size).natAbs = size := by
  cases negative <;> simp [signed]

@[simp] theorem signed_zero (negative : Bool) : signed negative 0 = 0 := by
  cases negative <;> rfl

theorem signed_inj {a b : Nat} : signed negative a = signed negative b ↔ a = b := by
  refine ⟨fun h => ?_, congrArg _⟩
  rw [← natAbs_signed negative a, h, natAbs_signed]

theorem signed_mul (negative : Bool) (a b : Nat) :
    signed negative (a * b) = signed negative a * b := by
  cases negative with
  | false => exact Int.natCast_mul a b
  | true => exact (congrArg Neg.neg (Int.natCast_mul a b)).trans (Int.neg_mul ..).symm

/-- A decimal denotes an integer if its digits after the point are the zeros put behind others. -/
theorem Decimal.toInt?_shift (negative : Bool) (coefficient place j : Nat) :
    (finite negative (coefficient * 10 ^ j) (place - j)).toInt? =
      some (signed negative (coefficient * 10 ^ place)) := by
  by_cases hzero : coefficient = 0
  · rw [hzero, Nat.zero_mul, Nat.zero_mul]
    cases negative <;> rfl
  have hten : 0 < 10 ^ j := Nat.pow_pos (by decide)
  have hne : coefficient * 10 ^ j ≠ 0 := Nat.mul_ne_zero hzero (Nat.ne_of_gt hten)
  rw [toInt?, if_neg hne]
  by_cases hexponent : (0 : Int) ≤ place - j
  · rw [if_pos hexponent, signed, Nat.pow_eq, Nat.mul_assoc, ← Nat.pow_add,
      show j + ((place : Int) - j).toNat = place by omega]
  · have hcount := digitCount_mul_pow hzero j
    have hpos := digitCount_pos coefficient
    have hsplit : 10 ^ j = 10 ^ place * 10 ^ (-((place : Int) - j)).toNat := by
      rw [← Nat.pow_add, show place + (-((place : Int) - j)).toNat = j by omega]
    rw [if_neg hexponent, if_neg (by omega), Nat.pow_eq, hsplit, ← Nat.mul_assoc]
    dsimp only
    rw [Nat.mul_mod_left, if_pos rfl, Nat.mul_div_cancel _ (Nat.pow_pos (by decide)), signed]

namespace Binary64

theorem units?_finite (negative : Bool) (m : Magnitude) :
    (finite negative m).units? = some (signed negative m.units) := by
  cases negative <;> rfl

/-- A floating point number that denotes an integer is finite and has no part of a whole. -/
theorem exists_whole (h : x.toInt? = some n) : ∃ (negative : Bool) (m : Magnitude) (whole : Nat),
    x = finite negative m ∧ m.units = whole * 2 ^ unitExponent ∧ n = signed negative whole := by
  cases x with
  | nan => cases h
  | infinite negative => cases h
  | finite negative m =>
    have hunit := Nat.two_pow_pos unitExponent
    rw [toInt?, units?_finite] at h
    simp only [Nat.pow_eq] at h
    generalize 2 ^ unitExponent = unit at h hunit ⊢
    split at h
    next hmod =>
      have hdvd := Int.ofNat_dvd_left.mp (Int.dvd_of_emod_eq_zero hmod)
      rw [natAbs_signed] at hdvd
      obtain ⟨whole, hwhole⟩ := hdvd
      rw [Nat.mul_comm] at hwhole
      refine ⟨negative, m, whole, rfl, hwhole, ?_⟩
      rw [← Option.some.inj h, hwhole, signed_mul]
      exact Int.mul_ediv_cancel _ (Int.natCast_ne_zero.mpr (Nat.ne_of_gt hunit))
    next => cases h

/-- The floating point number has the value of the one that is nearest to the integer. -/
def NearestTo (x : Binary64) (n : Int) : Prop :=
  (ofInt n).units? = x.units?

theorem NearestTo.reads {m : Magnitude} (h : (finite negative m).NearestTo w) :
    m.Reads w.natAbs := by
  rw [NearestTo, ofInt, ofUnits_eq, units?_finite, Nat.pow_eq] at h
  rw [Magnitude.Reads]
  generalize Magnitude.ofUnits? (w.natAbs * 2 ^ unitExponent) 1 = size at h ⊢
  cases size with
  | none => cases h
  | some m' =>
    rw [Option.elim_some, units?_finite] at h
    have hunits := congrArg Int.natAbs (Option.some.inj h)
    rw [natAbs_signed, natAbs_signed] at hunits
    rw [Magnitude.units_injective hunits]

theorem Magnitude.Reads.nearestTo {m : Magnitude} {v : Nat} (h : m.Reads v) (negative : Bool) :
    (finite negative m).NearestTo (signed negative v) := by
  have hunits := reads_iff.mp h
  rw [Reads] at h
  rw [NearestTo, ofInt, ofUnits_eq, units?_finite, natAbs_signed, Nat.pow_eq, h, Option.elim_some,
    units?_finite]
  by_cases hzero : v = 0
  · rw [hzero, Nat.zero_mul] at hunits
    have hunits : m.units = 0 := hunits.symm
    rw [hunits, signed_zero, signed_zero]
  · have hsign : decide (signed negative v < 0) = negative := by
      cases negative with
      | true => simp [signed, Nat.pos_of_ne_zero hzero]
      | false => simp [signed]
    rw [hsign]

end Binary64

end DocTable
