/-!
Code points that are written by their units of 16 bits: one unit, or a pair of a high and a low
one. Half a pair is a code point without a character.
-/

namespace DocTable.Text

def isHigh (n : Nat) : Bool :=
  0xD800 ≤ n && n < 0xDC00

def isLow (n : Nat) : Bool :=
  0xDC00 ≤ n && n < 0xE000

/-- Whether a code point is half a pair. -/
def isHalf (n : Nat) : Bool :=
  isHigh n || isLow n

/-- The code points of units: two units that form a pair give one, all others stay. -/
def joinUnits : List Nat → List Nat
  | [] => []
  | [n] => [n]
  | n :: n' :: rest =>
    if isHigh n && isLow n' then
      (0x10000 + (n - 0xD800) * 0x400 + (n' - 0xDC00)) :: joinUnits rest
    else n :: joinUnits (n' :: rest)

/-- The character of a code point. Half a pair has a stand-in in the last private plane. -/
def standIn (n : Nat) : Char :=
  Char.ofNat (if isHalf n then 0x100000 + n else n)

theorem not_isHalf_toNat (c : Char) : isHalf c.toNat = false := by
  have h : ¬ (0xD800 ≤ c.toNat ∧ c.toNat < 0xE000) := by
    rcases c.valid with h | h
    · exact fun h' => absurd h (Nat.not_lt.2 h'.1)
    · exact fun h' => absurd h.1 (Nat.not_lt.2 (Nat.le_of_lt_succ h'.2))
  simp only [isHalf, isHigh, isLow, Bool.or_eq_false_iff, Bool.and_eq_false_iff,
    decide_eq_false_iff_not]
  omega

@[simp] theorem standIn_toNat (c : Char) : standIn c.toNat = c := by
  simp [standIn, not_isHalf_toNat]

end DocTable.Text
