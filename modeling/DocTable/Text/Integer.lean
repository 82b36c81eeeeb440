import DocTable.Text.Blank
import DocTable.Text.Digit

/-! Reading of integers that stand in a text. -/

namespace DocTable.Text

/-- More digits than this are neither read nor written. -/
def digitLimit : Nat := 4300

/-- The values of the digits of a text in which single underscores may stand between digits. -/
def digitValues? : List Char → Option (List Nat)
  | [] => none
  | [c] => (digitValue? c).map fun d => [d]
  | c :: '_' :: rest => do return (← digitValue? c) :: (← digitValues? rest)
  | c :: rest => do return (← digitValue? c) :: (← digitValues? rest)

/-- The number with the given decimal digits. -/
def ofDigits (ds : List Nat) : Nat :=
  ds.foldl (fun n d => 10 * n + d) 0

/-- Whether a character can stand around an integer: a blank other than the four separators below
the space. -/
def isPadding (c : Char) : Bool :=
  isBlank c && !(28 ≤ c.toNat && c.toNat < 32)

/-- Reads an integer: a sign and digits of any script, with blanks around them. -/
def integer? (s : String) : Option Int := do
  let (negative, digits) : Bool × List Char := match stripBy isPadding s.toList with
    | '-' :: rest => (true, rest)
    | '+' :: rest => (false, rest)
    | cs => (false, cs)
  let ds ← digitValues? digits
  if digitLimit < ds.length then none
  else return if negative then -(ofDigits ds : Int) else ofDigits ds

/-- The value of a digit of any script or of a letter that goes on from nine, if it is below the
base. -/
def digitIn? (base : Nat) (c : Char) : Option Nat := do
  let n ← (digitValue? c).or (hexValue? c)
  if n < base then return n else none

/-- Reads an integer of base two, eight or sixteen. The letter of the base may stand behind a zero
in front of the digits. -/
def integerIn? (base : Nat) (letter : Char) (cs : List Char) : Option Int := do
  let (negative, digits) : Bool × List Char := match stripBy isPadding cs with
    | '-' :: rest => (true, rest)
    | '+' :: rest => (false, rest)
    | cs => (false, cs)
  let digits := match digits with
    | '0' :: c :: rest => if c.toLower = letter then rest else digits
    | _ => digits
  if digits = [] then none
  let ds ← digits.mapM (digitIn? base)
  let n := ds.foldl (fun n d => base * n + d) 0
  return if negative then -(n : Int) else n

end DocTable.Text
