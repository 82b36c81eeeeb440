import DocTable.Text.Quoted
import DocTable.Text.Units

/-!
The texts that an application can hold: sequences of code points, in which halves of pairs may
stand that are no characters. A text without such halves is a plain one. Names of fields, messages
and all that is only read as characters have stand-ins for the halves.
-/

namespace DocTable

/-- A text with halves of pairs, by its code points. -/
structure Broken where
  points : List Nat
  bounded : points.all (· < 0x110000) = true
  broken : points.any Text.isHalf = true
deriving DecidableEq

/-- A text of code points. -/
inductive Spelling where
  | plain (s : String)
  | broken (b : Broken)
deriving DecidableEq

namespace Spelling

instance : Coe String Spelling := ⟨plain⟩

instance : Inhabited Spelling := ⟨""⟩

@[simp] theorem plain_beq_plain (s t : String) : (plain s == plain t) = (s == t) := by
  rw [Bool.eq_iff_iff, beq_iff_eq, beq_iff_eq, plain.injEq]

/-- The code points of a text. -/
def points : Spelling → List Nat
  | plain s => s.toList.map Char.toNat
  | broken b => b.points

/-- The text of code points. -/
def ofPoints (ns : List Nat) : Spelling :=
  if h : ns.all (· < 0x110000) = true ∧ ns.any Text.isHalf = true then broken ⟨ns, h.1, h.2⟩
  else plain (String.ofList (ns.map Char.ofNat))

/-- Texts are ordered by their code points. -/
instance : LT Spelling := ⟨fun s t => s.points < t.points⟩

instance (s t : Spelling) : Decidable (s < t) :=
  inferInstanceAs (Decidable (s.points < t.points))

def isPlain : Spelling → Bool
  | plain _ => true
  | broken _ => false

/-- The characters of a text, with stand-ins for the halves. -/
def mended : Spelling → String
  | plain s => s
  | broken b => String.ofList (b.points.map Text.standIn)

@[simp] theorem mended_plain (s : String) : (plain s).mended = s := rfl

/-- The text with its halves put together where a high one stands in front of a low one. -/
def joined (s : Spelling) : Spelling :=
  ofPoints (Text.joinUnits s.points)

/-- The texts of the single code points. -/
def letters (s : Spelling) : List Spelling :=
  s.points.map fun n => ofPoints [n]

/-- A code point inside quotes. -/
def escaped (quote : Char) (n : Nat) : List Char :=
  if Text.isHalf n then '\\' :: 'u' :: Text.hexDigits 4 n else Text.escaped quote (Char.ofNat n)

/-- The text between quotes. -/
def quoted : Spelling → String
  | plain s => Text.quoted s
  | broken b =>
    let quote := Text.quoteFor (b.points.map Text.standIn)
    String.ofList (quote :: (b.points.flatMap (escaped quote) ++ [quote]))

/-- Texts in one, with a separator between them. -/
def intercalate (separator : Nat) (parts : List Spelling) : Spelling :=
  ofPoints ([separator].intercalate (parts.map points))

/-- The parts of code points between separators. -/
def splitPoints (separator : Nat) : List Nat → List (List Nat)
  | [] => [[]]
  | n :: ns =>
    if n = separator then [] :: splitPoints separator ns
    else
      match splitPoints separator ns with
      | part :: rest => (n :: part) :: rest
      | [] => [[n]]

/-- The parts of a text between separators. -/
def split (separator : Nat) (s : Spelling) : List Spelling :=
  (splitPoints separator s.points).map ofPoints

end Spelling

end DocTable
