import DocTable.Text.Printable

/-!
Quoted texts and bytes, as messages show them: between single quotes, or between double quotes
if there is a single quote and no double quote inside.
-/

namespace DocTable.Text

/-- The low `width` hexadecimal digits of a number. -/
def hexDigits (width n : Nat) : List Char :=
  let digits := Nat.toDigits 16 n
  List.replicate (width - digits.length) '0' ++ digits

/-- The quote that stands around a text. -/
def quoteFor (cs : List Char) : Char :=
  if cs.contains '\'' && !cs.contains '"' then '"' else '\''

/-- A character inside quotes. -/
def escaped (quote c : Char) : List Char :=
  if c = quote ∨ c = '\\' then ['\\', c]
  else if c = '\t' then ['\\', 't']
  else if c = '\n' then ['\\', 'n']
  else if c = '\r' then ['\\', 'r']
  else if isPrintable c then [c]
  else if c.toNat < 0x100 then '\\' :: 'x' :: hexDigits 2 c.toNat
  else if c.toNat < 0x10000 then '\\' :: 'u' :: hexDigits 4 c.toNat
  else '\\' :: 'U' :: hexDigits 8 c.toNat

/-- A text between quotes. -/
def quoted (s : String) : String :=
  let quote := quoteFor s.toList
  String.ofList (quote :: (s.toList.flatMap (escaped quote) ++ [quote]))

/-- A byte inside quotes; `always` names a character that is escaped whatever the quotes are. -/
def escapedByte (quote : Char) (always : Char) (b : UInt8) : List Char :=
  let c := Char.ofNat b.toNat
  if c = quote ∨ c = always ∨ c = '\\' then ['\\', c]
  else if c = '\t' then ['\\', 't']
  else if c = '\n' then ['\\', 'n']
  else if c = '\r' then ['\\', 'r']
  else if 32 ≤ b.toNat ∧ b.toNat < 127 then [c]
  else '\\' :: 'x' :: hexDigits 2 b.toNat

def byteChars (bytes : List UInt8) : List Char :=
  bytes.map fun b => Char.ofNat b.toNat

/-- Fixed bytes between quotes. -/
def quotedBytes (bytes : List UInt8) : String :=
  let quote := quoteFor (byteChars bytes)
  String.ofList ('b' :: quote :: (bytes.flatMap (escapedByte quote quote) ++ [quote]))

/-- Changeable bytes between quotes; a single quote is escaped in either kind of quotes. -/
def quotedBuffer (bytes : List UInt8) : String :=
  let quote := quoteFor (byteChars bytes)
  "bytearray(" ++
    String.ofList ('b' :: quote :: (bytes.flatMap (escapedByte '\'' '\'') ++ [quote])) ++ ")"

end DocTable.Text
