import DocTable.Json.Basic

/-!
The compact text of a tree: no blanks, members in the order in which they are held.
-/

namespace DocTable.Json

/-- Whether characters outside of ASCII are written as they are or by the codes of their units. -/
inductive Escaping where
  | ascii
  | minimal
deriving DecidableEq

def unitEscape (n : Nat) : List Char :=
  '\\' :: 'u' :: Text.hexDigits 4 n

/-- A character within quotes. -/
def escaped (e : Escaping) (c : Char) : List Char :=
  match c with
  | '"' => ['\\', '"']
  | '\\' => ['\\', '\\']
  | '\n' => ['\\', 'n']
  | '\r' => ['\\', 'r']
  | '\t' => ['\\', 't']
  | '\x08' => ['\\', 'b']
  | '\x0c' => ['\\', 'f']
  | c =>
    let n := c.toNat
    if n < 32 then unitEscape n
    else if n < 127 ∨ e = .minimal then [c]
    else if n < 0x10000 then unitEscape n
    else
      let m := n - 0x10000
      unitEscape (0xD800 + m / 0x400) ++ unitEscape (0xDC00 + m % 0x400)

/-- A code point within quotes. A half of a pair is written as a unit. -/
def escapedPoint (e : Escaping) (n : Nat) : List Char :=
  if Text.isHalf n then unitEscape n else escaped e (Char.ofNat n)

/-- A text between quotes. -/
def quotedText (e : Escaping) (s : Spelling) : List Char :=
  '"' :: (s.points.flatMap (escapedPoint e) ++ ['"'])

mutual

/-- The characters of the text of a tree. -/
def chars (e : Escaping) : Json → List Char
  | null => "null".toList
  | bool true => "true".toList
  | bool false => "false".toList
  | int n => (integerText n).toList
  | float x => (floatText x).toList
  | text s => quotedText e s
  | array items => '[' :: (itemChars e items ++ [']'])
  | object members => '\x7b' :: (memberChars e members ++ ['\x7d'])

def itemChars (e : Escaping) : List Json → List Char
  | [] => []
  | [j] => chars e j
  | j :: rest => chars e j ++ ',' :: itemChars e rest

def memberChars (e : Escaping) : List (Spelling × Json) → List Char
  | [] => []
  | [(name, j)] => quotedText e name ++ ':' :: chars e j
  | (name, j) :: rest => quotedText e name ++ ':' :: chars e j ++ ',' :: memberChars e rest

end

/-- The text of a tree. -/
def render (e : Escaping) (j : Json) : String :=
  String.ofList (j.chars e)

end DocTable.Json
