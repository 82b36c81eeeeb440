import DocTable.Markup.Node
import DocTable.Text.Quoted

/-!
Writing of documents in blocks. A text is plain if it would be read back as itself, else between
single quotes, or between double quotes if it has characters other than those of ASCII that can be
printed. Long texts are broken at spaces.
-/

namespace DocTable.Markup

/-! ## The choice of quotes -/

/-- How a text is written. -/
inductive Quoting where
  | plain
  | single
  | double
deriving DecidableEq

namespace Quoting

private def isPrintableAscii (c : Char) : Bool :=
  ' ' ≤ c && c ≤ '~'

/-- Whether one of the characters is followed at once by the other. -/
def hasPair (a b : Char) : List Char → Bool
  | [] => false
  | c :: rest => (c = a && rest.head? = some b) || hasPair a b rest

/-- Whether a text can stand between single quotes: all of it can be printed, and no space is next
to a line break. -/
def singleAllowed (cs : List Char) : Bool :=
  cs.all (fun c => c = '\n' || isPrintableAscii c) && !hasPair ' ' '\n' cs && !hasPair '\n' ' ' cs

/-- Whether a text begins with a character that would be taken for a sign. -/
def hasSignAtStart : List Char → Bool
  | [] => false
  | c :: rest =>
    "#,[]\x7b\x7d&*!|>'\"%@`".toList.contains c ||
      ((c = '?' || c = ':' || c = '-') && atGap rest)

/-- Whether a text has a colon in front of a gap, or a number sign behind one. -/
def hasSignInside : List Char → Bool
  | [] => false
  | c :: rest =>
    (isGap c && rest.head? = some '#') || (rest.head? = some ':' && atGap (rest.drop 1)) ||
      hasSignInside rest

/-- Whether a text begins like the mark of the start or of the end of a document. -/
def hasMarkAtStart (cs : List Char) : Bool :=
  "---".toList.isPrefixOf cs || "...".toList.isPrefixOf cs

/-- Whether a text can do without quotes. -/
def plainAllowed (cs : List Char) : Bool :=
  cs.all isPrintableAscii && cs ≠ [] && cs.head? ≠ some ' ' && cs.getLast? ≠ some ' ' &&
    !hasMarkAtStart cs && !hasSignAtStart cs && !hasSignInside cs

/-- How a text is written so that it is read back with its tag. -/
def ofText (tag : Tag) (s : String) : Quoting :=
  let cs := s.toList
  if Tag.ofPlain s = tag ∧ plainAllowed cs then plain
  else if singleAllowed cs then single
  else double

end Quoting

/-! ## Texts -/

/-- Where a text is broken: behind how many columns, if at all, and how far its next lines are
indented. -/
structure Folding where
  width : Option Nat
  indent : Nat

namespace Folding

/-- Whether the text is broken at a column, if it can be broken there. -/
def breaksAt (f : Folding) (column : Nat) : Bool :=
  match f.width with
  | none => false
  | some width => width < column

/-- The spaces in front of a line. -/
def margin (f : Folding) : List Char :=
  List.replicate f.indent ' '

end Folding

/-- The inside of a text that is plain or in single quotes, from a column on. Line breaks are
written twice, the first of some in a row, and so are single quotes inside of such. A space
that stands alone and not at an end may be replaced by a line break. -/
def foldedText (f : Folding) (quoted : Bool) (previous : Option Char) (column : Nat) :
    List Char → List Char
  | [] => []
  | c :: rest =>
    if c = ' ' then
      let alone := previous.isSome && previous ≠ some ' ' && !rest.isEmpty &&
        rest.head? ≠ some ' '
      if alone && f.breaksAt column then
        '\n' :: (f.margin ++ foldedText f quoted (some c) f.indent rest)
      else c :: foldedText f quoted (some c) (column + 1) rest
    else if c = '\n' then
      (if previous = some '\n' then ['\n'] else ['\n', '\n']) ++
        (if rest.head? = some '\n' then [] else f.margin) ++
        foldedText f quoted (some c) f.indent rest
    else if quoted && c = '\'' then
      c :: c :: foldedText f quoted (some c) (column + 2) rest
    else c :: foldedText f quoted (some c) (column + 1) rest

/-- The letter for a character that is written as a backslash and a letter. -/
def escapeLetter? : Char → Option Char
  | '\x00' => some '0'
  | '\x07' => some 'a'
  | '\x08' => some 'b'
  | '\t' => some 't'
  | '\n' => some 'n'
  | '\x0b' => some 'v'
  | '\x0c' => some 'f'
  | '\r' => some 'r'
  | '\x1b' => some 'e'
  | '"' => some '"'
  | '\\' => some '\\'
  | '\x85' => some 'N'
  | '\xa0' => some '_'
  | '\u2028' => some 'L'
  | '\u2029' => some 'P'
  | _ => none

private def capitalHex (width n : Nat) : List Char :=
  (Text.hexDigits width n).map Char.toUpper

/-- A character in double quotes that does not stand for itself. -/
def escape (c : Char) : List Char :=
  match escapeLetter? c with
  | some letter => ['\\', letter]
  | none =>
    if c.toNat < 0x100 then '\\' :: 'x' :: capitalHex 2 c.toNat
    else if c.toNat < 0x10000 then '\\' :: 'u' :: capitalHex 4 c.toNat
    else '\\' :: 'U' :: capitalHex 8 c.toNat

/-- A line break in double quotes that is not read, and what is needed for a space behind it to
be read. -/
private def hiddenBreak (f : Folding) (next : Option Char) : List Char :=
  '\\' :: '\n' :: (f.margin ++ if next = some ' ' then ['\\'] else [])

/-- The inside of a text in double quotes, from a column on. It is broken in front of spaces and
around escaped characters, but neither behind its first character nor in front of its last. -/
def escapedText (f : Folding) (first afterEscape : Bool) (column : Nat) : List Char → List Char
  | [] => []
  | c :: rest =>
    let inner := !first && !rest.isEmpty
    let margin (next : Option Char) : Nat := f.indent + if next = some ' ' then 1 else 0
    if ' ' ≤ c && c ≤ '~' && c ≠ '"' && c ≠ '\\' then
      if inner && (c = ' ' || afterEscape) && f.breaksAt column then
        hiddenBreak f (some c) ++ c :: escapedText f false false (margin (some c) + 1) rest
      else c :: escapedText f false false (column + 1) rest
    else
      let e := escape c
      let column := column + e.length
      if inner && f.breaksAt (column - 1) then
        e ++ hiddenBreak f rest.head? ++ escapedText f false true (margin rest.head?) rest
      else e ++ escapedText f false true column rest

/-- A scalar from a column on. -/
def scalarText (f : Folding) (column : Nat) (tag : Tag) (s : String) : List Char :=
  match Quoting.ofText tag s with
  | .plain => foldedText f false none column s.toList
  | .single => '\'' :: (foldedText f true none (column + 1) s.toList ++ ['\''])
  | .double => '"' :: (escapedText f true false (column + 1) s.toList ++ ['"'])

/-! ## Documents -/

/-- Texts are broken behind this column. -/
def lineWidth : Nat := 80

/-- Keys of more characters are marked as keys. -/
def keyLength : Nat := 122

private def hasBreak (s : String) : Bool :=
  s.toList.any fun c => isBreak c && c ≠ '\r'

namespace Node

/-- Whether a node can be a key without being marked as one. -/
def isShortKey : Node → Bool
  | scalar _ s => s ≠ "" && s.length ≤ keyLength && !hasBreak s
  | list _ items => items.isEmpty
  | map _ entries => entries.isEmpty
  | enclosing => false

private def newLine (indent : Nat) : List Char :=
  '\n' :: List.replicate indent ' '

mutual

/-- A part of a collection that stands at a column `indent`. The part starts at another column, or
if it is a collection two columns deeper. -/
def partText (indent column : Nat) : Node → List Char
  | scalar tag s => scalarText ⟨some lineWidth, indent + 2⟩ column tag s
  | list _ [] => "[]".toList
  | list _ (n :: rest) => itemsText (indent + 2) (n :: rest)
  | map _ [] => "\x7b\x7d".toList
  | map _ (e :: rest) => entriesText (indent + 2) (e :: rest)
  | enclosing => []

/-- The items of a list at a column. -/
def itemsText (indent : Nat) : List Node → List Char
  | [] => []
  | n :: rest =>
    '-' :: ' ' :: (partText indent (indent + 2) n ++
      (if rest.isEmpty then [] else newLine indent) ++ itemsText indent rest)

/-- The entries of a map at a column. A list as a value stands no deeper than its key. -/
def entriesText (indent : Nat) : List (Node × Node) → List Char
  | [] => []
  | (k, v) :: rest =>
    (if k.isShortKey then
      let key := keyText k
      key ++ ':' :: (match v with
        | list _ (n :: items) => newLine indent ++ itemsText indent (n :: items)
        | map _ (e :: entries) => newLine (indent + 2) ++ entriesText (indent + 2) (e :: entries)
        | v => ' ' :: partText indent (indent + key.length + 2) v)
    else
      '?' :: ' ' :: (partText indent (indent + 2) k ++ newLine indent ++
        ':' :: ' ' :: partText indent (indent + 2) v)) ++
    (if rest.isEmpty then [] else newLine indent) ++ entriesText indent rest

/-- A key on one line. -/
def keyText : Node → List Char
  | scalar tag s => scalarText ⟨none, 0⟩ 0 tag s
  | list .. => "[]".toList
  | map .. => "\x7b\x7d".toList
  | enclosing => []

end

/-- The text of a document. -/
def render (n : Node) : String :=
  String.ofList ((match n with
    | list _ (n :: items) => itemsText 0 (n :: items)
    | map _ (e :: entries) => entriesText 0 (e :: entries)
    | n => partText 0 0 n) ++ ['\n'])

/-- Not-a-numbers and infinities have names with a point in front. -/
def floatLayout : Binary64.Layout :=
  { Binary64.plainLayout with nanText := ".nan", infinityText := ".inf" }

/-- The text of a floating point number, with a point in any case. -/
def floatText (x : Binary64) : String :=
  let cs := (x.textIn floatLayout).toList
  if cs.contains '.' then String.ofList cs
  else
    String.ofList (cs.takeWhile (· ≠ 'e') ++ ['.', '0'] ++ cs.dropWhile (· ≠ 'e'))

mutual

/-- The node of a value. Values without a form of their own are written as their texts. -/
def ofValue : Value → Node
  | .null => scalar .null "null"
  | .bool b => scalar .bool (if b then "true" else "false")
  | .int n => scalar .int (integerText n)
  | .float x => scalar .float (floatText x)
  | .list items => list .list (ofItems items)
  | .map entries => map .map (ofEntries entries)
  | .text s => scalar .text s.mended
  | v => scalar .text v.plain

def ofItems : List Value → List Node
  | [] => []
  | v :: rest => ofValue v :: ofItems rest

def ofEntries : List (Value × Value) → List (Node × Node)
  | [] => []
  | (k, v) :: rest => (ofValue k, ofValue v) :: ofEntries rest

end

end Node

end DocTable.Markup
