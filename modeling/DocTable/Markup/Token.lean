import DocTable.Failure
import DocTable.Markup.Source

/-!
The tokens of marked-up text, and the reading of those that stay on one line and do not depend on
what is around them: directives, anchors, references and tags. Whatever is malformed is one and
the same failure, `Markup.unreadable`.
-/

namespace DocTable.Markup

/-- The failure of text that is malformed. -/
def unreadable : Failure :=
  .document .unreadable

/-- The parts that marked-up text consists of. -/
inductive Token where
  /-- A directive that names the version of the format; only its major number counts. -/
  | version (major : Nat)
  /-- A directive that makes a tag handle stand for a text. -/
  | handle (name meaning : String)
  | reserved
  | documentStart
  | documentEnd
  | textEnd
  | blockList
  | blockMap
  | blockEnd
  | flowList
  | flowListEnd
  | flowMap
  | flowMapEnd
  | entry
  | comma
  | key
  | value
  | anchor (name : String)
  | reference (name : String)
  | tag (handle : Option String) (suffix : String)
  | scalar (plain : Bool) (text : String)
  /-- Stands where the text cannot be read any further. -/
  | fault (cause : Failure)

namespace Token

def isNameChar (c : Char) : Bool :=
  c.isAlphanum || c = '-' || c = '_'

/-- Reads a name of at least one character. -/
def readName (s : Source) : Outcome (String × Source) :=
  match s.span isNameChar with
  | ([], _) => .error unreadable
  | (cs, s) => .ok (String.ofList cs, s)

/-- The characters that may follow the name of an anchor. -/
def endsAnchor (c : Char) : Bool :=
  isGap c || "?:,]\x7d%@`".toList.contains c

/-- Reads the name of an anchor or of a reference after its sign. -/
def readAnchor (s : Source) : Outcome (String × Source) := do
  let (name, s) ← readName s.next
  if endsOr endsAnchor s.rest then return (name, s) else throw unreadable

/-! ## Tags -/

def isUriChar (c : Char) : Bool :=
  c.isAlphanum || "-;/?:@&=+$,_.!~*'()[]%".toList.contains c

private def ofBytes? (bytes : List UInt8) : Option (List Char) :=
  (String.fromUTF8? ⟨bytes.toArray⟩).map String.toList

/-- Resolves the bytes that are written by their digits after a percent sign. Bytes that follow
each other make up characters together. -/
def unescapeUri? (bytes : List UInt8) : List Char → Option (List Char)
  | '%' :: a :: b :: rest => do
    let byte := UInt8.ofNat ((← Text.hexValue? a) * 16 + (← Text.hexValue? b))
    unescapeUri? (bytes ++ [byte]) rest
  | [] => ofBytes? bytes
  | c :: rest =>
    if c = '%' then none
    else do return (← ofBytes? bytes) ++ c :: (← unescapeUri? [] rest)

/-- Reads the characters of a tag, of which there is at least one. -/
def readUri (s : Source) : Outcome (String × Source) :=
  match s.span isUriChar with
  | ([], _) => .error unreadable
  | (cs, s) =>
    match unescapeUri? [] cs with
    | some cs => .ok (String.ofList cs, s)
    | none => .error unreadable

/-- Reads a tag handle: an exclamation mark, or a name between two of them, which may be empty. -/
def readHandle (s : Source) : Outcome (String × Source) :=
  match s.rest with
  | '!' :: ' ' :: _ => .ok ("!", s.next)
  | '!' :: _ =>
    let (name, s) := s.next.span isNameChar
    if s.rest.head? = some '!' then .ok (String.ofList ('!' :: (name ++ ['!'])), s.next)
    else .error unreadable
  | _ => .error unreadable

/-- Reads a tag: in angle brackets, as a bare exclamation mark, or as a handle and a suffix. -/
def readTag (s : Source) : Outcome (Token × Source) := do
  let (t, s) ← match s.rest with
    | '!' :: '<' :: _ => do
      let (uri, s) ← readUri (s.advance 2)
      if s.rest.head? = some '>' then pure (tag none uri, s.next) else throw unreadable
    | _ =>
      let rest := s.next.rest
      if atGap rest then pure (tag none "!", s.next)
      else do
        let word := rest.takeWhile fun c => c ≠ ' ' && !isBreak c
        let (name, s) ← if word.contains '!' then readHandle s else pure ("!", s.next)
        let (suffix, s) ← readUri s
        pure (tag (some name) suffix, s)
  if atSpace s.rest then return (t, s) else throw unreadable

/-! ## Directives -/

private def readDigits (s : Source) : Outcome (Nat × Source) :=
  match s.span Char.isDigit with
  | ([], _) => .error unreadable
  | (cs, s) => .ok (Nat.ofDigitChars 10 cs 0, s)

private def readVersion (s : Source) : Outcome (Token × Source) := do
  let (major, s) ← readDigits s.skipSpaces
  if s.rest.head? ≠ some '.' then throw unreadable
  let (_, s) ← readDigits s.next
  if atSpace s.rest then return (version major, s) else throw unreadable

private def readHandleMeaning (s : Source) : Outcome (Token × Source) := do
  let (name, s) ← readHandle s.skipSpaces
  if s.rest.head? ≠ some ' ' then throw unreadable
  let (meaning, s) ← readUri s.skipSpaces
  if atSpace s.rest then return (handle name meaning, s) else throw unreadable

/-- Passes over the rest of a line that may hold nothing but a comment. -/
def skipLine (s : Source) : Outcome Source :=
  let s := s.skipSpaces.skipComment
  if endsOr isBreak s.rest then .ok s.takeBreak.2 else .error unreadable

/-- Reads a directive, which takes a whole line. -/
def readDirective (s : Source) : Outcome (Token × Source) := do
  let (name, s) ← readName s.next
  if !atSpace s.rest then throw unreadable
  let (t, s) ←
    if name = "YAML" then readVersion s
    else if name = "TAG" then readHandleMeaning s
    else pure (reserved, s.skip (!isBreak ·))
  return (t, ← skipLine s)

end Token

end DocTable.Markup
