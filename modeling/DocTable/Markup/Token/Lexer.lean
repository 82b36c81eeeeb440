import DocTable.Markup.Token.Scalar

/-!
Splitting marked-up text into tokens. Outside of flow collections the tokens that start and end a
collection come from columns: a collection starts at an entry or a key that stands further right
than those around it, and ends in front of what stands further left. A key is recognised only when
the colon after it is met, and its tokens are then put in front of it.
-/

namespace DocTable.Markup

/-- A place at which a key may have started: the number of tokens in front of it and its position.
It is required if nothing else may stand there. -/
structure KeyPlace where
  tokens : Nat
  required : Bool
  index : Nat
  line : Nat
  column : Nat

/-- The text that is left, the tokens so far with the last one first, and what decides on the next
one: the nesting of flow collections, the columns of the collections around, whether a key may
start here, and the places at which one may have started, by their nesting. -/
structure Lexer where
  source : Source
  tokens : List Token
  count : Nat
  nesting : Nat
  indent : Int
  outer : List Int
  keyAllowed : Bool
  places : OrderedMap Nat KeyPlace

namespace Lexer

def ofText (s : String) : Lexer where
  source := .ofText s
  tokens := []
  count := 0
  nesting := 0
  indent := -1
  outer := []
  keyAllowed := true
  places := []

def inFlow (l : Lexer) : Bool :=
  l.nesting ≠ 0

def column (l : Lexer) : Int :=
  l.source.column

/-- Adds a token. -/
def push (l : Lexer) (t : Token) : Lexer :=
  { l with tokens := t :: l.tokens, count := l.count + 1 }

/-- Puts a token behind the first `n` tokens. -/
def insert (l : Lexer) (n : Nat) (t : Token) : Lexer :=
  let later := l.count - n
  { l with tokens := l.tokens.take later ++ t :: l.tokens.drop later, count := l.count + 1 }

/-- Passes over some characters. -/
def advance (l : Lexer) (n : Nat) : Lexer :=
  { l with source := l.source.advance n }

/-- Sets whether a key may start here. -/
def allowKey (l : Lexer) (allowed : Bool) : Lexer :=
  { l with keyAllowed := allowed }

/-! ## Columns -/

/-- Ends the collections that stand further right than a column. -/
def unwindFrom (column : Int) (outer : List Int) (l : Lexer) : Lexer :=
  if l.indent ≤ column then { l with outer := outer }
  else
    match outer with
    | [] => { l with outer := [] }
    | indent :: outer => unwindFrom column outer ({ l with indent := indent }.push .blockEnd)

def unwind (l : Lexer) (column : Int) : Lexer :=
  if l.inFlow then l else unwindFrom column l.outer l

/-- Starts a collection at a column if it stands further right than those around it. The token of
its start comes behind the first `n` tokens. -/
def indentTo (l : Lexer) (column : Int) (n : Nat) (start : Token) : Lexer :=
  if l.inFlow || column ≤ l.indent then l
  else { l with indent := column, outer := l.indent :: l.outer }.insert n start

/-! ## Places of keys -/

/-- Gives up the places at which no key can have started: a key stands on one line and takes at
most 1024 characters up to its colon. -/
def dropStale (l : Lexer) : Outcome Lexer :=
  let isStale (place : KeyPlace) : Bool :=
    place.line ≠ l.source.line || place.index + 1024 < l.source.index
  if l.places.any fun (_, place) => isStale place && place.required then .error unreadable
  else .ok { l with places := l.places.filter fun (_, place) => !isStale place }

/-- Gives up the place at the present nesting. -/
def dropPlace (l : Lexer) : Outcome Lexer :=
  match l.places.find? l.nesting with
  | some place =>
    if place.required then .error unreadable
    else .ok { l with places := l.places.erase l.nesting }
  | none => .ok l

/-- Remembers that a key may start here. -/
def savePlace (l : Lexer) : Outcome Lexer := do
  if l.keyAllowed then
    let required := !l.inFlow && l.indent = l.column
    let l ← l.dropPlace
    let s := l.source
    let place : KeyPlace := ⟨l.count, required, s.index, s.line, s.column⟩
    return { l with places := l.places.put l.nesting place }
  else return l

/-! ## Steps -/

/-- Passes over what lies between tokens: spaces, comments and line breaks. -/
def skipBetween (fuel : Nat) (l : Lexer) : Lexer :=
  match fuel with
  | 0 => l
  | fuel + 1 =>
    let s := l.source.skipSpaces.skipComment
    match s.takeBreak with
    | ([], _) => { l with source := s }
    | (_, s) => skipBetween fuel { l with source := s, keyAllowed := l.keyAllowed || !l.inFlow }

/-- Leaves all collections at a mark that stands outside of them. -/
def leaveAll (l : Lexer) : Outcome Lexer := do
  return (← (l.unwind (-1)).dropPlace).allowKey false

def directive (l : Lexer) : Outcome Lexer := do
  let l ← l.leaveAll
  let (t, s) ← Token.readDirective l.source
  return { l with source := s }.push t

def documentMark (l : Lexer) (t : Token) : Outcome Lexer := do
  return ((← l.leaveAll).advance 3).push t

def flowStart (l : Lexer) (t : Token) : Outcome Lexer := do
  let l ← l.savePlace
  return (({ l with nesting := l.nesting + 1, keyAllowed := true }).advance 1).push t

/-- Ends a flow collection. One that has not started makes the text unreadable. -/
def flowEnd (l : Lexer) (t : Token) : Outcome Lexer := do
  let l ← l.dropPlace
  if l.inFlow then
    return (({ l with nesting := l.nesting - 1, keyAllowed := false }).advance 1).push t
  else throw unreadable

def comma (l : Lexer) : Outcome Lexer := do
  return ((← (l.allowKey true).dropPlace).advance 1).push .comma

/-- Outside of flow collections an entry, an explicit key or a value without a key may stand only
where a key may. -/
def requireStart (l : Lexer) : Outcome Unit :=
  if l.inFlow || l.keyAllowed then .ok () else .error unreadable

def blockEntry (l : Lexer) : Outcome Lexer := do
  l.requireStart
  let l := l.indentTo l.column l.count .blockList
  return ((← (l.allowKey true).dropPlace).advance 1).push .entry

def explicitKey (l : Lexer) : Outcome Lexer := do
  l.requireStart
  let l := l.indentTo l.column l.count .blockMap
  return ((← (l.allowKey !l.inFlow).dropPlace).advance 1).push .key

/-- Reads a colon. If a key may have started before it on the line, that is its key; else the
value has an empty or an explicit key. -/
def mapValue (l : Lexer) : Outcome Lexer := do
  match l.places.find? l.nesting with
  | some place =>
    let l := { l with places := l.places.erase l.nesting }.insert place.tokens .key
    let l := l.indentTo place.column place.tokens .blockMap
    return ((l.allowKey false).advance 1).push .value
  | none =>
    l.requireStart
    let l := l.indentTo l.column l.count .blockMap
    return ((l.allowKey !l.inFlow).advance 1).push .value

/-- Reads what may begin a key. -/
def keyed (l : Lexer) (read : Source → Outcome (Token × Source)) : Outcome Lexer := do
  let l := (← l.savePlace).allowKey false
  let (t, s) ← read l.source
  return { l with source := s }.push t

private def readNamed (t : String → Token) (s : Source) : Outcome (Token × Source) :=
  (Token.readAnchor s).map fun (name, s) => (t name, s)

private def readQuotedToken (quote : Char) (s : Source) : Outcome (Token × Source) :=
  (readQuoted quote s).map fun (text, s) => (.scalar false text, s)

def block (l : Lexer) (folded : Bool) : Outcome Lexer := do
  let l ← (l.allowKey true).dropPlace
  let (text, s) ← readBlock folded l.indent l.source
  return { l with source := s }.push (.scalar false text)

def plain (l : Lexer) : Outcome Lexer := do
  let l ← l.savePlace
  let (text, s, broken) := readPlain l.inFlow l.indent l.source
  return ({ l with source := s, keyAllowed := broken }).push (.scalar true text)

/-- Whether a plain text may start with a character, the rest of the text being given. -/
def startsPlain (flow : Bool) (c : Char) (rest : List Char) : Bool :=
  !(isGap c || "-?:,[]\x7b\x7d#&*!|>'\"%@`".toList.contains c) ||
    (!atGap rest && (c = '-' || (!flow && (c = '?' || c = ':'))))

/-- Reads the next token, which starts with a given character. -/
def token (l : Lexer) (c : Char) (rest : List Char) : Outcome Lexer :=
  let first := l.source.column = 0
  if c = '%' ∧ first then l.directive
  else if c = '-' ∧ first ∧ atDocumentMark l.source.rest then l.documentMark .documentStart
  else if c = '.' ∧ first ∧ atDocumentMark l.source.rest then l.documentMark .documentEnd
  else if c = '[' then l.flowStart .flowList
  else if c = '\x7b' then l.flowStart .flowMap
  else if c = ']' then l.flowEnd .flowListEnd
  else if c = '\x7d' then l.flowEnd .flowMapEnd
  else if c = ',' then l.comma
  else if c = '-' ∧ atGap rest then l.blockEntry
  else if c = '?' ∧ (l.inFlow ∨ atGap rest) then l.explicitKey
  else if c = ':' ∧ (l.inFlow ∨ atGap rest) then l.mapValue
  else if c = '*' then l.keyed (readNamed .reference)
  else if c = '&' then l.keyed (readNamed .anchor)
  else if c = '!' then l.keyed Token.readTag
  else if c = '|' ∧ !l.inFlow then l.block false
  else if c = '>' ∧ !l.inFlow then l.block true
  else if c = '\'' ∨ c = '"' then l.keyed (readQuotedToken c)
  else if startsPlain l.inFlow c rest then l.plain
  else .error unreadable

/-- Goes to the next token: passes over what lies in front of it, and ends the collections that it
does not belong to. -/
def approach (l : Lexer) : Outcome Lexer := do
  let l := l.skipBetween (l.source.rest.length + 1)
  let l ← l.dropStale
  return l.unwind l.column

/-- Ends all that has not ended at the end of the text. -/
def finish (l : Lexer) : Outcome Lexer := do
  return (← l.leaveAll).push .textEnd

/-- Reads all tokens. Where the text cannot be read any further a token stands for the failure. -/
def run (fuel : Nat) (l : Lexer) : List Token :=
  match fuel with
  | 0 => (l.push (.fault unreadable)).tokens.reverse
  | fuel + 1 =>
    match l.approach with
    | .error e => (l.push (.fault e)).tokens.reverse
    | .ok l =>
      match l.source.rest with
      | [] =>
        match l.finish with
        | .error e => (l.push (.fault e)).tokens.reverse
        | .ok l => l.tokens.reverse
      | c :: rest =>
        match l.token c rest with
        | .error e => (l.push (.fault e)).tokens.reverse
        | .ok l => run fuel l

end Lexer

/-- The tokens of a text. -/
def Token.scan (s : String) : List Token :=
  (Lexer.ofText s).run (s.length + 1)

end DocTable.Markup
