import DocTable.Markup.Token
import DocTable.Text.Units

/-!
Reading of the text of scalars: quoted, plain, and in blocks. A single line break inside of a text
is read as a space, of several all but the first remain.
-/

namespace DocTable.Markup

/-- Folds the line break at the end of a line and the breaks of the empty lines after it. -/
def fold (first breaks : List Char) : List Char :=
  if first ≠ ['\n'] then first ++ breaks
  else if breaks = [] then [' '] else breaks

private def isSpaceOrTab (c : Char) : Bool :=
  c = ' ' || c = '\t'

/-! ## Quoted text -/

/-- The character that one character after a backslash stands for. -/
def escapeOf? : Char → Option Char
  | '0' => some '\x00'
  | 'a' => some '\x07'
  | 'b' => some '\x08'
  | 't' => some '\t'
  | '\t' => some '\t'
  | 'n' => some '\n'
  | 'v' => some '\x0b'
  | 'f' => some '\x0c'
  | 'r' => some '\r'
  | 'e' => some '\x1b'
  | ' ' => some ' '
  | '"' => some '"'
  | '\\' => some '\\'
  | '/' => some '/'
  | 'N' => some '\x85'
  | '_' => some '\xa0'
  | 'L' => some '\u2028'
  | 'P' => some '\u2029'
  | _ => none

/-- The number of hexadecimal digits that follow a letter after a backslash. -/
def escapeWidth? : Char → Option Nat
  | 'x' => some 2
  | 'u' => some 4
  | 'U' => some 8
  | _ => none

/-- The number that hexadecimal digits denote. -/
def hexNumber? (cs : List Char) : Option Nat :=
  cs.foldlM (fun n c => (Text.hexValue? c).map (16 * n + ·)) 0

/-- Reads the empty lines that follow a line break in a quoted text, and the blanks in front of
what comes then. The end of the document may not come. -/
def quotedBreaks (fuel : Nat) (s : Source) : Outcome (List Char × Source) :=
  match fuel with
  | 0 => .error unreadable
  | fuel + 1 =>
    if atDocumentMark s.rest then .error unreadable
    else
      let s := s.skip isSpaceOrTab
      match s.takeBreak with
      | ([], _) => .ok ([], s)
      | (b, s) => do
        let (bs, s) ← quotedBreaks fuel s
        return (b ++ bs, s)

/-- Reads blanks in a quoted text. They remain unless a line ends with them. -/
def quotedGap (s : Source) : Outcome (List Char × Source) := do
  let (blanks, s) := s.span isSpaceOrTab
  match s.rest with
  | [] => throw unreadable
  | c :: _ =>
    if isBreak c then
      let (first, s) := s.takeBreak
      let (breaks, s) ← quotedBreaks (s.rest.length + 1) s
      return (fold first breaks, s)
    else return (blanks, s)

/-- Reads what stands after a backslash, as codes of characters or units of them. A line break
after a backslash is dropped. -/
def quotedEscape (s : Source) : Outcome (List Nat × Source) :=
  match s.rest with
  | [] => .error unreadable
  | c :: rest =>
    match escapeOf? c, escapeWidth? c with
    | some c, _ => .ok ([c.toNat], s.next)
    | none, some width =>
      match hexNumber? (rest.take width) with
      | some n =>
        if rest.length < width then .error unreadable
        else if Nat.pow 2 31 ≤ n then .error .tooLarge
        else if 0x110000 ≤ n then .error .badText
        else .ok ([n], s.advance (width + 1))
      | none => .error unreadable
    | none, none =>
      if isBreak c then do
        let s := s.takeBreak.2
        let (breaks, s) ← quotedBreaks (s.rest.length + 1) s
        return (breaks.map Char.toNat, s)
      else .error unreadable

/-- Reads a quoted text from behind its opening quote. What has been read stands last first. -/
def quotedFrom (quote : Char) (fuel : Nat) (s : Source) (read : List Nat) :
    Outcome (String × Source) :=
  match fuel with
  | 0 => .error unreadable
  | fuel + 1 =>
    match s.rest with
    | [] => .error unreadable
    | c :: rest =>
      if c = quote then
        if quote = '\'' ∧ rest.head? = some '\'' then
          quotedFrom quote fuel (s.advance 2) (c.toNat :: read)
        else .ok (String.ofList ((Text.joinUnits read.reverse).map Text.standIn), s.next)
      else if c = '\\' ∧ quote = '"' then do
        let (ns, s) ← quotedEscape s.next
        quotedFrom quote fuel s (ns.reverseAux read)
      else if isGap c then do
        let (cs, s) ← quotedGap s
        quotedFrom quote fuel s ((cs.map Char.toNat).reverseAux read)
      else quotedFrom quote fuel s.next (c.toNat :: read)

/-- Reads a quoted text from its opening quote on. -/
def readQuoted (quote : Char) (s : Source) : Outcome (String × Source) :=
  quotedFrom quote (s.rest.length + 1) s.next []

/-! ## Plain text -/

/-- The characters that end a plain text in a flow collection. -/
def isFlowSign (c : Char) : Bool :=
  ",[]\x7b\x7d".toList.contains c

/-- The number of characters of a plain text up to a blank. A colon belongs to it unless a blank
follows, a sign of flow collections only outside of them. -/
def plainLength (flow : Bool) : List Char → Nat
  | [] => 0
  | c :: rest =>
    if isGap c || (c = ':' && endsOr (fun d => isGap d || (flow && isFlowSign d)) rest) ||
        (flow && (isFlowSign c || c = '?')) then 0
    else plainLength flow rest + 1

/-- What lies between two parts of a plain text. -/
structure PlainGap where
  /-- How it is read; nothing if the text ends. -/
  read : List Char
  after : Source
  /-- Whether there is a line break. -/
  broken : Bool

/-- Reads the empty lines in a plain text and the spaces in front of what comes then. None if the
document ends. -/
def plainBreaks (fuel : Nat) (s : Source) : Option (List Char) × Source :=
  match fuel with
  | 0 => (none, s)
  | fuel + 1 =>
    let s := s.skipSpaces
    match s.takeBreak with
    | ([], _) => (some [], s)
    | (b, s) =>
      if atDocumentMark s.rest then (none, s)
      else
        let (bs, s) := plainBreaks fuel s
        (bs.map (b ++ ·), s)

def plainGap (s : Source) : PlainGap :=
  let (blanks, s) := s.span (· = ' ')
  match s.takeBreak with
  | ([], _) => ⟨blanks, s, false⟩
  | (first, s) =>
    if atDocumentMark s.rest then ⟨[], s, true⟩
    else
      match plainBreaks (s.rest.length + 1) s with
      | (some breaks, s) => ⟨fold first breaks, s, true⟩
      | (none, s) => ⟨[], s, true⟩

/-- Reads a plain text that must not go on to the left of a column. Also tells whether a line
break was passed last. -/
def plainFrom (flow : Bool) (least : Int) (fuel : Nat) (s : Source) (read : List Char) :
    String × Source × Bool :=
  match fuel with
  | 0 => (String.ofList read.reverse, s, false)
  | fuel + 1 =>
    let n := plainLength flow s.rest
    let read := (s.rest.take n).reverse ++ read
    let gap := plainGap (s.advance n)
    let next := gap.after
    if gap.read = [] || next.rest.head? = some '#' || (!flow && (next.column : Int) < least) ||
        plainLength flow next.rest = 0 then
      (String.ofList read.reverse, next, gap.broken)
    else plainFrom flow least fuel next (gap.read.reverse ++ read)

/-- Reads a plain text inside of a collection whose column is given. -/
def readPlain (flow : Bool) (indent : Int) (s : Source) : String × Source × Bool :=
  plainFrom flow (indent + 1) (s.rest.length + 1) s []

/-! ## Text in blocks -/

/-- What becomes of the line breaks at the end of a block. -/
inductive Chomping where
  | strip
  | clip
  | keep
deriving DecidableEq

private def chomping? : Char → Option Chomping
  | '+' => some .keep
  | '-' => some .strip
  | _ => none

private def depth? (c : Char) : Option Nat :=
  if c.isDigit then some (c.toNat - 48) else none

/-- Reads the head of a block: how it ends and how deep it stands, in either order. -/
def readBlockHead (s : Source) : Outcome (Chomping × Option Nat × Source) := do
  let (chomping, depth, n) : Chomping × Option Nat × Nat := match s.rest with
    | [] => (.clip, none, 0)
    | c :: rest =>
      let following := rest.head?
      match chomping? c, depth? c with
      | some chomping, _ =>
        let depth := following.bind depth?
        (chomping, depth, if depth.isSome then 2 else 1)
      | none, some depth =>
        match following.bind chomping? with
        | some chomping => (chomping, some depth, 2)
        | none => (.clip, some depth, 1)
      | none, none => (.clip, none, 0)
  if depth = some 0 then throw unreadable
  let s := s.advance n
  if !atSpace s.rest then throw unreadable
  return (chomping, depth, ← Token.skipLine s)

/-- Reads the empty lines in front of a block, and gives the widest column among them and of what
comes then. -/
def blockStart (fuel : Nat) (s : Source) (widest : Nat) : List Char × Nat × Source :=
  let s := s.skipSpaces
  let widest := max widest s.column
  match fuel with
  | 0 => ([], widest, s)
  | fuel + 1 =>
    match s.takeBreak with
    | ([], _) => ([], widest, s)
    | (b, s) =>
      let (bs, widest, s) := blockStart fuel s widest
      (b ++ bs, widest, s)

/-- Passes over spaces up to a column. -/
def skipTo (column : Nat) (s : Source) : Source :=
  s.advance (min (s.rest.takeWhile (· = ' ')).length (column - s.column))

/-- Reads the empty lines in a block at a column. -/
def blockBreaks (column : Nat) (fuel : Nat) (s : Source) : List Char × Source :=
  let s := skipTo column s
  match fuel with
  | 0 => ([], s)
  | fuel + 1 =>
    match s.takeBreak with
    | ([], _) => ([], s)
    | (b, s) =>
      let (bs, s) := blockBreaks column fuel s
      (b ++ bs, s)

/-- Reads the lines of a block at a column, from behind the given breaks on. Gives the text last
character first, the break that ends its last line, and the breaks of the empty lines behind. -/
def blockLines (folded : Bool) (column : Nat) (fuel : Nat) (s : Source) (breaks read : List Char) :
    List Char × List Char × List Char × Source :=
  match fuel, s.rest with
  | fuel + 1, c :: _ =>
    if s.column = column then
      let (line, s) := s.span (!isBreak ·)
      let (last, s) := s.takeBreak
      let read := line.reverse ++ breaks.reverse ++ read
      let (breaks, s) := blockBreaks column (s.rest.length + 1) s
      match s.rest with
      | [] => (read, last, breaks, s)
      | d :: _ =>
        if s.column ≠ column then (read, last, breaks, s)
        else
          let joined :=
            if folded && last = ['\n'] && !isSpaceOrTab c && !isSpaceOrTab d then
              if breaks = [] then [' '] else []
            else last
          blockLines folded column fuel s breaks (joined ++ read)
    else (read, [], breaks, s)
  | _, _ => (read, [], breaks, s)

/-- Reads a text in a block from its sign on, inside of a collection whose column is given. -/
def readBlock (folded : Bool) (indent : Int) (s : Source) : Outcome (String × Source) := do
  let (chomping, depth, s) ← readBlockHead s.next
  let least := max 1 (indent + 1).toNat
  let (breaks, column, s) := match depth with
    | some depth =>
      let column := least + depth - 1
      let (breaks, s) := blockBreaks column (s.rest.length + 1) s
      (breaks, column, s)
    | none =>
      let (breaks, widest, s) := blockStart (s.rest.length + 1) s 0
      (breaks, max least widest, s)
  let (read, last, breaks, s) := blockLines folded column (s.rest.length + 1) s breaks []
  let ending := match chomping with
    | .strip => []
    | .clip => last
    | .keep => last ++ breaks
  return (String.ofList (read.reverse ++ ending), s)

end DocTable.Markup
