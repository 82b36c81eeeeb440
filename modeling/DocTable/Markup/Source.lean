/-!
Marked-up text while it is read: what is left of it, and where that stands. Line breaks are the
line feed, the carriage return, both together, and three further characters.
-/

namespace DocTable.Markup

/-- The rest of a text and its place: the number of characters before it, its line and its
column. -/
structure Source where
  rest : List Char
  index : Nat
  line : Nat
  column : Nat

/-- The characters that end a line. -/
def isBreak (c : Char) : Bool :=
  c = '\n' || c = '\r' || c = '\x85' || c = '\u2028' || c = '\u2029'

/-- The characters that keep parts of a text apart. -/
def isGap (c : Char) : Bool :=
  c = ' ' || c = '\t' || isBreak c

/-- Whether the text ends here or goes on with a character that satisfies the test. -/
def endsOr (p : Char → Bool) : List Char → Bool
  | [] => true
  | c :: _ => p c

/-- Whether a text has a gap at its start or is empty. -/
def atGap (cs : List Char) : Bool :=
  endsOr isGap cs

/-- Whether a text has a space or a line break at its start or is empty. -/
def atSpace (cs : List Char) : Bool :=
  endsOr (fun c => c = ' ' || isBreak c) cs

/-- Whether a text begins with the mark of the start or of the end of a document. -/
def atDocumentMark : List Char → Bool
  | '-' :: '-' :: '-' :: rest => atGap rest
  | '.' :: '.' :: '.' :: rest => atGap rest
  | _ => false

/-- The characters that a marked-up text may consist of. -/
def isAllowed (c : Char) : Bool :=
  let n := c.toNat
  c = '\t' || c = '\n' || c = '\r' || (0x20 ≤ n && n ≤ 0x7E) || n == 0x85 ||
    (0xA0 ≤ n && n ≤ 0xD7FF) || (0xE000 ≤ n && n ≤ 0xFFFD) || 0x10000 ≤ n

namespace Source

/-- The text before anything is read. A byte order mark at its start is passed over. -/
def ofText (s : String) : Source :=
  match s.toList with
  | '\ufeff' :: rest => ⟨rest, 1, 0, 0⟩
  | cs => ⟨cs, 0, 0, 0⟩

/-- Passes over one character. A carriage return before a line feed does not end the line yet, and
a byte order mark takes no column. -/
def next (s : Source) : Source :=
  match s.rest with
  | [] => s
  | c :: rest =>
    if isBreak c && !(c = '\r' && rest.head? = some '\n') then ⟨rest, s.index + 1, s.line + 1, 0⟩
    else ⟨rest, s.index + 1, s.line, if c = '\ufeff' then s.column else s.column + 1⟩

/-- Passes over some characters. -/
def advance (s : Source) : Nat → Source
  | 0 => s
  | n + 1 => s.next.advance n

/-- The characters up to the first one that fails the test, and what follows them. -/
def span (s : Source) (p : Char → Bool) : List Char × Source :=
  let cs := s.rest.takeWhile p
  (cs, s.advance cs.length)

/-- Passes over the characters up to the first one that fails the test. -/
def skip (s : Source) (p : Char → Bool) : Source :=
  (s.span p).2

def skipSpaces (s : Source) : Source :=
  s.skip (· = ' ')

/-- Passes over a comment, if there is one, up to the end of the line. -/
def skipComment (s : Source) : Source :=
  if s.rest.head? = some '#' then s.skip (!isBreak ·) else s

/-- Reads a line break, if there is one. All but two kinds of breaks are read as a line feed. -/
def takeBreak (s : Source) : List Char × Source :=
  match s.rest with
  | '\r' :: '\n' :: _ => (['\n'], s.advance 2)
  | c :: _ =>
    if c = '\u2028' ∨ c = '\u2029' then ([c], s.next)
    else if isBreak c then (['\n'], s.next)
    else ([], s)
  | [] => ([], s)

theorem length_next (s : Source) : s.next.rest.length = s.rest.length - 1 := by
  rcases s with ⟨rest, i, l, c⟩
  cases rest with
  | nil => rfl
  | cons a rest => simp only [next]; split <;> simp

theorem rest_advance (s : Source) (n : Nat) : (s.advance n).rest = s.rest.drop n := by
  induction n generalizing s with
  | zero => rfl
  | succ n ih =>
    rcases s with ⟨rest, i, l, c⟩
    cases rest with
    | nil => simp [advance, next, ih]
    | cons a rest => simp only [advance, ih, next]; split <;> simp

end Source

end DocTable.Markup
