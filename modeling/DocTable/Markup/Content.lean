import DocTable.Markup.Node
import DocTable.Text.Integer
import DocTable.Token.Base64

/-!
The value of a document. Main function: `Markup.read`, from text to value. If a document has
several faults, the one that is nearest to its root is reported, and of equally near ones the
first.
-/

namespace DocTable.Markup

/-! ## Scalars -/

/-- Reads a floating point number: digits of any script with a point and an exponent, or the name
of a special one, with blanks around them. -/
def float? (cs : List Char) : Option Binary64 :=
  match Decimal.ofText? (String.ofList (Text.stripBy Text.isBlank cs)) with
  | some (.nan _ signaling _) => if signaling then none else some .nan
  | some d => some d.toBinary64
  | none => none

private def orBad {α : Type} : Option α → Outcome α
  | some a => .ok a
  | none => .error .badText

/-- The integer that a text denotes without its sign. -/
def unsigned (cs : List Char) : Outcome Int :=
  match cs with
  | [] => .error .noElement
  | ['0'] => .ok 0
  | '0' :: 'b' :: rest => orBad (Text.integerIn? 2 'b' rest)
  | '0' :: 'x' :: rest => orBad (Text.integerIn? 16 'x' rest)
  | '0' :: _ => orBad (Text.integerIn? 8 'o' cs)
  | _ => do
    let parts ← orBad ((Tag.colonParts cs).mapM fun part => Text.integer? (String.ofList part))
    return parts.foldl (60 * · + ·) 0

/-- Splits the sign off a text that is not empty. -/
private def signed (cs : List Char) : Outcome (Bool × List Char) :=
  if cs = [] then .error .noElement else .ok (Decimal.splitSign cs)

/-- Underscores may stand anywhere in a number. -/
private def withoutUnderscores (s : String) : List Char :=
  s.toList.filter (· ≠ '_')

/-- The integer that a text denotes. -/
def intOf (s : String) : Outcome Int := do
  let (negative, cs) ← signed (withoutUnderscores s)
  let n ← unsigned cs
  return if negative then -n else n

/-- The sum of parts of which each counts sixty times the next one, added up from the last. -/
def sixtieths (parts : List Binary64) : Binary64 :=
  (parts.reverse.foldl (fun (total, scale) x => (total.add (x.mul (.ofInt scale)), scale * 60))
    (Binary64.zero, (1 : Int))).1

/-- The floating point number that a text denotes. -/
def floatOf (s : String) : Outcome Binary64 := do
  let (negative, cs) ← signed ((withoutUnderscores s).map Char.toLower)
  if cs = ".nan".toList then return .nan
  let x ←
    if cs = ".inf".toList then pure (.infinite false)
    else if cs.contains ':' then sixtieths <$> orBad ((Tag.colonParts cs).mapM float?)
    else orBad (float? cs)
  return if negative then x.neg else x

/-- The truth value that a word denotes. -/
def boolOf (s : String) : Outcome Bool :=
  let word := s.toLower
  if ["yes", "true", "on"].contains word then .ok true
  else if ["no", "false", "off"].contains word then .ok false
  else .error .missingKey

/-- The day or time that a text denotes. -/
def momentOf (s : String) : Outcome Value :=
  match Moment.read? s.toList with
  | none => .error .noAttribute
  | some m => if m.isReal then .ok (.other m.kind m.shown) else .error .badText

/-- The bytes that a text denotes. -/
def bytesOf (s : String) : Outcome Value :=
  match Base64.decode .plain s.toList with
  | .ok bytes => .ok (.bytes false bytes)
  | .error _ => .error unreadable

/-- The value of a text under the tag of a scalar. -/
def scalarValue (tag : Tag) (s : String) : Outcome Value :=
  match tag with
  | .null => .ok .null
  | .bool => (boolOf s).map .bool
  | .int => (intOf s).map .int
  | .float => (floatOf s).map .float
  | .binary => bytesOf s
  | .timestamp => momentOf s
  | .text => .ok (.text s)
  | _ => .error unreadable

namespace Node

def tag : Node → Tag
  | scalar t _ | list t _ | map t _ => t
  | enclosing => .unknown

/-- The node as the key of a map: the key that stands for the whole map is a text there. -/
def asKey (n : Node) : Node :=
  if n.tag = .default then
    match n with
    | scalar _ s => scalar .text s
    | list _ items => list .text items
    | map _ entries => map .text entries
    | enclosing => enclosing
  else n

mutual

/-- The number of nodes on the longest way from a node down. -/
def height : Node → Nat
  | scalar .. | enclosing => 1
  | list _ items => itemsHeight items + 1
  | map _ entries => entriesHeight entries + 1

def itemsHeight : List Node → Nat
  | [] => 0
  | n :: rest => max (height n) (itemsHeight rest)

def entriesHeight : List (Node × Node) → Nat
  | [] => 0
  | (k, v) :: rest => max (max (height k) (height v)) (entriesHeight rest)

end

mutual

/-- The text of a node where a scalar is expected. A map may name it under the key that stands
for the whole map. -/
def text? : Node → Option String
  | scalar _ s => some s
  | map _ entries => defaultText? entries
  | _ => none

def defaultText? : List (Node × Node) → Option String
  | [] => none
  | (k, v) :: rest => if k.tag = .default then text? v else defaultText? rest

end

/-! ## Merging -/

mutual

/-- The entries that a node brings into a map that it is merged into; a list of maps brings those
of all of them, the last ones first. -/
def merging? : Node → Option (List (Node × Node))
  | map _ entries => (split? entries).map fun (front, own) => front ++ own
  | list _ items => mergingAll? items
  | enclosing => some []
  | scalar .. => none

def mergingAll? : List Node → Option (List (Node × Node))
  | [] => some []
  | n :: rest => do
    let later ← mergingAll? rest
    match n with
    | map .. => return later ++ (← merging? n)
    | _ => none

/-- The entries of a map: first those that are merged into it, second its own. -/
def split? : List (Node × Node) → Option (List (Node × Node) × List (Node × Node))
  | [] => some ([], [])
  | (k, v) :: rest => do
    let (front, own) ← split? rest
    if k.tag = .merge then return ((← merging? v) ++ front, own)
    else return (front, (k.asKey, v) :: own)

end

/-- The entries of a map with those that are merged into it in front, so that its own ones
win. -/
def merged? (entries : List (Node × Node)) : Option (List (Node × Node)) :=
  (split? entries).map fun (front, own) => front ++ own

end Node

/-! ## Values -/

/-- A fault and how far from the root it was met. -/
structure Fault where
  depth : Nat
  cause : Failure

/-- What has been made of a part of a document. -/
abbrev Built (α : Type) := Except Fault α

namespace Built

def fail {α : Type} (depth : Nat) (cause : Failure) : Built α :=
  .error ⟨depth, cause⟩

def ofOutcome {α : Type} (depth : Nat) : Outcome α → Built α
  | .ok a => .ok a
  | .error cause => fail depth cause

/-- Puts two parts together. Of two faults the nearer one counts, and the first of equally near
ones. -/
def both {α β : Type} (x : Built α) (y : Built β) : Built (α × β) :=
  match x, y with
  | .ok a, .ok b => .ok (a, b)
  | .error e, .ok _ => .error e
  | .ok _, .error e => .error e
  | .error e, .error e' => .error (if e'.depth < e.depth then e' else e)

def all {α β : Type} (f : α → Built β) : List α → Built (List β)
  | [] => .ok []
  | a :: rest => (both (f a) (all f rest)).map fun (b, bs) => b :: bs

end Built

/-- Refuses a value that cannot be a key. -/
private def asMapKey (depth : Nat) (key : Built Value) : Built Value := do
  let k ← key
  if k.hashable then return k else Built.fail depth unreadable

/-- The value of a node at a depth. A key counts with all its parts as deep as the key itself. -/
def build (isKey : Bool) (depth : Nat) (n : Node) : (fuel : Nat) → Built Value
  | 0 => .fail depth unreadable
  | fuel + 1 =>
    let inner := if isKey then depth else depth + 1
    let value (n : Node) : Built Value := build isKey inner n fuel
    let entries (es : List (Node × Node)) : Built Entries :=
      match Node.merged? es with
      | none => .fail inner unreadable
      | some es =>
        (Built.all (fun (k, v) =>
          Built.both (asMapKey inner (build true inner k fuel)) (value v)) es).map .ofList
    let pair (n : Node) : Built Value :=
      match n with
      | .map _ [(k, v)] => (Built.both (value k) (value v)).map fun (k, v) => .tuple [k, v]
      | _ => .fail inner unreadable
    match n, n.tag with
    | .enclosing, _ => .fail depth (if isKey then unreadable else .endless)
    | .list _ items, .list => (Built.all value items).map .list
    | .map _ es, .map => (entries es).map .map
    | .map _ es, .set => (entries es).map fun m => .set false m.keys
    | .list _ items, .orderedMap | .list _ items, .pairs => (Built.all pair items).map .list
    | n, tag =>
      if tag matches .list | .map | .set | .orderedMap | .pairs then .fail inner unreadable
      else if tag matches .merge | .default | .unknown then .fail depth unreadable
      else
        match n.text? with
        | some s => .ofOutcome depth (scalarValue tag s)
        | none => .fail depth unreadable

/-- The value of a document. -/
def Node.value (n : Node) : Outcome Value :=
  match build false 0 n n.height with
  | .ok v => .ok v
  | .error e => .error e.cause

/-- Reads the value of the only document of a text; null if there is no document. -/
def read (s : String) : Outcome Value := do
  match ← Node.ofText? s with
  | some n => n.value
  | none => return .null

end DocTable.Markup
