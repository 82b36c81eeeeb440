import DocTable.Stored.Basic

/-!
Type annotations of record fields, as they are written, and the kinds of attribute values that
they ask for: `set[str]` asks for a set of texts, and so does `set[str] | None`.
-/

namespace DocTable

/-- A type annotation: a name, a type applied to others, or a choice. -/
inductive TypeExpr where
  | name (s : String)
  | applied (head : String) (arguments : List TypeExpr)
  | choice (members : List TypeExpr)

instance : Inhabited TypeExpr := ⟨.name ""⟩

namespace TypeExpr

/-! ## Reading -/

def isNameChar (c : Char) : Bool :=
  !(c = '[' || c = ']' || c = ',' || c = '|' || c = ' ')

/-- The tokens of an annotation: names and marks. A name between quotes is one name. -/
def tokens : (fuel : Nat) → List Char → List String
  | 0, _ => []
  | _ + 1, [] => []
  | fuel + 1, c :: cs =>
    if c = ' ' then tokens fuel cs
    else if isNameChar c then
      String.ofList (c :: cs.takeWhile isNameChar) :: tokens fuel (cs.dropWhile isNameChar)
    else String.singleton c :: tokens fuel cs

mutual

/-- Reads annotations with bars between them. -/
def readChoice? : (fuel : Nat) → List String → Option (TypeExpr × List String)
  | 0, _ => none
  | fuel + 1, ts => do
    match ← readOne? fuel ts with
    | (a, "|" :: rest) =>
      match ← readChoice? fuel rest with
      | (choice bs, rest) => some (choice (a :: bs), rest)
      | (b, rest) => some (choice [a, b], rest)
    | r => some r

/-- Reads a name, with arguments if there are any. -/
def readOne? : (fuel : Nat) → List String → Option (TypeExpr × List String)
  | 0, _ => none
  | _, [] => none
  | fuel + 1, head :: "[" :: rest => do
    let (arguments, rest) ← readArguments? fuel rest
    return (applied head arguments, rest)
  | _ + 1, t :: rest => some (name t, rest)

/-- Reads arguments up to the closing bracket. -/
def readArguments? : (fuel : Nat) → List String → Option (List TypeExpr × List String)
  | 0, _ => none
  | fuel + 1, ts => do
    match ← readChoice? fuel ts with
    | (a, "]" :: rest) => some ([a], rest)
    | (a, "," :: rest) =>
      let (more, rest) ← readArguments? fuel rest
      return (a :: more, rest)
    | _ => none

end

/-- The annotation that is written as a text; a text that is none is taken for a name. -/
def ofText (s : String) : TypeExpr :=
  let ts := tokens (s.length + 1) s.toList
  match readChoice? (4 * ts.length + 4) ts with
  | some (a, []) => a
  | _ => name s

/-! ## Meaning -/

mutual

def same : TypeExpr → TypeExpr → Bool
  | name a, name b => a = b
  | applied a as, applied b bs => a = b && sameAll as bs
  | choice as, choice bs => sameAll as bs
  | _, _ => false

def sameAll : List TypeExpr → List TypeExpr → Bool
  | [], [] => true
  | a :: as, b :: bs => same a b && sameAll as bs
  | _, _ => false

end

/-- A name without the module that it comes from. -/
def bareName (s : String) : String :=
  String.ofList (s.toList.reverse.takeWhile (· ≠ '.')).reverse

mutual

/-- The alternatives of an annotation. -/
def alternatives : TypeExpr → List TypeExpr
  | choice members => alternativesOfAll members
  | applied head arguments =>
    if bareName head = "Union" then alternativesOfAll arguments
    else if bareName head = "Optional" then alternativesOfAll arguments ++ [name "None"]
    else [applied head arguments]
  | a => [a]

def alternativesOfAll : List TypeExpr → List TypeExpr
  | [] => []
  | a :: rest => alternatives a ++ alternativesOfAll rest

end

def isNone : TypeExpr → Bool
  | name "None" => true
  | _ => false

/-- The annotation of what is there, if the only other alternative is that nothing is. -/
def required? (a : TypeExpr) : Option TypeExpr :=
  let distinct := a.alternatives.foldl
    (fun done b => if done.any (·.same b) then done else done ++ [b]) []
  match distinct with
  | [b] => some b
  | [b, c] => if b.isNone then some c else if c.isNone then some b else none
  | _ => none

/-- The kind for a type that is used by name. -/
def scalar? (s : String) : Option Tag :=
  match bareName s with
  | "bool" => some .bool
  | "str" => some .text
  | "int" | "float" | "Decimal" => some .number
  | "bytes" | "bytearray" => some .bytes
  | _ => none

/-- Whether a name is that of a type of sets. -/
def isSetName (s : String) : Bool :=
  ["set", "frozenset", "Set", "FrozenSet"].contains (bareName s)

/-- The kind for a type that has items or entries, whatever they are. -/
def collection? (s : String) : Option Tag :=
  match bareName s with
  | "list" | "tuple" | "List" | "Tuple" => some .list
  | "dict" | "Mapping" | "Dict" => some .map
  | _ => none

/-- The kind for a set with given members. -/
def setOf? (member : TypeExpr) : Option Tag :=
  match member with
  | name s =>
    match scalar? s with
    | some .text => some .texts
    | some .number => some .numbers
    | some .bytes => some .byteSets
    | _ => none
  | _ => none

/-- The kind that an annotation asks for, if it asks for one. A set has one type of members. -/
def kind? (a : TypeExpr) : Outcome (Option Tag) :=
  match a.required? with
  | some (name s) => .ok ((scalar? s).orElse fun _ => collection? s)
  | some (applied head arguments) =>
    if isSetName head then
      match arguments with
      | [member] => .ok (setOf? member)
      | _ => .error .badText
    else .ok (collection? head)
  | _ => .ok none

end TypeExpr

end DocTable
