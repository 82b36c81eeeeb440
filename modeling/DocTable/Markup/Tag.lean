import DocTable.Markup.Moment
import DocTable.OrderedMap

/-!
Tags: what a scalar or a collection is meant to be. A plain scalar without a tag has one by the
shape of its text.
-/

namespace DocTable.Markup

/-- The tags that are known. -/
inductive Tag where
  | null
  | bool
  | int
  | float
  | binary
  | timestamp
  | text
  | list
  | map
  | set
  | orderedMap
  | pairs
  /-- The tag of a key whose value is merged into the map that it stands in. -/
  | merge
  /-- The tag of the key whose value stands for the whole map. -/
  | default
  | unknown
deriving DecidableEq

namespace Tag

/-- What all known tags begin with. -/
def scheme : String := "tag:yaml.org,2002:"

/-- The tag with a given name. -/
def ofName (name : String) : Tag :=
  let known : OrderedMap String Tag :=
    [("null", null), ("bool", bool), ("int", int), ("float", float), ("binary", binary),
      ("timestamp", timestamp), ("str", text), ("seq", list), ("map", map), ("set", set),
      ("omap", orderedMap), ("pairs", pairs), ("merge", merge), ("value", default)]
  (OrderedMap.find? (known.map fun (n, t) => (scheme ++ n, t)) name).getD unknown

/-! ## Shapes of plain text -/

private def dropSign : List Char → List Char
  | '-' :: rest => rest
  | '+' :: rest => rest
  | cs => cs

private def isOctal (c : Char) : Bool :=
  '0' ≤ c && c ≤ '7'

/-- Whether there are some characters and each is an underscore or satisfies the test. -/
def digitsAre (p : Char → Bool) (cs : List Char) : Bool :=
  cs ≠ [] && cs.all fun c => c = '_' || p c

/-- Whether a text is a number below sixty of one or two digits. -/
def isSixtieth : List Char → Bool
  | [c] => c.isDigit
  | [c, d] => '0' ≤ c && c ≤ '5' && d.isDigit
  | _ => false

/-- The parts of a text between its colons. -/
def colonParts (cs : List Char) : List (List Char) :=
  cs.splitOn ':'

/-- Whether a text begins with a decimal digit, and only such digits and underscores follow. -/
def isDecimal : List Char → Bool
  | [] => false
  | c :: rest => c.isDigit && rest.all fun c => c = '_' || c.isDigit

/-- Whether a text has a whole number in front and some numbers below sixty after colons. -/
def isSexagesimal (cs : List Char) : Bool :=
  match colonParts cs with
  | first :: part :: parts => isDecimal first && (part :: parts).all isSixtieth
  | _ => false

/-- Whether a text without its sign is a whole number: with base two, eight, sixteen or ten, or in
parts of sixty. -/
def isWhole (cs : List Char) : Bool :=
  match cs with
  | '0' :: 'b' :: rest => digitsAre (fun c => c = '0' || c = '1') rest
  | '0' :: 'x' :: rest => digitsAre (fun c => (Text.hexValue? c).isSome) rest
  | ['0'] => true
  | '0' :: rest => digitsAre isOctal rest
  | cs => isDecimal cs || isSexagesimal cs

private def isExponent : List Char → Bool
  | [] => true
  | e :: sign :: digits =>
    (e = 'e' || e = 'E') && (sign = '-' || sign = '+') && digits ≠ [] && digits.all Char.isDigit
  | _ => false

/-- Whether a text begins with digits or underscores and ends with an exponent or nothing. -/
def isFraction (cs : List Char) : Bool :=
  isExponent (cs.dropWhile fun c => c = '_' || c.isDigit)

/-- Whether a text is a number with a point. A sign may stand in front unless the point comes
first; the exponent must have one. -/
def isFractional (cs : List Char) : Bool :=
  match cs with
  | '.' :: rest =>
    (match rest with
      | [] => false
      | c :: _ => c.isDigit && isFraction rest) ||
    [".inf", ".Inf", ".INF", ".nan", ".NaN", ".NAN"].contains (String.ofList cs)
  | _ =>
    let body := dropSign cs
    let whole := body.takeWhile (· ≠ '.')
    match body.dropWhile (· ≠ '.') with
    | '.' :: rest =>
      if whole = [] then [".inf", ".Inf", ".INF"].contains (String.ofList body)
      else (isDecimal whole && isFraction rest) ||
        (isSexagesimal whole && rest.all fun c => c = '_' || c.isDigit)
    | _ => false

/-- The words for truth values. -/
def boolWords : List String :=
  ["yes", "Yes", "YES", "no", "No", "NO", "true", "True", "TRUE", "false", "False", "FALSE",
    "on", "On", "ON", "off", "Off", "OFF"]

def nullWords : List String :=
  ["", "~", "null", "Null", "NULL"]

/-- The tag of a plain text that has none. -/
def ofPlain (s : String) : Tag :=
  let cs := s.toList
  if boolWords.contains s then bool
  else if isFractional cs then float
  else if isWhole (dropSign cs) then int
  else if s = "<<" then merge
  else if nullWords.contains s then null
  else if Moment.isStandard cs then timestamp
  else if s = "=" then default
  else if s = "!" ∨ s = "&" ∨ s = "*" then unknown
  else text

end Tag

end DocTable.Markup
