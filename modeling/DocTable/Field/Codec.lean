import DocTable.Field.Definition
import DocTable.Stored.Writing
import DocTable.Stored.Reading
import DocTable.Json.Printer
import DocTable.Json.Reader

/-!
Writing and reading the values of one field. What is written is of the declared type; a value of
another kind is refused before any request is made.
-/

namespace DocTable

namespace Tag

/-- Whether a value is a number other than a truth value. -/
def isNumber : Value → Bool
  | .int _ | .float _ | .decimal _ => true
  | _ => false

def isBytes : Value → Bool
  | .bytes .. => true
  | _ => false

def allMembers (p : Value → Bool) : Value → Bool
  | .set _ members => members.all p
  | _ => false

/-- Whether a field of a type accepts a value. Only the outermost kind and the kinds of the members
of a set are looked at. -/
def accepts : Tag → Value → Bool
  | text, v => v.isText
  | number, v => isNumber v
  | bytes, v => isBytes v
  | bool, .bool _ => true
  | texts, v => allMembers Value.isText v
  | numbers, v => allMembers isNumber v
  | byteSets, v => allMembers isBytes v
  | list, v => v.isArray
  | map, v => v.isMap
  | _, _ => false

end Tag

namespace Definition

variable (d : Definition)

/-- A refusal of a value by the field. -/
def refusal (fault : FieldFault) : Failure :=
  .field d.fieldName.mended fault

/-- Blames the field for a value that cannot be stored. Other failures stay as they are. -/
def blaming : Outcome Attr → Outcome Attr
  | .error (.unstorable why) => .error (d.refusal (.unstorable why))
  | outcome => outcome

/-- The text that a JSON field holds for a value. -/
def jsonText (v : Value) : Outcome Value := do
  return .text ((← Json.ofValue (← v.simplified)).render .ascii)

/-- The value that is held for an application value. -/
def heldValue (v : Value) : Outcome Value := do
  let v ← match d.converter with
    | some c => c.store v
    | none => .ok v
  if d.json then jsonText v else .ok v

/-- Checks a value against the type of the field. -/
def checked (v : Value) : Outcome Tag :=
  match d.tag? with
  | some t =>
    if t.accepts v then
      if t.isSet && !v.truthy then .error (d.refusal .emptySet) else .ok t
    else .error (d.refusal (.wrongKind d.heldType v.kind))
  | none => .error (d.refusal (.wrongKind d.heldType v.kind))

/-- Writes a value. A byte string that is a value by itself is held as unchangeable. -/
def encode (v : Value) : Outcome Attr :=
  match v with
  | .null => .error (d.refusal .required)
  | v => do
    let v ← d.heldValue v
    let _ ← d.checked v
    match d.tag?, v with
    | some .bytes, .bytes _ content => .ok (.bytes false content)
    | _, v => d.blaming (Attr.ofValue v)

/-- Writes one member of a set. -/
def encodeMember (t : Tag) (v : Value) : Outcome Attr :=
  if t.accepts v then
    match t, v with
    | .bytes, .bytes _ content => .ok (.bytes false content)
    | _, v => d.blaming (Attr.ofValue v)
  else .error (d.refusal (.wrongElement t.code v.kind))

/-- Writes what may be contained in a value of the field: a member of a set, an item of a list, and
for all other types a value of the same type. -/
def encodeElement (v : Value) : Outcome Attr :=
  match d.tag?, v with
  | some .list, .null => .error (d.refusal .required)
  | some .list, v =>
    match v.toStorable with
    | .ok v => d.blaming (Attr.ofStorable v)
    | .error why => .error (.unstorable why)
  | some t, v =>
    match t.member?, v with
    | some _, .null => .error (d.refusal .required)
    | some t, v => d.encodeMember t v
    | none, v => d.encode v
  | none, v => d.encode v

/-- Reads an attribute value. The declared type does not matter: what was written by others is
read by its own kind. -/
def decode (stored : Value) : Outcome Value := do
  let v ← stored.ofAttribute
  let v ← match d.json, v with
    | true, .text s => (Json.parse s.mended).map Json.toValue
    | _, v => .ok v
  match d.converter, v with
  | none, v => .ok v
  | some _, .null => .ok .null
  | some c, v => c.load v

end Definition

end DocTable
