import DocTable.Field.Codec
import DocTable.Schema.Basic

/-!
Whole records: an item of the store is a map from stored names to attribute values. Fields without
a value, and fields with an empty set, which the store cannot hold, have no attribute.
-/

namespace DocTable

/-- The attributes of an item, by stored name. -/
abbrev Item := OrderedMap Spelling Attr

/-- An item as the map that is sent. -/
def Item.toValue (item : Item) : Value :=
  .map (Attr.toEntries item)

/-- Whether a field with this value has no attribute. -/
def Value.isAbsent : Value → Bool
  | .null => true
  | .set _ members => members.isEmpty
  | _ => false

namespace Schema

variable (s : Schema)

/-- The entries of a record. Fields of an object that are not in the schema do not count, entries
of a map do. -/
def entriesOf (record : Value) : Outcome Entries :=
  match record with
  | .record fields =>
    .ok ((fields.filter fun (name, _) => s.fields.has name).map fun (name, v) => (.text name, v))
  | .map entries => .ok entries
  | v => .error (.request (.recordKind v.kind))

/-- Writes one field into an item. -/
def writeField (item : Item) (name : Spelling) (v : Value) : Outcome Item := do
  let d ← s.field name
  if v.isAbsent then .ok item else return item.put d.storedName (← d.encode v)

/-- Writes a record as an item. -/
def encode (record : Value) : Outcome Item := do
  (← s.entriesOf record).foldlM (fun item (k, v) => do s.writeField item (← k.spelled) v) []

/-- Reads the fields that an item has attributes for; other attributes are passed over. -/
def readFields (item : Value) : List (Spelling × Definition) → Outcome (List (Spelling × Value))
  | [] => .ok []
  | (name, d) :: rest => do
    if ← item.hasName d.storedName then
      let v ← d.decode (← item.atName d.storedName)
      return (name, v) :: (← readFields item rest)
    else readFields item rest

/-- Reads an item as a record; no item gives no record. -/
def decode (item : Value) : Outcome (Option Value) :=
  match item with
  | .null => .ok none
  | item => do
    let fields ← readFields item s.fields
    return some (.map (fields.map fun (name, v) => (.text name, v)))

/-- Reads an item where none may be given. -/
def decode? (item : Option Value) : Outcome (Option Value) :=
  match item with
  | some item => s.decode item
  | none => .ok none

end Schema

end DocTable
