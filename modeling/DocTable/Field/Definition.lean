import DocTable.Field.Converter
import DocTable.Stored.Basic

/-! The definition of a field: its names, its type and how its values are held. -/

namespace DocTable

/-- A field of a record. -/
structure Definition where
  /-- The name by which messages speak of the field. -/
  fieldName : Spelling
  /-- The name of the attribute that holds the field. -/
  storedName : Spelling
  /-- The code of the declared type, which may be unknown. -/
  type : String
  keyType : Option String := none
  /-- Whether values are held as texts in the JSON format. -/
  json : Bool := false
  converter : Option Converter := none

namespace Definition

/-- The code of the type under which values are held. -/
def heldType (d : Definition) : String :=
  if d.json then "S" else d.type

/-- The kind under which values are held, if the declared type is known. -/
def tag? (d : Definition) : Option Tag :=
  match Tag.ofCode? d.heldType with
  | some .null => none
  | t => t

/-- The text by which a field with its held type is shown. -/
def shown (d : Definition) : String :=
  "AttributeMapper(" ++ d.fieldName.quoted ++ ", " ++ Text.quoted d.heldType ++ ")"

end Definition

end DocTable
