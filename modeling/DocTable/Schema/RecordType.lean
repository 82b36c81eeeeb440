import DocTable.Schema.TypeExpr
import DocTable.Schema.Basic

/-!
Schemas from types of records. A field is described by its annotation and by options; the kind of
its attribute is inferred where no type is given.
-/

namespace DocTable

/-- The empty collection with which a field starts that gets no value. -/
inductive Factory where
  | set
  | list
  | map
deriving DecidableEq

def Factory.make : Factory → Value
  | set => .set false []
  | list => .list []
  | map => .map []

/-- A field of a type of records. -/
structure RecordField where
  name : String
  typeText : String
  /-- The annotation is given as text, to be resolved when the schema is made. -/
  deferred : Bool := false
  /-- The field has no options but its annotation and defaults. -/
  bare : Bool := false
  byDefault : Option Value := none
  factory : Option Factory := none
  storedName : Option Spelling := none
  type : Option String := none
  roles : List String := []
  json : Bool := false
  ignored : Bool := false
  converter : Option Converter := none

structure RecordType where
  fields : List RecordField

namespace RecordType

/-- The record with the given fields; the others get their defaults. -/
def make (t : RecordType) (given : OrderedMap String Value) : Value :=
  .record (t.fields.map fun f =>
    (f.name, ((given.find? f.name).orElse fun _ => f.byDefault.orElse fun _ =>
      f.factory.map Factory.make).getD .null))

/-- Refuses a field with two kinds of default. -/
def checkDefaults (f : RecordField) : Outcome Unit :=
  if f.byDefault.isSome && f.factory.isSome then
    .error (if f.bare then .badText else .argument .twoDefaults)
  else .ok ()

/-- Refuses a default that records would share and could change. -/
def checkDefault (f : RecordField) : Outcome Unit :=
  match f.byDefault with
  | some v => if v.hashable then .ok () else .error .badText
  | none => .ok ()

/-- Whether all annotations that are given as text can be resolved. -/
def resolvable (t : RecordType) : Bool :=
  !t.fields.any fun f => f.deferred && f.typeText = "Missing"

/-- The type code that a field gets from its annotation. -/
def inferred (t : RecordType) (f : RecordField) : Outcome String := do
  let kind ← if f.deferred && !t.resolvable then .ok none
    else (TypeExpr.ofText f.typeText).kind?
  match kind with
  | some tag => .ok tag.code
  | none => .error (.layout (.noInference f.name))

/-- The type code of a field: the one that is given, or `S` for a JSON field, or the inferred
one. -/
def typeOf (t : RecordType) (f : RecordField) : Outcome String :=
  match f.type with
  | some code => .ok code
  | none =>
    if f.json then .ok Tag.text.code
    else if f.converter.isSome then .error (.layout (.untypedConverter f.name))
    else t.inferred f

/-- The key type that the roles of a field give it. -/
def keyType? (f : RecordField) : Option String :=
  if f.roles.contains "sk" then some KeyRole.range.code
  else if f.roles.contains "pk" then some KeyRole.hash.code
  else none

def definition (t : RecordType) (f : RecordField) : Outcome Definition := do
  return {
    fieldName := f.name
    storedName := f.storedName.getD f.name
    type := ← t.typeOf f
    keyType := keyType? f
    json := f.json
    converter := f.converter }

def namesWithRole (fields : List RecordField) (role : String) : List Spelling :=
  (fields.filter (·.roles.contains role)).map fun f => .plain f.name

/-- The schema of a type of records. -/
def schema (t : RecordType) (tableName : Option Spelling) : Outcome Schema := do
  t.fields.forM checkDefaults
  t.fields.forM checkDefault
  let stored := t.fields.filter (!·.ignored)
  let definitions ← stored.mapM fun f => do return (Spelling.plain f.name, ← t.definition f)
  Schema.assemble (OrderedMap.ofList definitions) (namesWithRole stored "pk")
    (namesWithRole stored "sk") tableName

end RecordType

end DocTable
