import DocTable.Field.Definition

/-!
Schemas: the fields of the records of one table and which of them are its key. A schema is built
from declarations, which are refused unless they make a valid layout: one hash key, at most one
range key, known types, and a stored name of its own for every field.
-/

namespace DocTable

structure Schema where
  fields : OrderedMap Spelling Definition
  hashKey : Definition
  rangeKey : Option Definition := none
  tableName : Option Spelling := none

/-- The two roles of key fields. -/
inductive KeyRole where
  | hash
  | range
deriving DecidableEq

namespace KeyRole

def code : KeyRole → String
  | hash => "HASH"
  | range => "RANGE"

/-- The role that a key type names. -/
def ofCode? (code : String) : Option KeyRole :=
  if code = hash.code then some hash
  else if code = range.code then some range
  else none

/-- The role that a declared key type names. A list or a map names nothing that could be looked
up. -/
def ofValue? (v : Value) : Outcome (Option KeyRole) :=
  match v with
  | .text s => .ok (ofCode? s.mended)
  | v => if v.hashable then .ok none else .error .wrongKind

end KeyRole

/-- The kinds of which a field can be declared. -/
def Tag.declarable : List Tag :=
  [.text, .number, .bytes, .bool, .texts, .numbers, .byteSets, .list, .map]

/-- Whether a type code can be declared. -/
def Tag.isDeclarable (code : String) : Bool :=
  declarable.any (·.code = code)

/-- Whether a field can be a key: it is held as a text, a number or a byte string, and not in the
JSON format. -/
def Definition.canBeKey (d : Definition) : Bool :=
  !d.json && (d.type = "S" || d.type = "N" || d.type = "B")

/-- A field as it is declared: by the code of its type alone, or by its definition. -/
inductive FieldDeclaration where
  | code (type : String)
  | definition (d : Definition)

/-- The definition of a declared field. By its type alone, it is held by the attribute of its own
name. -/
def FieldDeclaration.resolve (name : Spelling) : FieldDeclaration → Definition
  | code type => { fieldName := name, storedName := name, type }
  | definition d => d

namespace Schema

/-- The key fields, hash key first. -/
def keyFields (s : Schema) : List (KeyRole × Definition) :=
  (.hash, s.hashKey) :: (s.rangeKey.toList.map fun d => (.range, d))

/-- Refuses fields of unknown types and keys of types that keys cannot have. -/
def checkTypes (s : Schema) : Outcome Unit := do
  s.fields.forM fun (name, d) =>
    if Tag.isDeclarable d.type then .ok () else .error (.layout (.attributeType name.mended d.type))
  s.keyFields.forM fun (_, d) =>
    if d.canBeKey then .ok () else .error (.layout (.keyAttribute d.fieldName.mended))

/-- A schema from its parts. -/
def ofParts (fields : OrderedMap Spelling Definition) (hashKey : Definition)
    (rangeKey : Option Definition) (tableName : Option Spelling) : Outcome Schema := do
  let s : Schema := ⟨fields, hashKey, rangeKey, tableName⟩
  s.checkTypes
  return s

/-- Refuses fields that share a stored name; `seen` tells which fields have which names. -/
def checkStoredNames (seen : OrderedMap Spelling Spelling) :
    OrderedMap Spelling Definition → Outcome Unit
  | [] => .ok ()
  | (name, d) :: rest =>
    match seen.find? d.storedName with
    | some other => .error (.layout (.sharedAttribute d.storedName.mended other.mended name.mended))
    | none => checkStoredNames (seen.put d.storedName name) rest

/-- A schema from its fields and the names of those that are declared as keys. -/
def assemble (fields : OrderedMap Spelling Definition) (hashFields rangeFields : List Spelling)
    (tableName : Option Spelling) : Outcome Schema := do
  match hashFields with
  | [hash] =>
    if 1 < rangeFields.length then throw (.layout (.rangeKeys rangeFields.length))
    if rangeFields.contains hash then throw (.layout (.bothKeys hash.mended))
    checkStoredNames [] fields
    match fields.find? hash with
    | some hashKey => ofParts fields hashKey (rangeFields.head?.bind fields.find?) tableName
    | none => throw (.layout (.hashKeys 0))
  | _ => throw (.layout (.hashKeys hashFields.length))

/-- The fields with their declared key types, and the names of the keys of both roles, while the
declarations of keys are gone through. -/
structure KeyDeclarations where
  fields : OrderedMap Spelling Definition
  hashFields : List Spelling := []
  rangeFields : List Spelling := []

/-- Declares a field to be a key. -/
def KeyDeclarations.add (done : KeyDeclarations) (name keyType : Value) :
    Outcome KeyDeclarations := do
  match ← KeyRole.ofValue? keyType with
  | none => throw (.layout (.keyType (← name.plainText) (← keyType.plainText)))
  | some role =>
    match name with
    | .text field =>
      match done.fields.find? field with
      | none => throw (.layout (.undeclaredKey field.mended))
      | some d =>
        let fields := done.fields.put field { d with keyType := some role.code }
        match role with
        | .hash => return { done with fields, hashFields := done.hashFields ++ [field] }
        | .range => return { done with fields, rangeFields := done.rangeFields ++ [field] }
    | name => throw (.layout (.undeclaredKey (← name.plainText)))

/-- A schema from declarations: which fields are keys, by name and key type, and all fields. -/
def defineFrom (keys : Entries) (fields : OrderedMap Spelling Definition)
    (tableName : Option Spelling) : Outcome Schema := do
  let done ← keys.foldlM (fun done (name, keyType) => done.add name keyType)
    { fields : KeyDeclarations }
  assemble done.fields done.hashFields done.rangeFields tableName

/-- A schema from declarations whose key types are texts. -/
def define (keys : OrderedMap Spelling Spelling) (fields : OrderedMap Spelling Definition)
    (tableName : Option Spelling := none) : Outcome Schema :=
  defineFrom (keys.map fun (name, keyType) => (.text name, .text keyType)) fields tableName

/-- The fields that some declarations stand for. -/
def resolve (declarations : OrderedMap Spelling FieldDeclaration) :
    OrderedMap Spelling Definition :=
  declarations.map fun (name, declared) => (name, declared.resolve name)

/-- A schema from declarations: the key type of each key, and a type or a definition for each
field. -/
def declare (keys : OrderedMap Spelling Spelling)
    (declarations : OrderedMap Spelling FieldDeclaration) (tableName : Option Spelling := none) :
    Outcome Schema :=
  define keys (resolve declarations) tableName

/-- The names of the key fields with their key types. -/
def keys (s : Schema) : OrderedMap Spelling String :=
  OrderedMap.ofList (s.keyFields.map fun (role, d) => (d.fieldName, role.code))

/-- The field with a given name. -/
def field (s : Schema) (name : Spelling) : Outcome Definition :=
  match s.fields.find? name with
  | some d => .ok d
  | none => .error (.unknownField name.mended)

/-- The layout of the key as it is declared to the store. -/
def keySchema (s : Schema) : List (Spelling × String) :=
  s.keyFields.map fun (role, d) => (d.storedName, role.code)

/-- The types of the key attributes as they are declared to the store. -/
def attributeDefinitions (s : Schema) : List (Spelling × String) :=
  s.keyFields.map fun (_, d) => (d.storedName, d.type)

end Schema

end DocTable
