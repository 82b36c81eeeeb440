import DocTable.Schema.Records

/-!
Schema documents: a tree with a version and an entry for each table, from which schemas are read
and in which they are shown. Main functions: `Schema.ofDocument` reads the entry of a table, and
`Schema.toDocument` shows a schema as one; converters cannot be shown.
-/

namespace DocTable

namespace Document

/-- The version that documents are written in. -/
def version : String := "1"

/-- The entry of the table with a given name. -/
def table (doc : Value) (name : Spelling) : Outcome Value := do
  match ← doc.get? "tables" with
  | some (.list tables) =>
    match tables.find? (isNamed name) with
    | some t => .ok t
    | none => .error (.document (.tableNotFound name.mended))
  | _ => .error (.document .missingTables)
where
  isNamed (name : Spelling) : Value → Bool
    | .map entries =>
      match OrderedMap.find? entries (.text "name") with
      | some v => v.same (.text name)
      | none => false
    | _ => false

mutual

/-- Refuses values that the JSON format has no form for. The path tells where they stand. -/
def checkTree (path : String) : Value → Outcome Unit
  | .null | .text _ | .bool _ | .int _ => .ok ()
  | .float x =>
    match x with
    | .finite .. => .ok ()
    | _ => .error (.document (.notFinite path))
  | .list items => checkItems path 0 items
  | .map entries => checkEntries path entries
  | v => .error (.document (.valueKind path v.kind))

def checkItems (path : String) (index : Nat) : List Value → Outcome Unit
  | [] => .ok ()
  | v :: rest => do
    checkTree (path ++ "[" ++ naturalText index ++ "]") v
    checkItems path (index + 1) rest

def checkEntries (path : String) : List (Value × Value) → Outcome Unit
  | [] => .ok ()
  | (k, v) :: rest => do
    match k with
    | .text name => checkTree (path ++ "." ++ name.mended) v
    | k => throw (.document (.keyKind path (← k.shownText)))
    checkEntries path rest

end

/-- Checks the outer form of a document: a map of the right version with some tables. -/
def check (doc : Value) : Outcome Value :=
  match doc with
  | .map entries => do
    checkTree "document" doc
    let found := (OrderedMap.find? entries (.text "schema_version")).getD .null
    unless found.same (.text version) do throw (.document (.version (← found.shownText)))
    match OrderedMap.find? entries (.text "tables") with
    | some (.list (_ :: _)) => .ok doc
    | _ => .error (.document .noTables)
  | _ => .error (.document .notMap)

/-- The definition that an entry of the attributes of a table gives. -/
def definition (table : String) (index : Nat) (entry : Value) : Outcome (Spelling × Definition) :=
  match entry with
  | .map members =>
    let member (name : String) : Value := (OrderedMap.find? members (.text name)).getD .null
    match member "field" with
    | .text field =>
      if field = "" then .error (.document (.noField table index))
      else
        match member "type" with
        | .text type =>
          if type = "" then .error (.document (.noType table field.mended))
          else do
            let stored := member "attribute"
            let storedName ← if stored.truthy then stored.spelled else .ok field
            return (field, {
              fieldName := field
              storedName := storedName
              type := type.mended
              json := (member "json").truthy })
        | _ => .error (.document (.noType table field.mended))
    | _ => .error (.document (.noField table index))
  | _ => .error (.document (.entryKind table index))

/-- The definitions of the attributes of a table, from a given index on. -/
def definitions (table : String) (index : Nat) : List Value → Outcome (List (Spelling × Definition))
  | [] => .ok []
  | entry :: rest => do
    let d ← definition table index entry
    return d :: (← definitions table (index + 1) rest)

end Document

namespace Schema

/-- The schema that the entry of a table describes. -/
def ofDocument (doc : Value) : Outcome Schema := do
  match ← doc.get? "name" with
  | some (.text name) =>
    if name = "" then throw (.document .unnamed)
    match ← doc.get? "keys" with
    | some (.map (k :: keys)) =>
      match ← doc.get? "attributes" with
      | some (.list (e :: entries)) =>
        let definitions ← Document.definitions name.mended 0 (e :: entries)
        defineFrom (k :: keys) (OrderedMap.ofList definitions) (some name)
      | _ => throw (.document (.noAttributes name.mended))
    | _ => throw (.document (.noKeys name.mended))
  | _ => throw (.document .unnamed)

/-- The entry that shows a field. -/
def fieldDocument (name : Spelling) (d : Definition) : Value :=
  .map ([(.text "field", .text name), (.text "type", .text d.type)] ++
    (if d.storedName = name then [] else [(.text "attribute", .text d.storedName)]) ++
    (if d.json then [(.text "json", .bool true)] else []))

/-- The entry of a table that shows a schema. A schema without a name gives an entry without
one. -/
def toDocument (s : Schema) : Value :=
  let name := s.tableName.getD ""
  .map ((if name = "" then [] else [(.text "name", .text name)]) ++
    [(.text "keys", .map (s.keys.map fun (name, keyType) => (.text name, .text keyType))),
      (.text "attributes", .list (s.fields.map fun (name, d) => fieldDocument name d))])

end Schema

/-- The document that shows some schemas. -/
def Document.ofSchemas (schemas : List Schema) : Value :=
  .map [(.text "schema_version", .text version),
    (.text "tables", .list (schemas.map (·.toDocument)))]

end DocTable
