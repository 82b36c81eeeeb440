import DocTable.Request.Arguments
import DocTable.Schema.Basic

/-!
Requests to create and to change tables, with the capacity that is provisioned for them.
-/

namespace DocTable

namespace Value

/-- Refuses a capacity that is not positive. -/
def checkPositive (v : Value) : Outcome Unit := do
  if (← v.less (.int 0)) || v.same (.int 0) then throw (.request .capacity)

end Value

/-- The capacity that is provisioned where none is given. -/
def defaultRead : Value := .int 10

/-- The capacity that is provisioned where none is given. -/
def defaultWrite : Value := .int 5

/-- The map of a capacity for reading and one for writing, both positive. -/
def throughput (read write : Value) : Outcome Value := do
  read.checkPositive
  write.checkPositive
  return .map [(.text "ReadCapacityUnits", read), (.text "WriteCapacityUnits", write)]

/-- The throughput of a request, the default one if none is given. -/
def throughputOr (given : Value) (byDefault : Value) : Outcome Value := do
  return .map (← (if given.truthy then given else byDefault).asMap)

/-- The throughput of the default capacities. -/
def defaultThroughput : Value :=
  .map [(.text "ReadCapacityUnits", defaultRead), (.text "WriteCapacityUnits", defaultWrite)]

/-- How a table is paid for. -/
inductive BillingMode where
  | provisioned
  | perRequest
deriving DecidableEq

namespace BillingMode

def code : BillingMode → String
  | provisioned => "PROVISIONED"
  | perRequest => "PAY_PER_REQUEST"

def ofText (s : String) : Outcome BillingMode :=
  if s = "" ∨ s = provisioned.code then .ok provisioned
  else if s = perRequest.code then .ok perRequest
  else .error (.request (.billingMode s))

/-- The mode that is asked for: a name with blanks around it, or nothing for the default. -/
def ofValue (v : Value) : Outcome BillingMode :=
  if v.truthy then
    match v with
    | .text s => ofText (Text.strip s.mended)
    | .bytes false _ => .error (.request (.billingMode v.shown))
    | .bytes true _ => .error .wrongKind
    | _ => .error .noAttribute
  else .ok provisioned

end BillingMode

/-- The first of two names that is not empty. -/
def tableNameOr (given : Value) (byDefault : Option Spelling) : Outcome Value :=
  if given.truthy then .ok given
  else match byDefault with
    | some name => if name = "" then .error (.argument .tableNameOrSchema) else .ok (.text name)
    | none => .error (.argument .tableNameOrSchema)

def pairMap (first second : String) (p : Spelling × String) : Value :=
  .map [(.text first, .text p.1), (.text second, .text p.2)]

namespace Schema

/-- The layout of the key as a part of a request. -/
def keySchemaValue (s : Schema) : Value :=
  .list (s.keySchema.map (pairMap "AttributeName" "KeyType"))

/-- The types of the key attributes as a part of a request. -/
def attributeDefinitionsValue (s : Schema) : Value :=
  .list (s.attributeDefinitions.map (pairMap "AttributeName" "AttributeType"))

/-- The request that creates a table. Only key attributes are declared. Other parameters are
passed on, but cannot replace what is computed. -/
def createRequest (s : Schema) (tableName billingMode given : Value) (others : Params) :
    Outcome Entries := do
  let mode ← BillingMode.ofValue billingMode
  let name ← tableNameOr tableName s.tableName
  let request := OrderedMap.overlay others.entries
    [(.text "TableName", name), (.text "KeySchema", s.keySchemaValue),
      (.text "AttributeDefinitions", s.attributeDefinitionsValue),
      (.text "BillingMode", .text mode.code)]
  match mode, given with
  | .provisioned, given =>
    return request.put (.text "ProvisionedThroughput") (← throughputOr given defaultThroughput)
  | .perRequest, .null => return request
  | .perRequest, _ => throw (.request .throughputNotAllowed)

end Schema

/-- The request that changes a table. Unless it is paid for by request, its throughput is given
anew. -/
def updateRequest (tableName given : Value) (others : Params) : Outcome Entries := do
  if !tableName.truthy then throw (.argument .tableName)
  let request := OrderedMap.put others.entries (.text "TableName") tableName
  let perRequest := (((others.find? "BillingMode").map fun v =>
    v.same (.text BillingMode.perRequest.code))).getD false
  if perRequest then return request
  else return request.put (.text "ProvisionedThroughput") (← throughputOr given defaultThroughput)

/-- The arguments of a request that creates a table. -/
def createSignature : Signature where
  required := []
  named := [("table_name", .null), ("billing_mode", .text BillingMode.provisioned.code),
    ("provisioned_throughput", .null)]
  takesOthers := true
  reserved := ["schema"]

/-- The arguments of a request that changes a table. -/
def updateSignature : Signature where
  named := [("provisioned_throughput", .null)]
  takesOthers := true
  reserved := ["table_name"]

/-- The arguments of a description of a table. -/
def descriptionSignature : Signature where
  required := ["table_name"]
  optional := [("status", .text "ACTIVE")]
  takesOthers := true
  reserved := []

/-- The description of a table, with further entries. -/
def tableDescription (values : List Value) (others : Params) : Outcome Value := do
  let a ← descriptionSignature.bind values others
  return .map (OrderedMap.overlay [(.text "TableName", a.get "table_name"),
    (.text "TableStatus", a.get "status")] a.others.entries)

end DocTable
