import DocTable.Client.Script
import DocTable.Gate.Run
import DocTable.Request.Capacity
import DocTable.Schema.Records

/-!
Handles of tables. A handle joins a schema, a client and a readiness gate: every operation on data
passes the gate first, so that the table is described, and created if it is missing, once for each
handle.
-/

namespace DocTable

/-- What a table is opened with. -/
structure TableOptions where
  tableName : Value := .null
  consistentRead : Value := .bool false
  readCapacity : Value := defaultRead
  writeCapacity : Value := defaultWrite
  pollInterval : Value := defaultInterval
  readyAtOnce : Value := .bool false

/-- A table as an application sees it. -/
structure Table where
  schema : Schema
  name : Spelling
  consistentRead : Bool
  throughput : Value

/-- A handle: the table, the gate and the client behind it. -/
structure Handle where
  table : Table
  scene : Scene Client

/-- Operations on a handle. What an operation did is done even if it fails. -/
abbrev Session := ExceptT Failure (StateM Handle)

namespace Table

variable (t : Table)

/-- A request: the given parameters, the name of the table, and what is computed for it. -/
def request (params : Params) (computed : Entries) : Entries :=
  OrderedMap.overlay params.entries ((.text "TableName", .text t.name) :: computed)

/-- A part of a response, or an empty map in place of nothing. -/
def partOr (name : String) (response : Value) : Outcome Value := do
  let part := (← response.get? name).getD .null
  return if part.truthy then part else .map []

/-- The request that creates the table. Its own throughput is used if none is given and it is paid
for by capacity. -/
def creation (billingMode given : Value) (others : Params) : Outcome Entries :=
  let own := if billingMode.same (.text BillingMode.provisioned.code) then t.throughput else .null
  t.schema.createRequest (.text t.name) billingMode (if given.truthy then given else own) others

/-- Describing the table, for a check. -/
def describe (c : Client) : Reaction × Client :=
  let (r, c) := c.answer "describe_table" (t.request [] [])
  ({ ending := r >>= partOr "Table" }, c)

/-- Creating the table, for a check. -/
def create (c : Client) : Reaction × Client :=
  match t.creation (.text BillingMode.provisioned.code) .null [] with
  | .error f => ({ ending := .error f }, c)
  | .ok request =>
    let (r, c) := c.answer "create_table" request
    ({ ending := r >>= partOr "TableDescription" }, c)

/-- The environment of a check is the client. Time passes by itself. -/
def environ : Environ Client where
  describe := t.describe
  create := t.create
  sleep _ c := ({ ending := .ok .null }, c)
  size c := 1 + c.script.length

end Table

namespace Handle

/-- Gives an outcome that does not depend on the handle. -/
def lift {α : Type} : Outcome α → Session α
  | .ok a => pure a
  | .error f => throw f

/-- Passes the gate, or does something else with it. -/
def gateAction (action : Action) : Session Value := do
  let h ← get
  let (r, scene) := h.scene.perform h.table.environ action
  set { h with scene }
  lift (r.getD (.error (.timedOut h.table.name.mended .zero)))

/-- Waits until the table is usable. -/
def ensureReady : Session Value :=
  gateAction (.ensureReady none true none none)

/-- Calls an operation of the store. -/
def call (operation : String) (request : Entries) : Session Value := do
  let h ← get
  let (r, c) := h.scene.environ.answer operation request
  set { h with scene := { h.scene with environ := c } }
  lift r

def getTable : Session Table := do
  return (← get).table

/-- Opens a table. -/
def make (schema : Schema) (options : TableOptions) (client : Client) : Outcome Handle := do
  let name ← match options.tableName with
    | .text s => if s = "" then throw (.argument .tableNameOrSchema) else pure s
    | .null =>
      match schema.tableName with
      | some s => if s = "" then throw (.argument .tableNameOrSchema) else pure s
      | none => throw (.argument .tableNameOrSchema)
    | v => if v.truthy then throw .wrongKind else throw (.argument .tableNameOrSchema)
  let throughput ← throughput options.readCapacity options.writeCapacity
  let gate ← Gate.make name.mended options.pollInterval
  return {
    table := ⟨schema, name, options.consistentRead.truthy, throughput⟩
    scene := { gate, environ := client } }

/-- Opens a table and starts to make it ready, if that is asked for. -/
def openTable (schema : Schema) (options : TableOptions) (client : Client) : Outcome Handle := do
  let h ← make schema options client
  if options.readyAtOnce.truthy then
    let (_, h) := (gateAction (.ensureReady none false none none)).run.run h
    return h
  else return h

end Handle

end DocTable
