import DocTable.Table.Cursor

/-!
The operations of tables and cursors by name, with arguments whose number and names are not known
to be right.
-/

namespace DocTable

namespace Handle

private def keyed : Signature := { required := ["key"], takesOthers := true }

private def anything : Signature := { takesOthers := true }

/-- Does an operation of a table that gives a value. -/
def invoke (name : String) (values : List Value) (params : Params) : Session Value := do
  match name with
  | "get_item" =>
    let a ← lift (keyed.bind values params)
    getItem (a.get "key") a.others
  | "put_item" =>
    let a ← lift (Signature.bind
      { required := ["item"], named := [("expected", .null)], takesOthers := true } values params)
    putItem (a.get "item") (a.get "expected") a.others
  | "update_item" =>
    let a ← lift (Signature.bind
      { required := ["key", "updates"], named := [("expected", .null)], takesOthers := true }
      values params)
    updateItem (a.get "key") (a.get "updates") (a.get "expected") a.others
  | "delete_item" =>
    let a ← lift (Signature.bind
      { required := ["key"], named := [("expected", .null)], takesOthers := true } values params)
    deleteItem (a.get "key") (a.get "expected") a.others
  | "batch_get_items" =>
    let a ← lift (Signature.bind
      { required := ["keys"], named := [("consistent_read", .null)], takesOthers := true }
      values params)
    batchGetItems (a.get "keys") (a.get "consistent_read") a.others
  | "describe_table" =>
    let a ← lift (anything.bind values params)
    describeTable a.others
  | "delete_table" =>
    let a ← lift (anything.bind values params)
    deleteTable a.others
  | "create_table" =>
    let a ← lift (Signature.bind
      { named := [("billing_mode", .text BillingMode.provisioned.code),
          ("provisioned_throughput", .null)]
        takesOthers := true
        reserved := ["self", "schema", "table_name"] } values params)
    createTable (a.get "billing_mode") (a.get "provisioned_throughput") a.others
  | "update_table" =>
    let a ← lift (Signature.bind
      { named := [("provisioned_throughput", .null)]
        takesOthers := true
        reserved := ["self", "table_name"] } values params)
    updateTable (a.get "provisioned_throughput") a.others
  | "reset_readiness" =>
    let _ ← lift (Signature.bind {} values params)
    resetReadiness
  | _ => throw .noAttribute

/-- The value of an argument, if it is given and not null. -/
private def given (v : Value) : Option Value :=
  match v with
  | .null => none
  | v => some v

/-- Asks for the table to be ready, with a callback that notes that it was called. -/
def invokeEnsureReady (callback : Option String) (values : List Value) (params : Params) :
    Session Value := do
  let a ← lift (Signature.bind
    { optional := [("callback", .null)]
      named := [("block", .bool true), ("poll_interval_seconds", .null),
        ("timeout_seconds", .null)] } values params)
  gateAction (.ensureReady (callback.map fun name => .noting name [] none)
    (a.get "block").truthy (given (a.get "poll_interval_seconds"))
    (given (a.get "timeout_seconds")))

/-- Opens a query or a scan. -/
def invokeCursor (name : String) (values : List Value) (params : Params) : Session Cursor := do
  let t ← getTable
  if name = "query" then
    let a ← lift (Signature.bind { required := ["key_conditions"], takesOthers := true }
      values params)
    lift (t.query (a.get "key_conditions") a.others)
  else
    let a ← lift (Signature.bind { optional := [("filter", .null)], takesOthers := true }
      values params)
    lift (t.scan (a.get "filter") a.others)

end Handle

namespace Cursor

/-- Shapes a cursor by a method. -/
def invoke (c : Cursor) (s : Schema) (name : String) (values : List Value) (params : Params)
    (limits : KeyToken.Nesting := {}) : Outcome Cursor := do
  match name with
  | "with_projection" =>
    if params.isEmpty then c.withProjection s values else throw .wrongKind
  | "with_limit" =>
    let a ← Signature.bind { required := ["limit"] } values params
    c.withLimit (a.get "limit")
  | "with_consumed_capacity" =>
    let a ← Signature.bind { optional := [("enabled", .bool true)] } values params
    return c.withConsumedCapacity (a.get "enabled")
  | "as_count_only" =>
    let _ ← Signature.bind {} values params
    return c.asCountOnly
  | "resume" =>
    let a ← Signature.bind { required := ["token"] } values params
    c.resume (a.get "token") limits
  | _ => throw .noAttribute

end Cursor

end DocTable
