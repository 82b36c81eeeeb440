import DocTable.Table.Basic
import DocTable.Update.Translation

/-!
Operations on items and on the table itself. Each operation builds its request first, then passes
the gate, then makes one call; a fault in the request is found before anything is sent.
-/

namespace DocTable

namespace Table

variable (t : Table)

/-- Refuses an item without all key attributes. -/
def requireKeys (item : Item) : Outcome Unit :=
  t.schema.keyFields.forM fun (_, d) =>
    if item.has d.storedName then .ok ()
    else .error (.request (.missingKeyField d.fieldName.mended))

/-- The attributes of an item that do not belong to the key, sorted. -/
def extraAttributes (item : Item) : List Spelling :=
  (item.keys.filter fun name => !t.schema.keyFields.any fun (_, d) => d.storedName = name).mergeSort
    fun a b => !(b < a)

/-- The item of a record, with all key attributes. -/
def itemOf (record : Value) : Outcome Item := do
  let item ← t.schema.encode record
  t.requireKeys item
  return item

/-- The key that a record is: all key attributes and no other. -/
def keyOf (record : Value) : Outcome Item := do
  if !record.truthy then throw (.request .keyRequired)
  let item ← t.itemOf record
  match t.extraAttributes item with
  | [] => return item
  | extra => throw (.request (.extraKeyAttributes extra))

/-- Adds the conditions under which an operation is done, given in one of two ways. -/
def withExpected (request : Entries) (expected : Value) : Outcome Entries :=
  match expected with
  | .null => .ok request
  | expected =>
    if OrderedMap.has request (.text "Expected") then .error (.request .expectedTwice)
    else do
      let conditions ← Condition.translate t.schema.fields expected
      return request.put (.text "Expected") conditions.toValue

/-- Marks a request for a consistent read. -/
def consistent (request : Entries) (wanted : Bool) : Entries :=
  if wanted then request.put (.text "ConsistentRead") (.bool true) else request

def getRequest (key : Value) (params : Params) : Outcome Entries := do
  return consistent (t.request params [(.text "Key", (← t.keyOf key).toValue)]) t.consistentRead

def putRequest (item expected : Value) (params : Params) : Outcome Entries := do
  if !item.truthy then throw (.request .itemRequired)
  t.withExpected (t.request params [(.text "Item", (← t.itemOf item).toValue)]) expected

def deleteRequest (key expected : Value) (params : Params) : Outcome Entries := do
  t.withExpected (t.request params [(.text "Key", (← t.keyOf key).toValue)]) expected

/-- The updates of a request, which leave the key alone. -/
def updatesOf (updates : Value) : Outcome StoredUpdates :=
  Change.translate t.schema.fields t.schema.keys.keys updates

def updateItemRequest (key updates expected : Value) (params : Params) : Outcome Entries := do
  if !updates.truthy then throw (.request .updatesRequired)
  let key ← t.keyOf key
  let updates ← t.updatesOf updates
  t.withExpected (t.request params
    [(.text "Key", key.toValue), (.text "AttributeUpdates", updates.toValue)]) expected

def batchRequest (keys consistentRead : Value) (params : Params) : Outcome Entries := do
  let keys ← (← keys.iterate).mapM t.keyOf
  let wanted := consistent [(.text "Keys", .list (keys.map Item.toValue))]
    (t.consistentRead || consistentRead.truthy)
  return params.entries.put (.text "RequestItems") (.map [(.text t.name, .map wanted)])

/-- The items of the table in the response to a batch. -/
def batchItems (response : Value) : Outcome (List Value) := do
  let responses := (← response.get? "Responses").getD (.map [])
  let items := (← responses.get? t.name).getD .null
  if items.truthy then items.iterate else return []

/-- Records of the items that are there. -/
def recordsOf (items : List Value) : Outcome (List Value) := do
  return (← items.mapM t.schema.decode).filterMap id

end Table

namespace Handle

/-- Builds a request, passes the gate and makes a call. -/
def passAndCall (operation : String) (build : Table → Outcome Entries) : Session Value := do
  let t ← getTable
  let request ← lift (build t)
  let _ ← ensureReady
  call operation request

/-- The record under a name in a response; null if there is none. -/
def recordIn (name : String) (response : Value) : Session Value := do
  let t ← getTable
  lift (do return (← t.schema.decode? (← response.get? name)).getD .null)

def getItem (key : Value) (params : Params) : Session Value := do
  recordIn "Item" (← passAndCall "get_item" fun t => t.getRequest key params)

def putItem (item expected : Value) (params : Params) : Session Value := do
  recordIn "Attributes" (← passAndCall "put_item" fun t => t.putRequest item expected params)

def updateItem (key updates expected : Value) (params : Params) : Session Value := do
  recordIn "Attributes"
    (← passAndCall "update_item" fun t => t.updateItemRequest key updates expected params)

def deleteItem (key expected : Value) (params : Params) : Session Value := do
  recordIn "Attributes" (← passAndCall "delete_item" fun t => t.deleteRequest key expected params)

/-- Gets some items at once. Without keys there is nothing to be done. -/
def batchGetItems (keys consistentRead : Value) (params : Params) : Session Value := do
  match keys with
  | .null => throw (.request .keysRequired)
  | keys =>
    if keys.truthy then
      let response ← passAndCall "batch_get_item" fun t => t.batchRequest keys consistentRead params
      let t ← getTable
      lift (do return .list (← t.recordsOf (← t.batchItems response)))
    else return .list []

/-! ## The table itself: operations that do not pass the gate -/

def describeTable (params : Params) : Session Value := do
  call "describe_table" ((← getTable).request params [])

def deleteTable (params : Params) : Session Value := do
  call "delete_table" ((← getTable).request params [])

def createTable (billingMode given : Value) (params : Params) : Session Value := do
  call "create_table" (← lift ((← getTable).creation billingMode given params))

def updateTable (given : Value) (params : Params) : Session Value := do
  let t ← getTable
  call "update_table"
    (← lift (updateRequest (.text t.name) (if given.truthy then given else t.throughput) params))

def resetReadiness : Session Value :=
  gateAction .reset

def setConsistentRead (wanted : Bool) : Session Unit :=
  modify fun h => { h with table := { h.table with consistentRead := wanted } }

/-- Appends to the script of the client, as far as it can be. -/
def expectMore (script : List Expectation) : Session Unit :=
  script.forM fun e => do
    let h ← get
    let c ← lift (h.scene.environ.expect e)
    set { h with scene := { h.scene with environ := c } }

end Handle

end DocTable
