import DocTable.Table.Items
import DocTable.Token.KeyToken

/-!
Cursors: queries and scans whose results come in pages. A cursor holds the request that the table
built, options that shape it, and the position from which the next page is read. A fetch that fails
before its page is read leaves the position as it was.
-/

namespace DocTable

inductive CursorMode where
  | query
  | scan
deriving DecidableEq

namespace CursorMode

/-- The operation by which pages are read. -/
def operation : CursorMode → String
  | query => "query"
  | scan => "scan"

def ofValue : Value → Outcome CursorMode
  | .text (.plain "query") => .ok query
  | .text (.plain "scan") => .ok scan
  | _ => .error .badText

end CursorMode

structure Cursor where
  mode : CursorMode
  /-- The request that the table built. -/
  params : Entries
  options : Entries := []
  countOnly : Bool := false
  continuationKey : Option Entries := none
  hasMore : Bool := true

/-- A page of results. -/
structure Page where
  items : List Value
  hasMore : Bool
  count : Int
  continuationKey : Option Entries
  response : Value

/-- A cursor that has moved, and the page that was read. The position moves before the number of
items is read. -/
structure Fetched where
  cursor : Cursor
  page : Outcome Page

namespace Cursor

def make (mode params : Value) : Outcome Cursor := do
  return { mode := ← CursorMode.ofValue mode, params := ← params.asMap }

/-- The token of the position; there is none at the ends. -/
def token (c : Cursor) : Outcome (Option String) :=
  match c.continuationKey with
  | none | some [] => .ok none
  | some key => (KeyToken.encode (.map key)).map some

def setOption (c : Cursor) (name : String) (v : Value) : Cursor :=
  { c with options := c.options.put (.text name) v }

def dropOption (c : Cursor) (name : String) : Cursor :=
  { c with options := c.options.erase (.text name) }

def storedNameOf (s : Schema) (field : Value) : Outcome Value :=
  match field with
  | .text name => do return .text (← s.field name).storedName
  | v => do
    if v.hashable then throw (.unknownField (← v.plainText)) else throw .wrongKind

/-- Asks for some fields only, or for all of them. -/
def withProjection (c : Cursor) (s : Schema) (fields : List Value) : Outcome Cursor := do
  if c.countOnly then throw (.request .projectionOfCount)
  match fields with
  | [] => return (c.dropOption "AttributesToGet").setOption "Select" (.text "ALL_ATTRIBUTES")
  | fields =>
    let names ← fields.mapM (storedNameOf s)
    return (c.setOption "AttributesToGet" (.list names)).setOption "Select"
      (.text "SPECIFIC_ATTRIBUTES")

/-- Limits how many items are looked at for a page. -/
def withLimit (c : Cursor) (limit : Value) : Outcome Cursor :=
  match limit with
  | .int n => if 0 < n then .ok (c.setOption "Limit" limit) else .error (.request .limit)
  | _ => .error (.request .limit)

/-- Asks for the capacity that is used to be told, in some detail. -/
def withConsumedCapacity (c : Cursor) (enabled : Value) : Cursor :=
  c.setOption "ReturnConsumedCapacity" (match enabled with
    | .text s => .text s
    | v => .text (if v.truthy then "TOTAL" else "NONE"))

/-- Asks for the number of items only. -/
def asCountOnly (c : Cursor) : Cursor :=
  ({ c with countOnly := true }.dropOption "AttributesToGet").setOption "Select" (.text "COUNT")

/-- Goes to the position that a token tells. Only failures that blame the token are turned into a
refusal. -/
def resume (c : Cursor) (token : Value) (limits : KeyToken.Nesting := {}) : Outcome Cursor :=
  match KeyToken.decode token limits >>= Value.asMap with
  | .ok key => .ok { c with continuationKey := some key, hasMore := true }
  | .error f => .error (if f.isBadValue then .request .cursor else f)

/-- The request for the page behind a key, or for the first page. -/
def request (c : Cursor) (start : Option Entries) : Entries :=
  let shaped := c.params.overlay c.options
  match start with
  | none | some [] => shaped
  | some key => shaped.put (.text "ExclusiveStartKey") (.map key)

/-- Refuses a request with parameters that are not named by texts. -/
def checkNames (request : Entries) : Outcome Unit :=
  if request.all (·.1.isText) then .ok () else .error .wrongKind

/-- The continuation key that a response gives. -/
def nextKey (response : Value) : Outcome (Option Entries) := do
  let last := (← response.get? "LastEvaluatedKey").getD .null
  if last.truthy then return some (← last.asMap) else return none

/-- What a response says about the number of items. -/
def countOf (response : Value) (items : Nat) : Outcome Int := do
  match ← response.get? "Count" with
  | some v => v.toInteger
  | none => return items

/-- Reads the items of a response. -/
def itemsOf (s : Schema) (response : Value) : Outcome (List (Option Value)) := do
  let items := (← response.get? "Items").getD .null
  if items.truthy then (← items.iterate).mapM s.decode else return []

/-- The cursor behind the page of a response, and the page. -/
def take (c : Cursor) (s : Schema) (response : Value) : Outcome Fetched := do
  let items ← itemsOf s response
  let key ← nextKey response
  let c := { c with continuationKey := key, hasMore := key.isSome }
  return {
    cursor := c
    page := do
      let count ← countOf response items.length
      return ⟨items.filterMap id, c.hasMore, count, key, response⟩ }

/-- Reads the page behind a key, or the first page. -/
def fetch (c : Cursor) (start : Option Entries) : Session Fetched := do
  let request := c.request start
  let _ ← Handle.ensureReady
  Handle.lift (checkNames request)
  let response ← Handle.call c.mode.operation request
  Handle.lift (c.take (← Handle.getTable).schema response)

/-- Reads the first page. -/
def execute (c : Cursor) : Session Fetched :=
  c.fetch none

/-- Reads the next page. -/
def fetchNext (c : Cursor) : Session Fetched :=
  if c.hasMore then c.fetch c.continuationKey else throw .noMoreData

/-! ## Streams -/

/-- What came of a stream: the items that were read, the cursor behind them, and why it broke off,
if it did. -/
structure Streamed where
  items : List Value
  cursor : Cursor
  failure : Option Failure

/-- Refuses to stream a scan. -/
def checkStreams (c : Cursor) : Outcome Unit :=
  match c.mode with
  | .query => .ok ()
  | .scan => .error .streamedScan

/-- Reads items page by page, at most `wanted`, with at most `fuel` pages. A page is read when its
first item is asked for. -/
def streamPages : (fuel : Nat) → (wanted : Nat) → (first : Bool) → Cursor → Handle →
    Streamed × Handle
  | 0, _, _, c, h => (⟨[], c, none⟩, h)
  | fuel + 1, wanted, first, c, h =>
    if wanted = 0 then (⟨[], c, none⟩, h)
    else
      match (if first then c.execute else c.fetchNext).run.run h with
      | (.error f, h) => (⟨[], c, some f⟩, h)
      | (.ok ⟨c, .error f⟩, h) => (⟨[], c, some f⟩, h)
      | (.ok ⟨c, .ok page⟩, h) =>
        let items := page.items.take wanted
        if page.hasMore then
          let (s, h) := streamPages fuel (wanted - items.length) false c h
          ({ s with items := items ++ s.items }, h)
        else (⟨items, c, none⟩, h)

/-- Reads at most `wanted` items of all pages. -/
def stream (c : Cursor) (wanted : Nat) (h : Handle) : Streamed × Handle :=
  streamPages (h.scene.environ.script.length + 2) wanted true c h

end Cursor

namespace Table

variable (t : Table)

def queryRequest (keyConditions : Value) (params : Params) : Outcome Entries := do
  if !keyConditions.truthy then throw (.request .keyRequired)
  let conditions ← Condition.translate t.schema.fields keyConditions
  return consistent (t.request params [(.text "KeyConditions", conditions.toValue)])
    t.consistentRead

def scanRequest (filter : Value) (params : Params) : Outcome Entries := do
  let request := t.request params []
  if filter.truthy then
    let conditions ← Condition.translate t.schema.fields filter
    return request.put (.text "ScanFilter") conditions.toValue
  else return request

/-- A cursor over the items whose key satisfies conditions. -/
def query (keyConditions : Value) (params : Params) : Outcome Cursor := do
  return { mode := .query, params := ← t.queryRequest keyConditions params }

/-- A cursor over all items, or over those that satisfy conditions. -/
def scan (filter : Value) (params : Params) : Outcome Cursor := do
  return { mode := .scan, params := ← t.scanRequest filter params }

end Table

end DocTable
