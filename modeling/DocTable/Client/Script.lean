import DocTable.Request.Arguments

/-!
A client of the store that answers from a script. Operations must come in the order of the script;
a request can be checked, and the answer is a response or an error. All calls are recorded.
-/

namespace DocTable

/-- The operations of the store. -/
def operations : List String :=
  ["get_item", "put_item", "update_item", "delete_item", "batch_get_item", "query", "scan",
    "describe_table", "create_table", "update_table", "delete_table"]

/-- What a request is checked for. -/
inductive RequestCheck where
  | anything
  /-- Every entry of the expected map must be there; lists must agree in every item. -/
  | holds (expected : Value)
  | lacks (keys : List String)

/-- One call that is expected, and what it is answered with. -/
structure Expectation where
  operation : String
  check : RequestCheck := .anything
  response : Value := .null
  error : Option Failure := none

/-- A scripted client: what is still expected, and the calls that came. -/
structure Client where
  script : List Expectation := []
  calls : List (String × Entries) := []

/-- The error of an operation with a response. The response is a map, and so are the parts of it
that tell of the error. -/
def ServiceError.ofResponse (response : Value) (operation : String) : Outcome ServiceError :=
  match response with
  | .map entries =>
    if isMapUnder entries "ResponseMetadata" && isMapUnder entries "Error" then
      .ok ⟨entries, operation⟩
    else .error .noAttribute
  | .null | .bool _ | .int _ | .float _ | .decimal _ => .error .wrongKind
  | _ => .error .noAttribute
where
  isMapUnder (entries : Entries) (name : String) : Bool :=
    ((OrderedMap.find? entries (.text name)).map Value.isMap).getD true

namespace Value

def isSignaling : Value → Bool
  | decimal (.nan _ signaling _) => signaling
  | _ => false

/-- Whether two values without parts are equal. A signaling not-a-number cannot be compared with
a number. -/
def equal (a b : Value) : Outcome Bool :=
  if (a.isSignaling && b.number?.isSome) || (b.isSignaling && a.number?.isSome) then
    .error .signalingComparison
  else .ok (a.same b)

/-- The items of a value that is compared item by item. -/
def sequence? : Value → Option (List Value)
  | list items | tuple items => some items
  | bytes true content => some (content.map fun b => int b.toNat)
  | _ => none

/-- Refuses a value that is not equal to the expected one. The refusal shows both. -/
def expectEqual (path : String) (expected actual : Value) : Outcome Unit := do
  if ← expected.equal actual then return ()
  throw (.mismatch (.differs path (← expected.shownText) (← actual.shownText)))

def itemPath (path : String) (index : Nat) : String :=
  path ++ "[" ++ naturalText index ++ "]"

/-- Refuses the first of some items that is not equal to the expected one. -/
def expectEqualItems (path : String) (index : Nat) : List Value → List Value → Outcome Unit
  | e :: es, a :: as => do
    expectEqual (itemPath path index) e a
    expectEqualItems path (index + 1) es as
  | _, _ => .ok ()

/-- The items to compare with `count` expected ones. -/
def itemsToMatch (path : String) (count : Nat) (actual : Value) : Outcome (List Value) :=
  match actual.sequence? with
  | none => .error (.mismatch (.listExpected path actual.kind))
  | some items =>
    if count = items.length then .ok items
    else .error (.mismatch (.length path count items.length))

mutual

/-- Refuses a value that does not hold what is expected. -/
def expectMatch (path : String) (expected actual : Value) : Outcome Unit :=
  match expected with
  | wildcard => .ok ()
  | map entries =>
    match actual with
    | map found => expectEntries path entries found
    | actual => .error (.mismatch (.mapExpected path actual.kind))
  | list items => do expectItems path 0 items (← itemsToMatch path items.length actual)
  | tuple items => do expectItems path 0 items (← itemsToMatch path items.length actual)
  | bytes true content => do
    expectEqualItems path 0 (content.map fun b => int b.toNat)
      (← itemsToMatch path content.length actual)
  | expected => expectEqual path expected actual

def expectEntries (path : String) : List (Value × Value) → Entries → Outcome Unit
  | [], _ => .ok ()
  | (k, v) :: rest, found =>
    match found.find? k with
    | none => do throw (.mismatch (.missing path (← k.shownText)))
    | some actual => do
      expectMatch (path ++ "." ++ (← k.plainText)) v actual
      expectEntries path rest found

def expectItems (path : String) (index : Nat) : List Value → List Value → Outcome Unit
  | e :: es, a :: as => do
    expectMatch (itemPath path index) e a
    expectItems path (index + 1) es as
  | _, _ => .ok ()

end

end Value

/-- Checks a request. -/
def RequestCheck.run (c : RequestCheck) (operation : String) (request : Entries) : Outcome Unit :=
  match c with
  | anything => .ok ()
  | holds expected => expected.expectMatch operation (.map request)
  | lacks keys =>
    match keys.find? fun k : String => request.has (.text k) with
    | some k => .error (.mismatch (.forbidden k))
    | none => .ok ()

namespace Client

/-- Appends an expectation to the script. -/
def expect (c : Client) (e : Expectation) : Outcome Client :=
  if operations.contains e.operation then .ok { c with script := c.script ++ [e] }
  else .error (.argument (.operation e.operation))

/-- The call by which a table finds out that it is usable. -/
def activeTable (table : Value) : Expectation where
  operation := "describe_table"
  check := .holds (.map [(.text "TableName", table)])
  response := .map [(.text "Table",
    .map [(.text "TableName", table), (.text "TableStatus", .text "ACTIVE")])]

/-- The answer to an expected call. -/
def respond (e : Expectation) (operation : String) (request : Entries) : Outcome Value := do
  if e.operation ≠ operation then throw (.mismatch (.operation e.operation operation))
  e.check.run operation request
  match e.error with
  | some f => .error f
  | none => if e.response.truthy then return .map (← e.response.asMap) else .ok (.map [])

/-- Answers a call and records it. A call that is not the expected one uses up the expectation. -/
def answer (c : Client) (operation : String) (request : Entries) : Outcome Value × Client :=
  let calls := c.calls ++ [(operation, request)]
  match c.script with
  | [] => (.error (.mismatch (.unexpected operation)), { c with calls })
  | e :: script => (respond e operation request, ⟨script, calls⟩)

/-- The operations that are still expected. -/
def pending (c : Client) : List String :=
  c.script.map (·.operation)

def checkNothingPending (c : Client) : Outcome Unit :=
  if c.script.isEmpty then .ok () else .error (.mismatch (.pending c.pending))

/-- How often an operation was called. -/
def count (c : Client) (operation : Value) : Nat :=
  c.calls.countP fun (name, _) => (Value.text name).same operation

end Client

end DocTable
