import DocTable.Client.Script

/-!
Calling the methods of a client by name, and a client that reports a metric for each call. An
error is reported by its code or its kind; an interrupt ends the call but is not reported as an
error.
-/

namespace DocTable

/-- What is reported for one call. -/
structure Metric where
  service : String
  operation : String
  ok : Bool
  errorCode : String := ""
deriving DecidableEq

/-- What a method gives. -/
inductive Reply where
  | value (v : Value)
  /-- The client itself. -/
  | client

/-- What a client has under a name. -/
inductive Member where
  | method
  | data
  | absent
deriving DecidableEq

namespace Client

/-- The methods of a client that are not operations of the store. -/
def ownMethods : List String :=
  ["expect", "assert_no_pending", "count"]

/-- What a client has under a name. -/
def member (name : String) : Member :=
  if operations.contains name || ownMethods.contains name then .method
  else if name = "calls" ∨ name = "pending" then .data
  else .absent

def textArgument (v : Value) : Outcome String :=
  match v with
  | .text s => .ok s.mended
  | v => do
    if v.hashable then throw (.argument (.operation (← v.plainText))) else throw .wrongKind

def callExpect (c : Client) (params : Params) : Outcome Client := do
  let a ← Signature.bind
    { required := ["operation"], optional := [("check", .null)],
      named := [("response", .null), ("error", .null)] } [] params
  let operation ← textArgument (a.get "operation")
  c.expect {
    operation
    check := match a.get "check" with
      | .null => .anything
      | v => .holds v
    response := a.get "response"
    error := match a.get "error" with
      | .null => none
      | _ => some .wrongKind }

/-- Calls a method by name. -/
def call (c : Client) (name : String) (params : Params) : Outcome Reply × Client :=
  if operations.contains name then
    let (r, c) := c.answer name params.entries
    (r.map .value, c)
  else if name = "expect" then
    match c.callExpect params with
    | .ok c => (.ok .client, c)
    | .error f => (.error f, c)
  else if name = "count" then
    (do
      let a ← Signature.bind { required := ["operation"] } [] params
      return .value (.int (c.count (a.get "operation"))), c)
  else
    (do
      let _ ← Signature.bind {} [] params
      c.checkNothingPending
      return .value .null, c)

end Client

/-- The code under which an outcome is reported. -/
def Metric.codeOf {α : Type} : Outcome α → String
  | .ok _ => ""
  | .error f => if f.isInterrupt then "" else if f.code = "" then f.kind else f.code

/-- The metric for an outcome. -/
def Metric.ofOutcome {α : Type} (service operation : String) (r : Outcome α) : Metric :=
  let code := codeOf r
  ⟨service, operation, code = "", code⟩

/-- The outcome of a metered call, the client after it, and what was reported. -/
structure Metered where
  reply : Outcome Reply
  client : Client
  reported : List Metric

/-- Calls a method by name and reports it. What is no method cannot be called and is not
reported. -/
def Client.meteredCall (c : Client) (service name : String) (params : Params) : Metered :=
  match Client.member name with
  | .absent => ⟨.error .noAttribute, c, []⟩
  | .data => ⟨.error .wrongKind, c, []⟩
  | .method =>
    let (r, c) := c.call name params
    ⟨r, c, [.ofOutcome service name r]⟩

/-- A method that reports its calls: the operation that it reports, and the method that it calls. -/
structure MeteredMethod where
  operation : String
  target : String

/-- A client around another one that reports a metric for each call. Its methods are kept once they
were looked up. -/
structure MeteredClient where
  service : String
  client : Client
  kept : OrderedMap String MeteredMethod := []

namespace MeteredClient

/-- The method under the name of a method. -/
def method (m : MeteredClient) (name : String) : MeteredMethod × MeteredClient :=
  match m.kept.find? name with
  | some method => (method, m)
  | none =>
    let method : MeteredMethod := ⟨name, name⟩
    (method, { m with kept := m.kept.put name method })

/-- Calls a method by name, by what is kept for it. -/
def call (m : MeteredClient) (name : String) (params : Params) : Metered × MeteredClient :=
  match Client.member name with
  | .absent => (⟨.error .noAttribute, m.client, []⟩, m)
  | .data => (⟨.error .wrongKind, m.client, []⟩, m)
  | .method =>
    let (method, m) := m.method name
    let (r, c) := m.client.call method.target params
    (⟨r, c, [.ofOutcome m.service method.operation r]⟩, { m with client := c })

end MeteredClient

/-- Whether looking up a name twice gives the same thing. Methods are kept once they were looked
up, but the list of what is pending is made anew each time. -/
def Client.sameTwice (name : String) : Outcome Bool :=
  match member name with
  | .absent => .error .noAttribute
  | .data => .ok (name ≠ "pending")
  | .method => .ok true

end DocTable
