import DocTable.Value.Access

/-!
The readiness gate of a table: whether the table is known to be usable, who waits for that to be
found out, and what was found. The operations here are the moments at which the gate changes; the
order in which they can come is a matter of `Gate.Machine`.
-/

namespace DocTable

/-- The states of a gate. -/
inductive GateState where
  | unknown
  | checking
  | ready
  | failed
deriving DecidableEq

namespace GateState

def name : GateState → String
  | unknown => "unknown"
  | checking => "checking"
  | ready => "ready"
  | failed => "failed"

end GateState

/-- The number of seconds of a timeout; nothing and zero are the same. -/
def Value.seconds : Value → Binary64
  | .int n => .ofInt n
  | .float x => x
  | .decimal d => d.toBinary64
  | .bool true => .ofInt 1
  | _ => .zero

/-- What a check finds: the description of a usable table, or why there is none. -/
abbrev Finding := Outcome Entries

/-- The value that a caller gets for a finding. -/
def Finding.reply : Finding → Outcome Value
  | .ok description => .ok (.map description)
  | .error f => .error f

/-- What a caller raises who waited for a finding that is an error, with or without a limit. An
error that says that some wait took too long is taken for the end of this one. -/
def Failure.awaited (table : String) (timeout : Option Value) : Failure → Failure
  | .timeout _ => .timedOut table ((timeout.map Value.seconds).getD .zero)
  | f => f

/-- The value that a caller gets who waited for a finding. -/
def Finding.awaited (table : String) (timeout : Option Value) : Finding → Outcome Value
  | .ok description => .ok (.map description)
  | .error f => .error (f.awaited table timeout)

mutual

/-- What is called with the finding of a check. -/
inductive Callback where
  /-- Notes that it was called, does some actions and ends well or fails. -/
  | noting (name : String) (actions : List Action) (failure : Option Failure)
  /-- Fails with the error that it is given. -/
  | raising

/-- What a caller can do with a gate. -/
inductive Action where
  | ensureReady (callback : Option Callback) (block : Bool) (interval timeout : Option Value)
  | reset
  | state
  /-- Lets a check go on that was held up. -/
  | release
  /-- Does an action on a thread of its own, and waits for it. -/
  | onThread (action : Action)

end

instance : Inhabited Action := ⟨.reset⟩

instance : Inhabited Callback := ⟨.raising⟩

namespace Action

/-- The name under which an action is noted. -/
def name : Action → String
  | ensureReady .. => "ensure_ready"
  | reset => "reset"
  | state => "state"
  | release => "release"
  | onThread action => action.name

end Action

/-- A thread, by number. -/
abbrev Thread := Nat

/-- The readiness gate of a table. -/
structure Gate where
  table : String
  /-- How long a check waits before it looks again, unless its starter says otherwise. -/
  interval : Value
  state : GateState := .unknown
  error : Option Failure := none
  description : Option Entries := none
  /-- Callbacks that wait for the finding of the check, in order of arrival. -/
  waiters : List Callback := []
  /-- The thread that hands out the finding of the check. -/
  drainer : Option Thread := none
  /-- The number of the result that callers wait for. -/
  result : Nat := 0
  /-- The results that are there, the latest first. -/
  resolved : List (Nat × Finding) := []

/-- The name of the default interval, in seconds. -/
def defaultInterval : Value := .float (.ofInt 3)

/-- How a caller meets a gate. -/
inductive Entry where
  /-- There is a finding. -/
  | settled
  /-- The caller has to start a check. -/
  | starts
  /-- A check is under way. -/
  | waits
deriving DecidableEq

namespace Gate

/-- A new gate. The interval cannot be negative. -/
def make (table : String) (interval : Value := defaultInterval) : Outcome Gate := do
  if ← interval.less (.int 0) then throw (.argument .pollInterval)
  return { table, interval }

/-- How a caller on a thread meets the gate. To the thread that hands out the finding the matter is
settled already. -/
def entry (g : Gate) (thread : Thread) : Entry :=
  match g.state with
  | .unknown => .starts
  | .checking => if g.drainer = some thread then .settled else .waits
  | .ready | .failed => .settled

/-- The gate after a caller met it. A callback waits unless the matter is settled. -/
def admitCaller (g : Gate) (thread : Thread) (callback : Option Callback) : Gate :=
  match g.entry thread with
  | .settled => g
  | .starts => { g with state := .checking, waiters := g.waiters ++ callback.toList }
  | .waits => { g with waiters := g.waiters ++ callback.toList }

/-- What a caller gets from a settled gate. -/
def settledReply (g : Gate) : Outcome Value :=
  match g.error with
  | some f => .error f
  | none => .ok ((g.description.map Value.map).getD .null)

/-- Forgets the finding. That cannot be done while a check is under way. -/
def reset (g : Gate) : Outcome Gate :=
  if g.state = .checking then .error (.request (.resetInFlight g.table))
  else .ok { g with state := .unknown, error := none, description := none, result := g.result + 1 }

/-- Takes note of the finding, which a thread is going to hand out. -/
def settle (g : Gate) (thread : Thread) : Finding → Gate
  | .ok description =>
    { g with error := none, description := some description, drainer := some thread }
  | .error f => { g with error := some f, description := none, drainer := some thread }

/-- Opens or closes the gate when the finding was handed out. -/
def publish (g : Gate) (finding : Finding) : Gate :=
  { g with state := if finding.isOk then .ready else .failed, drainer := none }

/-- Gives the finding to those who wait for the result. -/
def resolve (g : Gate) (finding : Finding) : Gate :=
  { g with resolved := (g.result, finding) :: g.resolved }

/-- The finding of a check by its number. -/
def finding? (g : Gate) (number : Nat) : Option Finding :=
  (g.resolved.find? (·.1 = number)).map (·.2)

/-- The status in a description: a text that is not empty. -/
def statusOf (g : Gate) (description : Entries) : Outcome String :=
  match OrderedMap.find? description (.text "TableStatus") with
  | some (.text s) => if s = "" then .error (.request (.noStatus g.table)) else .ok s.mended
  | _ => .error (.request (.noStatus g.table))

/-- The status of a usable table. -/
def activeStatus : String := "ACTIVE"

end Gate

end DocTable
