import DocTable.Gate.Machine

/-!
Running a gate: single actions on the main thread, done to their end. An environment that answers
from scripts is given here as well.
-/

namespace DocTable

mutual

/-- How many actions there are in a callback. -/
def Callback.size : Callback → Nat
  | .noting _ actions _ => 1 + sizeOfActions actions
  | .raising => 1

/-- How many actions there are in an action. -/
def Action.size : Action → Nat
  | .ensureReady callback .. => 1 + sizeOfCallback callback
  | .onThread action => 1 + Action.size action
  | _ => 1

def sizeOfCallback : Option Callback → Nat
  | none => 0
  | some c => Callback.size c

def sizeOfActions : List Action → Nat
  | [] => 0
  | a :: rest => Action.size a + sizeOfActions rest

end

def Reaction.size (r : Reaction) : Nat :=
  1 + sizeOfActions r.actions

namespace Scene

variable {σ : Type}

/-- A bound on what is left to be done in a scene. -/
def size (s : Scene σ) (e : Environ σ) : Nat :=
  1 + e.size s.environ + s.gate.waiters.foldr (fun c n => c.size + n) 0 +
    ((s.held.map fun h => h.reaction.size).getD 0)

/-- The machine about to do an action on the main thread. -/
def machine (s : Scene σ) (action : Action) : Machine σ :=
  { scene := s, task := .act action }

/-- How many steps are allowed for an action: some for everything that there is to do. -/
def fuel (s : Scene σ) (e : Environ σ) (action : Action) : Nat :=
  64 * (s.size e + action.size)

/-- Does an action on the main thread. There is no reply if the caller is stuck. -/
def perform (s : Scene σ) (e : Environ σ) (action : Action) : Option (Outcome Value) × Scene σ :=
  let m := (s.machine action).run e (s.fuel e action)
  (match m.task, m.frames with
    | .reply r, [] => some r
    | _, _ => none, m.scene)

/-- The events so far, and the scene without them. -/
def takeLog (s : Scene σ) : List Event × Scene σ :=
  (s.log, { s with log := [] })

end Scene

/-! ## Scripts -/

/-- The answers that are left. -/
structure Scripts where
  describe : List Reaction := []
  create : List Reaction := []
  sleep : List Reaction := []

namespace Scripts

def exhausted (name : String) : Reaction where
  ending := .error (.runtime (name ++ " script exhausted"))

/-- An environment that answers from scripts. When there is no answer left, asking for it fails,
but time passes. -/
def environ : Environ Scripts where
  describe s :=
    match s.describe with
    | r :: describe => (r, { s with describe })
    | [] => (exhausted "describe", s)
  create s :=
    match s.create with
    | r :: create => (r, { s with create })
    | [] => (exhausted "create", s)
  sleep _ s :=
    match s.sleep with
    | r :: sleep => (r, { s with sleep })
    | [] => ({ ending := .ok .null }, s)
  size s := 1 + (s.describe ++ s.create ++ s.sleep).foldr (fun r n => r.size + n) 0

end Scripts

end DocTable
