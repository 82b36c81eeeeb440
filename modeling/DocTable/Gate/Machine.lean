import DocTable.Gate.Basic

/-!
How callers and checks move a gate. A check asks the environment to describe the table, to create
it if it does not exist, and to let time pass until it is usable; then the finding is handed to all
who wait for it. Whatever is asked for may do further actions on the gate before it answers.

The machine makes one step at a time. What is being done is a `Task`, what is to be done with its
reply is the `Frame` on top. A check that runs in the background is run as soon as it is started;
it can be held up, and goes on when it is released.
-/

namespace DocTable

/-- How the environment answers: it may hold the check up, does some actions, and gives a value or
fails. -/
structure Reaction where
  hold : Bool := false
  actions : List Action := []
  ending : Outcome Value

/-- What a check asks of its environment. `size` bounds how often a check can be kept going. -/
structure Environ (σ : Type) where
  describe : σ → Reaction × σ
  create : σ → Reaction × σ
  sleep : Value → σ → Reaction × σ
  size : σ → Nat

/-- What a check is doing. -/
inductive Phase where
  | describeFirst
  | create
  | sleep
  | describeAgain
deriving DecidableEq

/-- What can be observed. -/
inductive Event where
  | describe
  | create
  | sleep (seconds : Value)
  | callback (name : String) (error : Option Failure) (description : Option Entries)
  | action (name : String) (reply : Outcome Value)

/-- A check that is held up. -/
structure HeldCheck where
  thread : Thread
  phase : Phase
  interval : Value
  reaction : Reaction

/-- What is going to be done with a reply. -/
inductive Frame where
  /-- The reply of an action among others: note it, do the others and end. -/
  | actions (done : String) (rest : List Action) (ending : Outcome Value)
  /-- The end of an action on a thread of its own. -/
  | joins (thread : Thread)
  /-- The reply of a callback that was called at once. -/
  | called (block : Bool)
  /-- The reply of the environment. -/
  | checks (phase : Phase) (interval : Value)
  /-- The reply of a callback that waited. -/
  | delivers (finding : Finding)
  /-- The end of a check that the caller runs. -/
  | awaits (number : Nat)
  /-- The end of a check in the background, or its being held up: its starter goes on. -/
  | started (thread : Thread) (block : Bool) (number : Nat) (timeout : Option Value)
  /-- The end of a check that was released, or its being held up again. -/
  | released (thread : Thread)

/-- What is being done. -/
inductive Task where
  | act (action : Action)
  | call (callback : Callback) (error : Option Failure) (description : Option Entries)
  | ask (phase : Phase) (interval : Value)
  | react (actions : List Action) (ending : Outcome Value)
  | finish (finding : Finding)
  | deliver (finding : Finding)
  | resolve (finding : Finding)
  | look (number : Nat) (timeout : Option Value)
  | reply (r : Outcome Value)

/-- The gate and all around it. -/
structure Scene (σ : Type) where
  gate : Gate
  environ : σ
  held : Option HeldCheck := none
  /-- The number of the next thread; the main thread has the number zero. -/
  fresh : Thread := 1
  log : List Event := []

/-- The machine. -/
structure Machine (σ : Type) where
  scene : Scene σ
  thread : Thread := 0
  task : Task
  frames : List Frame := []

namespace Scene

variable {σ : Type}

def note (s : Scene σ) (e : Event) : Scene σ :=
  { s with log := s.log ++ [e] }

def withGate (s : Scene σ) (g : Gate) : Scene σ :=
  { s with gate := g }

/-- Asks the environment for what a check does. -/
def ask (s : Scene σ) (e : Environ σ) (phase : Phase) (interval : Value) : Reaction × Scene σ :=
  let (reaction, environ) := match phase with
    | .describeFirst | .describeAgain => e.describe s.environ
    | .create => e.create s.environ
    | .sleep => e.sleep interval s.environ
  (reaction, { s with environ })

end Scene

/-- The event of asking. -/
def Phase.event (phase : Phase) (interval : Value) : Event :=
  match phase with
  | .describeFirst | .describeAgain => .describe
  | .create => .create
  | .sleep => .sleep interval

namespace Frame

/-- Whether a check that ends here runs in the background. -/
def endsBackground : Frame → Bool
  | started .. | released _ => true
  | _ => false

end Frame

/-- What a check does with the description that it got. -/
def Gate.afterDescription (g : Gate) (interval : Value) (answer : Value) : Task :=
  match answer.asMap with
  | .error f => .finish (.error f)
  | .ok description =>
    match g.statusOf description with
    | .error f => .finish (.error f)
    | .ok status =>
      if status = Gate.activeStatus then .finish (.ok description) else .ask .sleep interval

/-- What a check does with the answer of the environment. -/
def Gate.afterAnswer (g : Gate) (phase : Phase) (interval : Value) : Outcome Value → Task
  | .error f =>
    if phase = .describeFirst ∧ f.isNotFound then .ask .create interval else .finish (.error f)
  | .ok answer =>
    if phase = .sleep then .ask .describeAgain interval else g.afterDescription interval answer

namespace Machine

variable {σ : Type}

/-- Goes on with a task and the same frames. -/
def goOn (m : Machine σ) (task : Task) : Machine σ :=
  { m with task }

/-- Goes on with a task whose reply is for a new frame. -/
def push (m : Machine σ) (frame : Frame) (task : Task) : Machine σ :=
  { m with task, frames := frame :: m.frames }

/-- Goes on with a task on another thread. -/
def onThread (m : Machine σ) (thread : Thread) (task : Task) : Machine σ :=
  { m with task, thread }

/-- Replies to a caller for whom the matter is settled. -/
def replySettled (m : Machine σ) (block : Bool) : Machine σ :=
  m.goOn (.reply (if block then m.scene.gate.settledReply else .ok .null))

/-- Starts a thread. -/
def spawn (m : Machine σ) (frame : Frame) (task : Task) : Machine σ :=
  { scene := { m.scene with fresh := m.scene.fresh + 1 }
    thread := m.scene.fresh
    task
    frames := frame :: m.frames }

/-- A caller asks for the table to be ready. It runs the check itself only if it waits for as long
as that takes. -/
def ensureReady (m : Machine σ) (callback : Option Callback) (block : Bool)
    (interval timeout : Option Value) : Machine σ :=
  let gate := m.scene.gate
  let callback := if !block && callback.isNone then some .raising else callback
  let m' := { m with scene := m.scene.withGate (gate.admitCaller m.thread callback) }
  match gate.entry m.thread with
  | .settled =>
    match callback with
    | some c => m'.push (.called block) (.call c gate.error gate.description)
    | none => m'.replySettled block
  | .starts =>
    let check := Task.ask .describeFirst (interval.getD gate.interval)
    if block && timeout.isNone then m'.push (.awaits gate.result) check
    else m'.spawn (.started m.thread block gate.result timeout) check
  | .waits => m'.goOn (if block then .look gate.result timeout else .reply (.ok .null))

/-- Lets a check go on that was held up. -/
def release (m : Machine σ) : Machine σ :=
  match m.scene.held with
  | none => m.goOn (.reply (.ok .null))
  | some h =>
    { scene := { m.scene with held := none }
      thread := h.thread
      task := .react h.reaction.actions h.reaction.ending
      frames := .checks h.phase h.interval :: .released m.thread :: m.frames }

def act (m : Machine σ) : Action → Machine σ
  | .onThread action => m.spawn (.joins m.thread) (.act action)
  | .state => m.goOn (.reply (.ok (.text m.scene.gate.state.name)))
  | .reset =>
    match m.scene.gate.reset with
    | .ok gate => { m with scene := m.scene.withGate gate, task := .reply (.ok .null) }
    | .error f => m.goOn (.reply (.error f))
  | .release => m.release
  | .ensureReady callback block interval timeout => m.ensureReady callback block interval timeout

/-- A callback is called. -/
def call (m : Machine σ) (error : Option Failure) (description : Option Entries) :
    Callback → Machine σ
  | .noting name actions failure =>
    { m with
      scene := m.scene.note (.callback name error description)
      task := .react actions (match failure with
        | some f => .error f
        | none => .ok .null) }
  | .raising =>
    m.goOn (.reply (match error with
      | some f => .error f
      | none => .ok .null))

/-- A check asks its environment. In the background it can be held up. -/
def ask (m : Machine σ) (e : Environ σ) (phase : Phase) (interval : Value) : Machine σ :=
  let (reaction, scene) := (m.scene.note (phase.event interval)).ask e phase interval
  if reaction.hold && (m.frames.head?.map Frame.endsBackground).getD false then
    { m with
      scene := { scene with held := some ⟨m.thread, phase, interval, reaction⟩ }
      task := .reply (.ok .null) }
  else
    { m with scene }.push (.checks phase interval) (.react reaction.actions reaction.ending)

def react (m : Machine σ) (ending : Outcome Value) : List Action → Machine σ
  | [] => m.goOn (.reply ending)
  | action :: rest => m.push (.actions action.name rest ending) (.act action)

/-- Hands the finding to the next callback that waits, or publishes it. -/
def deliver (m : Machine σ) (finding : Finding) : Machine σ :=
  let gate := m.scene.gate
  match gate.waiters with
  | [] => { m with scene := m.scene.withGate (gate.publish finding), task := .resolve finding }
  | callback :: waiters =>
    { m with scene := m.scene.withGate { gate with waiters } }.push (.delivers finding)
      (match finding with
        | .ok description => .call callback none (some description)
        | .error f => .call callback (some f) none)

/-- Gives the finding to those who wait for the result. A check that was interrupted goes on to
interrupt who ran it. -/
def resolve (m : Machine σ) (finding : Finding) : Machine σ :=
  { m with
    scene := m.scene.withGate (m.scene.gate.resolve finding)
    task := .reply (match finding with
      | .error f => if f.isInterrupt then .error f else .ok .null
      | .ok _ => .ok .null) }

/-- Goes on with the reply for the frame on top. -/
def resume (m : Machine σ) (r : Outcome Value) : Frame → Machine σ
  | .actions done rest ending =>
    { m with scene := m.scene.note (.action done r), task := .react rest ending }
  | .joins thread => m.onThread thread (.reply r)
  | .called block =>
    match r with
    | .ok _ => m.replySettled block
    | .error f => m.goOn (.reply (.error f))
  | .checks phase interval => m.goOn (m.scene.gate.afterAnswer phase interval r)
  | .delivers finding =>
    match r with
    | .error f => m.goOn (if f.isInterrupt then .reply (.error f) else .deliver finding)
    | .ok _ => m.goOn (.deliver finding)
  | .awaits number =>
    match r with
    | .ok _ => m.goOn (.look number none)
    | .error f => m.goOn (.reply (.error f))
  | .started thread block number timeout =>
    m.onThread thread (if block then .look number timeout else .reply (.ok .null))
  | .released thread => m.onThread thread (.reply (.ok .null))

/-- Looks for a result. Who waits without a limit is stuck as long as there is none. -/
def look (m : Machine σ) (number : Nat) (timeout : Option Value) : Option (Machine σ) :=
  match m.scene.gate.finding? number, timeout with
  | some finding, _ => some (m.goOn (.reply (finding.awaited m.scene.gate.table timeout)))
  | none, some t =>
    some (m.goOn (.reply (.error (.timedOut m.scene.gate.table t.seconds))))
  | none, none => none

/-- Makes a step. There is none when the reply is there that nobody waits for, or when the caller
is stuck. -/
def step? (e : Environ σ) (m : Machine σ) : Option (Machine σ) :=
  match m.task with
  | .act action => some (m.act action)
  | .call callback error description => some (m.call error description callback)
  | .ask phase interval => some (m.ask e phase interval)
  | .react actions ending => some (m.react ending actions)
  | .finish finding =>
    some { m with
      scene := m.scene.withGate (m.scene.gate.settle m.thread finding)
      task := .deliver finding }
  | .deliver finding => some (m.deliver finding)
  | .resolve finding => some (m.resolve finding)
  | .look number timeout => m.look number timeout
  | .reply r =>
    match m.frames with
    | [] => none
    | frame :: frames => some ({ m with frames }.resume r frame)

/-- Makes steps as long as there are any, at most `fuel`. -/
def run (e : Environ σ) : (fuel : Nat) → Machine σ → Machine σ
  | 0, m => m
  | fuel + 1, m =>
    match m.step? e with
    | some m => run e fuel m
    | none => m

end Machine

end DocTable
