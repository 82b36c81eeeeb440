import DocTable.Gate.Run

/-! Runs of a gate and their traces. A trace is read off the machine, step by step: what a check
asked for and was answered, which callbacks waited, which were called and with what. Every mark
bears the number of the result that was pending when it was made, so that the marks of one number
are those between two resets: a `period`. -/

namespace DocTable

variable {σ : Type}

/-- What a check asks of its environment. -/
inductive Query where
  | describe
  | create
  | sleep (seconds : Value)

/-- What a check asks for in a phase. -/
def Phase.query (phase : Phase) (interval : Value) : Query :=
  match phase with
  | .describeFirst | .describeAgain => .describe
  | .create => .create
  | .sleep => .sleep interval

/-- The query that an event of the log tells of. -/
def Event.query? : Event → Option Query
  | .describe => some .describe
  | .create => some .create
  | .sleep seconds => some (.sleep seconds)
  | _ => none

namespace Finding

/-- The error that callbacks get for a finding. -/
def error? : Finding → Option Failure
  | .ok _ => none
  | .error f => some f

/-- The description that callbacks get for a finding. -/
def description? : Finding → Option Entries
  | .ok description => some description
  | .error _ => none

end Finding

/-! ## Marks -/

/-- What a step does, as far as a check and those who wait for it are concerned. -/
inductive Deed where
  /-- A call finds the gate unknown and starts a check that is to wait for an interval. -/
  | begun (interval : Value)
  | asked (query : Query)
  | answered (answer : Outcome Value)
  /-- The check ends; its finding is going to be handed out. -/
  | settled (finding : Finding)
  /-- A callback comes with a call and has to wait. -/
  | queued (callback : Callback)
  /-- A callback that waited is called. -/
  | delivered (callback : Callback) (error : Option Failure) (description : Option Entries)
  /-- A callback that waited and was called ends. -/
  | returned (reply : Outcome Value)
  /-- A callback comes with a call for which the matter is settled. -/
  | handed (callback : Callback)
  /-- A callback that was handed over is called. -/
  | served (callback : Callback) (error : Option Failure) (description : Option Entries)
  /-- The finding is forgotten. -/
  | reset

/-- A deed, the thread that did it and the number of the result that was pending. -/
structure Mark where
  number : Nat
  thread : Thread
  deed : Deed

/-- The callback of a call. Who does not wait and gives none gets the one that raises errors. -/
def waiter (callback : Option Callback) (block : Bool) : Option Callback :=
  if !block && callback.isNone then some .raising else callback

namespace Machine

/-- What the next step of a machine does. -/
def deeds (m : Machine σ) : List Deed :=
  match m.task with
  | .act (.ensureReady callback block interval _) =>
    match m.scene.gate.entry m.thread with
    | .starts =>
      .begun (interval.getD m.scene.gate.interval) ::
        ((waiter callback block).map .queued).toList
    | .waits => ((waiter callback block).map .queued).toList
    | .settled => ((waiter callback block).map .handed).toList
  | .act .reset => if m.scene.gate.state = .checking then [] else [.reset]
  | .call callback error description =>
    match m.frames with
    | .delivers _ :: _ => [.delivered callback error description]
    | .called _ :: _ => [.served callback error description]
    | _ => []
  | .ask phase interval => [.asked (phase.query interval)]
  | .finish finding => [.settled finding]
  | .reply r =>
    match m.frames with
    | .checks .. :: _ => [.answered r]
    | .delivers _ :: _ => [.returned r]
    | _ => []
  | _ => []

/-- The marks of the next step. -/
def marks (m : Machine σ) : List Mark :=
  m.deeds.map (⟨m.scene.gate.result, m.thread, ·⟩)

/-- The marks of the next steps, at most `fuel` many. -/
def marksOf (e : Environ σ) : (fuel : Nat) → Machine σ → List Mark
  | 0, _ => []
  | fuel + 1, m =>
    match m.step? e with
    | some m' => m.marks ++ marksOf e fuel m'
    | none => []

end Machine

/-- Runs: a new gate, actions on the main thread, each done to its end step by step, and in between
changes of the environment. -/
inductive Run (e : Environ σ) : List Mark → Machine σ → Prop where
  | start {table : String} {interval : Value} {gate : Gate}
      (made : Gate.make table interval = .ok gate) (environ : σ) (action : Action) :
      Run e [] ({ gate, environ : Scene σ }.machine action)
  | step {trace : List Mark} {m m' : Machine σ} :
      Run e trace m → m.step? e = some m' → Run e (trace ++ m.marks) m'
  | next {trace : List Mark} {m : Machine σ} {r : Outcome Value} :
      Run e trace m → m.task = .reply r → m.frames = [] → ∀ (environ : σ) (action : Action),
      Run e trace ({ m.scene with environ }.machine action)

theorem Run.run {e : Environ σ} {trace : List Mark} {m : Machine σ} (h : Run e trace m)
    (fuel : Nat) : Run e (trace ++ m.marksOf e fuel) (m.run e fuel) := by
  induction fuel generalizing trace m with
  | zero => simpa [Machine.marksOf, Machine.run] using h
  | succ fuel ih =>
    cases hs : m.step? e with
    | none => simpa [Machine.marksOf, Machine.run, hs] using h
    | some m' =>
      simp only [Machine.marksOf, Machine.run, hs, ← List.append_assoc]
      exact ih (h.step hs)

/-! ## Periods -/

/-- The marks between two resets, by the number of the result that was pending. -/
def period (trace : List Mark) (number : Nat) : List Mark :=
  trace.filter (·.number = number)

@[simp] theorem period_nil (n : Nat) : period [] n = [] := rfl

theorem period_append (trace trace' : List Mark) (n : Nat) :
    period (trace ++ trace') n = period trace n ++ period trace' n :=
  List.filter_append ..

@[simp] theorem Machine.period_marks (m : Machine σ) :
    period m.marks m.scene.gate.result = m.marks := by
  simp [period, Machine.marks]

theorem Machine.period_marks_of_ne (m : Machine σ) {n : Nat} (h : m.scene.gate.result ≠ n) :
    period m.marks n = [] := by
  simp [period, Machine.marks, h]

namespace Deed

/-- Whether a deed is one of a check itself. -/
def ofCheck : Deed → Bool
  | begun _ | asked _ | answered _ | settled _ => true
  | _ => false

def query? : Deed → Option Query
  | asked query => some query
  | _ => none

def queued? : Deed → Option Callback
  | queued callback => some callback
  | _ => none

/-- The call of a callback that waited. -/
def delivered? : Deed → Option (Callback × Option Failure × Option Entries)
  | delivered callback error description => some (callback, error, description)
  | _ => none

/-- The call of any callback. -/
def called? : Deed → Option (Callback × Option Failure × Option Entries)
  | delivered callback error description | served callback error description =>
    some (callback, error, description)
  | _ => none

/-- Whether a callback that waited ended with a request to stop. -/
def interrupted : Deed → Bool
  | returned (.error f) => f.isInterrupt
  | _ => false

def isBegun : Deed → Bool
  | begun _ => true
  | _ => false

def isReset : Deed → Bool
  | reset => true
  | _ => false

end Deed

/-- The deeds of checks in a trace. -/
def course (p : List Mark) : List Deed :=
  (p.map (·.deed)).filter Deed.ofCheck

/-- The callbacks that had to wait, in order of arrival. -/
def queued (p : List Mark) : List Callback :=
  p.filterMap (·.deed.queued?)

/-- The calls of callbacks that had to wait, in order. -/
def delivered (p : List Mark) : List (Callback × Option Failure × Option Entries) :=
  p.filterMap (·.deed.delivered?)

/-- All calls of callbacks, in order. -/
def called (p : List Mark) : List (Callback × Option Failure × Option Entries) :=
  p.filterMap (·.deed.called?)

/-- Whether the handing out of a finding was interrupted by a callback. -/
def Interrupted (p : List Mark) : Prop :=
  ∃ mark ∈ p, mark.deed.interrupted = true

section

variable (p q : List Mark)

@[simp] theorem course_nil : course [] = [] := rfl

@[simp] theorem queued_nil : queued [] = [] := rfl

@[simp] theorem delivered_nil : delivered [] = [] := rfl

@[simp] theorem called_nil : called [] = [] := rfl

@[simp] theorem not_interrupted_nil : ¬Interrupted [] := by
  simp [Interrupted]

@[simp] theorem course_append : course (p ++ q) = course p ++ course q := by
  simp [course]

@[simp] theorem queued_append : queued (p ++ q) = queued p ++ queued q :=
  List.filterMap_append

@[simp] theorem delivered_append : delivered (p ++ q) = delivered p ++ delivered q :=
  List.filterMap_append

@[simp] theorem called_append : called (p ++ q) = called p ++ called q :=
  List.filterMap_append

@[simp] theorem course_singleton (mark : Mark) :
    course [mark] = if mark.deed.ofCheck then [mark.deed] else [] := by
  by_cases h : mark.deed.ofCheck <;> simp [course, h]

@[simp] theorem queued_singleton (mark : Mark) : queued [mark] = mark.deed.queued?.toList := by
  cases h : mark.deed.queued? <;> simp [queued, h]

@[simp] theorem delivered_singleton (mark : Mark) :
    delivered [mark] = mark.deed.delivered?.toList := by
  cases h : mark.deed.delivered? <;> simp [delivered, h]

@[simp] theorem called_singleton (mark : Mark) : called [mark] = mark.deed.called?.toList := by
  cases h : mark.deed.called? <;> simp [called, h]

@[simp] theorem interrupted_singleton (mark : Mark) :
    Interrupted [mark] ↔ mark.deed.interrupted = true := by
  simp [Interrupted]

@[simp] theorem interrupted_append : Interrupted (p ++ q) ↔ Interrupted p ∨ Interrupted q := by
  simp [Interrupted, or_and_right, exists_or]

theorem not_interrupted_iff_any : ¬Interrupted p ↔ p.any (·.deed.interrupted) = false := by
  simp [Interrupted]

/-- Where nothing is called, no callback that waited is called. -/
theorem delivered_eq_nil_of_called {p : List Mark} (h : called p = []) : delivered p = [] := by
  rw [called, List.filterMap_eq_nil_iff] at h
  rw [delivered, List.filterMap_eq_nil_iff]
  intro mark hmark
  have := h mark hmark
  cases hdeed : mark.deed <;> simp_all [Deed.called?, Deed.delivered?]

end

end DocTable
