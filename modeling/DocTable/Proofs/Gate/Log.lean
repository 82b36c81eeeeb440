import DocTable.Proofs.Gate.Account

/-! The log of a run tells what its trace tells of queries and calls: what a check asked for, and
with what the callbacks that note their calls were called, in the same order. -/

namespace DocTable

variable {σ : Type}

/-- The call of a callback that an event of the log tells of. -/
def Event.call? : Event → Option (String × Option Failure × Option Entries)
  | .callback name error description => some (name, error, description)
  | _ => none

/-- The name under which a callback notes its calls. -/
def Callback.name? : Callback → Option String
  | .noting name _ _ => some name
  | .raising => none

/-- The calls that were noted among all calls. -/
def noted (calls : List (Callback × Option Failure × Option Entries)) :
    List (String × Option Failure × Option Entries) :=
  calls.filterMap fun (c, error, description) => c.name?.map (·, error, description)

/-- The event that the log gets for a query. -/
def Query.event : Query → Event
  | .describe => .describe
  | .create => .create
  | .sleep seconds => .sleep seconds

/-- The event that the log gets for a deed. -/
def Deed.event? : Deed → Option Event
  | asked query => some query.event
  | delivered c error description | served c error description =>
    c.name?.map (.callback · error description)
  | _ => none

/-- What the log tells of actions is left aside. -/
def Event.ofGate : Event → Bool
  | .action .. => false
  | _ => true

theorem Phase.event_eq (phase : Phase) (interval : Value) :
    phase.event interval = (phase.query interval).event := by
  cases phase <;> rfl

theorem Query.ofGate_event (q : Query) : q.event.ofGate = true := by
  cases q <;> rfl

namespace Machine

variable {e : Environ σ} {m m' : Machine σ}

theorem log_act (a : Action) : (m.act a).scene.log = m.scene.log := by
  cases a with
  | ensureReady callback block interval timeout =>
    show (m.ensureReady callback block interval timeout).scene.log = _
    cases hentry : m.scene.gate.entry m.thread with
    | settled =>
      rw [ensureReady_of_settled hentry]
      split <;> rfl
    | starts =>
      rw [ensureReady_of_starts hentry]
      dsimp only
      split <;> rfl
    | waits =>
      rw [ensureReady_of_waits hentry]
      rfl
  | reset =>
    simp only [act]
    split <;> rfl
  | release =>
    simp only [act, release]
    split <;> rfl
  | state | onThread => rfl

theorem event?_of_act {a : Action} (task : m.task = .act a) :
    m.deeds.filterMap Deed.event? = [] := by
  cases a with
  | ensureReady callback block interval timeout =>
    simp only [deeds, task]
    cases m.scene.gate.entry m.thread <;> cases waiter callback block <;> rfl
  | reset =>
    simp only [deeds, task]
    split <;> rfl
  | _ => simp [deeds, task]

theorem log_resume {frame : Frame} {r : Outcome Value} :
    (m.resume r frame).scene.log.filter Event.ofGate = m.scene.log.filter Event.ofGate := by
  cases frame with
  | actions => simp [resume, Scene.note, Event.ofGate]
  | called block => cases r <;> rfl
  | delivers => cases r <;> rfl
  | awaits => cases r <;> rfl
  | joins | checks | started | released => rfl

/-- **Notes**: a step notes what it does. -/
theorem step_log (hands : m.HandsOver) (h : m.step? e = some m') :
    m'.scene.log.filter Event.ofGate =
      m.scene.log.filter Event.ofGate ++ m.deeds.filterMap Deed.event? := by
  cases task : m.task with
  | act a =>
    simp only [step?, task, Option.some.injEq] at h
    rw [event?_of_act task, ← h, log_act, List.append_nil]
  | call c error description =>
    simp only [step?, task, Option.some.injEq] at h
    subst h
    rcases hands c error description task with ⟨f, fs, hframes⟩ | ⟨block, fs, hframes, -⟩
    all_goals cases c <;> simp [deeds, task, hframes, call, Scene.note, goOn, Event.ofGate,
      Deed.event?, Callback.name?]
  | ask phase interval =>
    simp only [step?, task, Option.some.injEq] at h
    have hlog : (m.ask e phase interval).scene.log =
        m.scene.log ++ [(phase.query interval).event] := by
      rw [← Phase.event_eq]
      simp only [ask]
      split <;> rfl
    rw [← h, hlog]
    simp [deeds, task, Deed.event?, Query.ofGate_event]
  | react actions ending =>
    simp only [step?, task, Option.some.injEq] at h
    subst h
    cases actions <;> simp [deeds, task, react, goOn, push]
  | finish f =>
    simp only [step?, task, Option.some.injEq] at h
    subst h
    simp [deeds, task, Scene.withGate, Deed.event?]
  | deliver f =>
    simp only [step?, task, Option.some.injEq] at h
    subst h
    cases hw : m.scene.gate.waiters <;> simp [deeds, task, deliver, hw, Scene.withGate, push]
  | resolve f =>
    simp only [step?, task, Option.some.injEq] at h
    subst h
    simp [deeds, task, resolve, Scene.withGate]
  | look number timeout =>
    simp only [step?, task] at h
    obtain ⟨r, rfl⟩ := exists_reply_of_look h
    simp [deeds, task, goOn]
  | reply r =>
    cases hframes : m.frames with
    | nil => simp [step?, task, hframes] at h
    | cons frame frames =>
      simp only [step?, task, hframes, Option.some.injEq] at h
      rw [← h, log_resume]
      cases frame <;> simp [deeds, task, hframes, Deed.event?]

end Machine

/-! ## Runs -/

theorem Run.log {e : Environ σ} {trace : List Mark} {m : Machine σ} (h : Run e trace m) :
    m.scene.log.filter Event.ofGate = trace.filterMap (·.deed.event?) := by
  induction h with
  | start => rfl
  | step hrun hstep ih =>
    obtain ⟨_, account⟩ := hrun.account
    rw [Machine.step_log account.hands hstep, ih, List.filterMap_append, Machine.marks,
      List.filterMap_map]
    rfl
  | next _ _ _ _ _ ih => exact ih

/-- What the log of a run tells, but not of actions, its trace tells too. -/
theorem Run.filterMap_log {α : Type} {φ : Event → Option α} {e : Environ σ} {trace : List Mark}
    {m : Machine σ} (h : Run e trace m) (hφ : ∀ name reply, φ (.action name reply) = none) :
    m.scene.log.filterMap φ = trace.filterMap fun mark => mark.deed.event?.bind φ := by
  have hlog : m.scene.log.filterMap φ = (m.scene.log.filter Event.ofGate).filterMap φ := by
    rw [List.filterMap_filter]
    refine congrArg (List.filterMap · _) (funext fun event => ?_)
    cases event with
    | action name reply => simp [Event.ofGate, hφ]
    | _ => rfl
  rw [hlog, h.log, List.filterMap_filterMap]

/-- The queries in the log of a run are those of its checks. -/
theorem Run.queries_log {e : Environ σ} {trace : List Mark} {m : Machine σ} (h : Run e trace m) :
    m.scene.log.filterMap Event.query? = (course trace).filterMap Deed.query? := by
  rw [h.filterMap_log fun _ _ => rfl, course, List.filterMap_filter, List.filterMap_map]
  refine congrArg (List.filterMap · _) (funext fun mark => ?_)
  cases hdeed : mark.deed with
  | asked query =>
    cases query <;>
      simp [hdeed, Deed.event?, Query.event, Event.query?, Deed.ofCheck, Deed.query?]
  | delivered c | served c =>
    cases c <;> simp [hdeed, Deed.event?, Event.query?, Deed.ofCheck, Callback.name?]
  | _ => simp [hdeed, Deed.event?, Deed.ofCheck, Deed.query?]

/-- The calls that callbacks noted in the log of a run are those that were made. -/
theorem Run.calls_log {e : Environ σ} {trace : List Mark} {m : Machine σ} (h : Run e trace m) :
    m.scene.log.filterMap Event.call? = noted (called trace) := by
  rw [h.filterMap_log fun _ _ => rfl, noted, called, List.filterMap_filterMap]
  refine congrArg (List.filterMap · _) (funext fun mark => ?_)
  cases hdeed : mark.deed with
  | asked query => cases query <;> rfl
  | delivered c | served c => cases c <;> rfl
  | _ => rfl

theorem Run.exists_called {e : Environ σ} {trace : List Mark} {m : Machine σ} (h : Run e trace m)
    {name : String} {error : Option Failure} {description : Option Entries}
    (hlog : .callback name error description ∈ m.scene.log) :
    ∃ c, (c, error, description) ∈ called trace := by
  have hnoted : (name, error, description) ∈ noted (called trace) :=
    h.calls_log ▸ List.mem_filterMap.mpr ⟨_, hlog, rfl⟩
  obtain ⟨⟨c, error', description'⟩, hmem, hname⟩ := List.mem_filterMap.mp hnoted
  obtain ⟨_, -, heq⟩ := Option.map_eq_some_iff.mp hname
  cases heq
  exact ⟨c, hmem⟩

end DocTable
