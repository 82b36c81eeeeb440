import DocTable.Proofs.Gate.Trace

/-! What a step of the machine does to the gate. The parts of a machine at which a check is under
way are its `stands`; there is never more than one. `Machine.step_move` sums up all steps: each is a
`Move` of the gate and of this one stand, or a reset. All invariants of runs are derived from the
moves, so that no other proof looks at the frames of the machine. -/

namespace DocTable

variable {σ : Type}

/-- Where a check stands. -/
inductive Stand where
  /-- It is going to ask its environment. -/
  | asks (phase : Phase) (interval : Value)
  /-- It waits for an answer, or is held up. -/
  | awaits (phase : Phase) (interval : Value)
  /-- It has a finding. -/
  | found (finding : Finding)
  /-- It hands out its finding. -/
  | delivers (finding : Finding)
  /-- It is going to call a callback that waited. -/
  | hands (finding : Finding) (callback : Callback) (error : Option Failure)
    (description : Option Entries)
  /-- It is going to give its finding to those who wait for the result. -/
  | resolves (finding : Finding)

def Task.stand? : Task → Option Stand
  | .ask phase interval => some (.asks phase interval)
  | .finish finding => some (.found finding)
  | .deliver finding => some (.delivers finding)
  | .resolve finding => some (.resolves finding)
  | _ => none

def Frame.stand? : Frame → Option Stand
  | .checks phase interval => some (.awaits phase interval)
  | .delivers finding => some (.delivers finding)
  | _ => none

def HeldCheck.stand (h : HeldCheck) : Stand :=
  .awaits h.phase h.interval

/-- Where checks stand in a task and the frames below it. -/
def Task.stands : Task → List Frame → List Stand
  | .call callback error description, .delivers finding :: frames =>
    .hands finding callback error description :: frames.filterMap Frame.stand?
  | task, frames => task.stand?.toList ++ frames.filterMap Frame.stand?

/-- Where checks stand in a machine. -/
def Machine.stands (m : Machine σ) : List Stand :=
  m.task.stands m.frames ++ (m.scene.held.map HeldCheck.stand).toList

/-- Where checks stand below the task of a machine. -/
def Machine.below (m : Machine σ) : List Stand :=
  m.frames.filterMap Frame.stand? ++ (m.scene.held.map HeldCheck.stand).toList

theorem eq_some_of_cons {α : Type} {a : α} {as : List α} {o : Option α} (h : a :: as = o.toList) :
    o = some a ∧ as = [] := by
  cases o with
  | none => cases h
  | some b =>
    obtain ⟨rfl, rfl⟩ := List.cons.inj h
    exact ⟨rfl, rfl⟩

/-- The moves of a gate and of the check that stands somewhere, made by a thread. -/
inductive Move (thread : Thread) :
    Gate → Option Stand → List Deed → Gate → Option Stand → Prop where
  | quiet {g : Gate} {s : Option Stand} : Move thread g s [] g s
  | handOver {g : Gate} {s : Option Stand} (c : Callback) (settled : g.entry thread = .settled) :
      Move thread g s [.handed c] g s
  | serve {g : Gate} {s : Option Stand} (c : Callback) (settled : g.entry thread = .settled) :
      Move thread g s [.served c g.error g.description] g s
  | queue {g : Gate} {s : Option Stand} (c : Callback) (waits : g.entry thread = .waits) :
      Move thread g s [.queued c] { g with waiters := g.waiters ++ [c] } s
  | begin {g : Gate} (c : Option Callback) (interval : Value) (unknown : g.state = .unknown) :
      Move thread g none (.begun interval :: (c.map .queued).toList)
        { g with state := .checking, waiters := g.waiters ++ c.toList }
        (some (.asks .describeFirst interval))
  | ask {g : Gate} (phase : Phase) (interval : Value) :
      Move thread g (some (.asks phase interval)) [.asked (phase.query interval)] g
        (some (.awaits phase interval))
  | answer {g : Gate} (phase : Phase) (interval : Value) (a : Outcome Value) :
      Move thread g (some (.awaits phase interval)) [.answered a] g
        (g.afterAnswer phase interval a).stand?
  | settle {g : Gate} (f : Finding) :
      Move thread g (some (.found f)) [.settled f] (g.settle thread f) (some (.delivers f))
  | take {g : Gate} (f : Finding) {c : Callback} {cs : List Callback}
      (waiters : g.waiters = c :: cs) :
      Move thread g (some (.delivers f)) [] { g with waiters := cs }
        (some (.hands f c f.error? f.description?))
  | deliver {g : Gate} (f : Finding) (c : Callback) (error : Option Failure)
      (description : Option Entries) :
      Move thread g (some (.hands f c error description)) [.delivered c error description] g
        (some (.delivers f))
  | goOn {g : Gate} (f : Finding) (r : Outcome Value)
      (passing : ∀ x, r = .error x → x.isInterrupt = false) :
      Move thread g (some (.delivers f)) [.returned r] g (some (.delivers f))
  | interrupt {g : Gate} (f : Finding) {x : Failure} (interrupt : x.isInterrupt = true) :
      Move thread g (some (.delivers f)) [.returned (.error x)] g none
  | publish {g : Gate} (f : Finding) (empty : g.waiters = []) :
      Move thread g (some (.delivers f)) [] (g.publish f) (some (.resolves f))
  | resolve {g : Gate} (f : Finding) :
      Move thread g (some (.resolves f)) [] (g.resolve f) none

theorem Gate.entry_eq_starts_iff {g : Gate} {thread : Thread} :
    g.entry thread = .starts ↔ g.state = .unknown := by
  cases hs : g.state <;> simp only [entry, hs]
  · split <;> simp
  all_goals simp

/-- A gate that forgot its finding. -/
def Gate.forget (g : Gate) : Gate :=
  { g with state := .unknown, error := none, description := none, result := g.result + 1 }

theorem Gate.stands_afterAnswer (g : Gate) (phase : Phase) (interval : Value) (a : Outcome Value)
    (frames : List Frame) :
    (g.afterAnswer phase interval a).stands frames =
      (g.afterAnswer phase interval a).stand?.toList ++ frames.filterMap Frame.stand? := by
  unfold afterAnswer afterDescription
  repeat' split
  all_goals rfl

namespace Machine

/-- A callback that is going to be called has waited, or it was handed over: then the matter is
settled, and the callback gets what the gate knows. -/
def HandsOver (m : Machine σ) : Prop :=
  ∀ c error description, m.task = .call c error description →
    (∃ f frames, m.frames = .delivers f :: frames) ∨
    ∃ block frames, m.frames = .called block :: frames ∧ error = m.scene.gate.error ∧
      description = m.scene.gate.description ∧ m.scene.gate.entry m.thread = .settled

variable {e : Environ σ} {m m' : Machine σ} {s : Option Stand}

/-- What the steps of a machine have in common: a move of the gate and of the stand of the check. -/
def Moves (m : Machine σ) (s : Option Stand) (m' : Machine σ) : Prop :=
  ∃ s', m'.stands = s'.toList ∧ Move m.thread m.scene.gate s m.deeds m'.scene.gate s'

/-- The finding is forgotten. -/
def Resets (m : Machine σ) (s : Option Stand) (m' : Machine σ) : Prop :=
  m.task = .act .reset ∧ m.scene.gate.reset = .ok m'.scene.gate ∧ m.deeds = [.reset] ∧
    m'.stands = s.toList

theorem Moves.quiet (deeds : m.deeds = []) (gate : m'.scene.gate = m.scene.gate)
    (stands : m'.stands = s.toList) : m.Moves s m' :=
  ⟨s, stands, by rw [deeds, gate]; exact .quiet⟩

/-! ## Actions -/

/-- The machine with another gate. -/
def withGate (m : Machine σ) (g : Gate) : Machine σ :=
  { m with scene := m.scene.withGate g }

section

variable {callback : Option Callback} {block : Bool} {interval timeout : Option Value}

theorem ensureReady_of_settled (h : m.scene.gate.entry m.thread = .settled) :
    m.ensureReady callback block interval timeout =
      match waiter callback block with
      | some c => m.push (.called block) (.call c m.scene.gate.error m.scene.gate.description)
      | none => m.replySettled block := by
  simp only [ensureReady, Gate.admitCaller, h]
  rfl

theorem ensureReady_of_starts (h : m.scene.gate.entry m.thread = .starts) :
    m.ensureReady callback block interval timeout =
      let g := m.scene.gate
      let m' := m.withGate
        { g with state := .checking, waiters := g.waiters ++ (waiter callback block).toList }
      let check := Task.ask .describeFirst (interval.getD g.interval)
      if block && timeout.isNone then m'.push (.awaits g.result) check
      else m'.spawn (.started m.thread block g.result timeout) check := by
  simp only [ensureReady, Gate.admitCaller, h]
  rfl

theorem ensureReady_of_waits (h : m.scene.gate.entry m.thread = .waits) :
    m.ensureReady callback block interval timeout =
      let g := m.scene.gate
      (m.withGate { g with waiters := g.waiters ++ (waiter callback block).toList }).goOn
        (if block then .look g.result timeout else .reply (.ok .null)) := by
  simp only [ensureReady, Gate.admitCaller, h]
  rfl

end

theorem moves_ensureReady {callback : Option Callback} {block : Bool}
    {interval timeout : Option Value}
    (task : m.task = .act (.ensureReady callback block interval timeout))
    (hs : m.stands = s.toList) (unknown : m.scene.gate.state = .unknown → s = none) :
    m.Moves s (m.ensureReady callback block interval timeout) := by
  have hb : m.below = s.toList := by
    simpa [stands, below, task, Task.stands, Task.stand?] using hs
  cases hentry : m.scene.gate.entry m.thread with
  | settled =>
    rw [ensureReady_of_settled hentry]
    cases hw : waiter callback block with
    | none =>
      refine .quiet (by simp [deeds, task, hentry, hw]) rfl ?_
      cases block <;> exact hb
    | some c =>
      refine ⟨s, hb, ?_⟩
      rw [show m.deeds = [.handed c] by simp [deeds, task, hentry, hw]]
      exact .handOver c hentry
  | starts =>
    have hstate := Gate.entry_eq_starts_iff.mp hentry
    obtain rfl := unknown hstate
    refine ⟨some (.asks .describeFirst (interval.getD m.scene.gate.interval)), ?_, ?_⟩
    · have hcons : ∀ x : Stand, x :: m.below = [x] := fun x => by rw [hb]; rfl
      rw [ensureReady_of_starts hentry]
      cases block && timeout.isNone <;> exact hcons _
    · rw [ensureReady_of_starts hentry,
        show m.deeds = .begun (interval.getD m.scene.gate.interval) ::
          ((waiter callback block).map .queued).toList by simp [deeds, task, hentry]]
      cases block && timeout.isNone <;>
        exact .begin (waiter callback block) (interval.getD m.scene.gate.interval) hstate
  | waits =>
    rw [ensureReady_of_waits hentry]
    refine ⟨s, by cases block <;> exact hb, ?_⟩
    cases hw : waiter callback block with
    | none =>
      rw [show m.deeds = [] by simp [deeds, task, hentry, hw]]
      simpa [goOn, withGate, Scene.withGate] using Move.quiet
    | some c =>
      rw [show m.deeds = [.queued c] by simp [deeds, task, hentry, hw]]
      exact .queue c hentry

theorem moves_release (task : m.task = .act .release) (hs : m.stands = s.toList) :
    m.Moves s m.release := by
  have hb : m.below = s.toList := by
    simpa [stands, below, task, Task.stands, Task.stand?] using hs
  cases hh : m.scene.held with
  | none =>
    rw [show m.release = m.goOn (.reply (.ok .null)) by simp [release, hh]]
    exact .quiet (by simp [deeds, task]) rfl hb
  | some held =>
    refine .quiet (by simp [deeds, task]) (by simp [release, hh]) ?_
    -- what is held up is the only check, so it stands in no frame
    obtain ⟨hframes, rfl⟩ : m.frames.filterMap Frame.stand? = [] ∧ s = some held.stand := by
      simp only [below, hh, Option.map_some, Option.toList_some] at hb
      cases s with
      | none => exact absurd hb (List.append_ne_nil_of_right_ne_nil _ (List.cons_ne_nil _ _))
      | some x =>
        rcases List.append_eq_singleton_iff.mp hb with ⟨hframes, hx⟩ | ⟨_, hx⟩
        · exact ⟨hframes, by rw [List.head_eq_of_cons_eq hx]⟩
        · cases hx
    simp only [release, hh]
    show held.stand :: m.frames.filterMap Frame.stand? ++ [] = [held.stand]
    rw [hframes]
    rfl

theorem moves_act {a : Action} (task : m.task = .act a) (hs : m.stands = s.toList)
    (unknown : m.scene.gate.state = .unknown → s = none) :
    m.Moves s (m.act a) ∨ m.Resets s (m.act a) := by
  have hb : m.below = s.toList := by
    simpa [stands, below, task, Task.stands, Task.stand?] using hs
  cases a with
  | ensureReady => exact .inl (moves_ensureReady task hs unknown)
  | release => exact .inl (moves_release task hs)
  | state | onThread => exact .inl (.quiet (by simp [deeds, task]) rfl hb)
  | reset =>
    by_cases hstate : m.scene.gate.state = .checking
    · have hr : m.scene.gate.reset = .error (.request (.resetInFlight m.scene.gate.table)) :=
        if_pos hstate
      simp only [act, hr]
      exact .inl (.quiet (by simp [deeds, task, hstate]) rfl hb)
    · have hr : m.scene.gate.reset = .ok m.scene.gate.forget := if_neg hstate
      simp only [act, hr]
      exact .inr ⟨task, hr, by simp [deeds, task, hstate], hb⟩

/-! ## Checks and their callbacks -/

theorem moves_call {c : Callback} {error : Option Failure} {description : Option Entries}
    (task : m.task = .call c error description) (hs : m.stands = s.toList) (hands : m.HandsOver) :
    m.Moves s (m.call error description c) := by
  have hgate : (m.call error description c).scene.gate = m.scene.gate := by cases c <;> rfl
  have hbelow : (m.call error description c).stands = m.below := by cases c <;> rfl
  rcases hands c error description task with
    ⟨f, frames, hframes⟩ | ⟨block, frames, hframes, rfl, rfl, hentry⟩
  · have hcons : m.stands = .hands f c error description ::
        (frames.filterMap Frame.stand? ++ (m.scene.held.map HeldCheck.stand).toList) := by
      rw [stands, task, hframes]
      rfl
    obtain ⟨rfl, hnil⟩ := eq_some_of_cons (hcons.symm.trans hs)
    refine ⟨some (.delivers f), ?_, ?_⟩
    · rw [hbelow, below, hframes]
      show Stand.delivers f :: (_ ++ _) = _
      rw [hnil]
      rfl
    · rw [hgate, show m.deeds = [.delivered c error description] by simp [deeds, task, hframes]]
      exact .deliver f c error description
  · refine ⟨s, ?_, ?_⟩
    · rw [hbelow, ← hs, stands, below, task, hframes]
      rfl
    · rw [hgate, show m.deeds = [.served c m.scene.gate.error m.scene.gate.description] by
        simp [deeds, task, hframes]]
      exact .serve c hentry

theorem moves_ask {phase : Phase} {interval : Value} (task : m.task = .ask phase interval)
    (hs : m.stands = s.toList) : m.Moves s (m.ask e phase interval) := by
  have hcons : m.stands = .asks phase interval :: m.below := by rw [stands, task]; rfl
  obtain ⟨rfl, hnil⟩ := eq_some_of_cons (hcons.symm.trans hs)
  obtain ⟨hframes, hheld⟩ := List.append_eq_nil_iff.mp hnil
  refine ⟨some (.awaits phase interval), ?_, ?_⟩
  · simp only [ask]
    split
    · show m.frames.filterMap Frame.stand? ++ [.awaits phase interval] = [.awaits phase interval]
      rw [hframes]
      rfl
    · show Stand.awaits phase interval :: m.below = [.awaits phase interval]
      rw [hnil]
  · rw [show m.deeds = [.asked (phase.query interval)] by simp [deeds, task]]
    simp only [ask]
    split <;> exact .ask phase interval

theorem moves_deliver {f : Finding} (task : m.task = .deliver f) (hs : m.stands = s.toList) :
    m.Moves s (m.deliver f) := by
  have hcons : m.stands = .delivers f :: m.below := by rw [stands, task]; rfl
  obtain ⟨rfl, hnil⟩ := eq_some_of_cons (hcons.symm.trans hs)
  have hd : m.deeds = [] := by simp [deeds, task]
  cases hw : m.scene.gate.waiters with
  | nil =>
    refine ⟨some (.resolves f), ?_, ?_⟩
    · simp only [deliver, hw]
      show Stand.resolves f :: m.below = [.resolves f]
      rw [hnil]
    · simp only [deliver, hw, hd]
      exact .publish f hw
  | cons c cs =>
    refine ⟨some (.hands f c f.error? f.description?), ?_, ?_⟩
    · simp only [deliver, hw]
      cases f <;> exact congrArg (List.cons _) hnil
    · simp only [deliver, hw, hd]
      exact .take f hw

theorem moves_reply {frame : Frame} {frames : List Frame} {r : Outcome Value}
    (task : m.task = .reply r) (hframes : m.frames = frame :: frames) (hs : m.stands = s.toList) :
    m.Moves s ({ m with frames }.resume r frame) := by
  have hstands : m.stands = (frame :: frames).filterMap Frame.stand? ++
      (m.scene.held.map HeldCheck.stand).toList := by rw [stands, task, hframes]; rfl
  rw [hstands] at hs
  cases frame with
  | checks phase interval =>
    obtain ⟨rfl, hnil⟩ := eq_some_of_cons hs
    refine ⟨(m.scene.gate.afterAnswer phase interval r).stand?, ?_, ?_⟩
    · simp only [resume, goOn, stands, Gate.stands_afterAnswer, List.append_assoc]
      exact (congrArg (_ ++ ·) hnil).trans (List.append_nil _)
    · rw [show m.deeds = [.answered r] by simp [deeds, task, hframes]]
      exact .answer phase interval r
  | delivers f =>
    obtain ⟨rfl, hnil⟩ := eq_some_of_cons hs
    have hd : m.deeds = [.returned r] := by simp [deeds, task, hframes]
    have again : ∀ x : Machine σ, x.task = .deliver f → x.frames = frames →
        x.scene = m.scene → x.stands = [.delivers f] := by
      intro x hx hf hsc
      rw [stands, hx, hf, hsc]
      exact congrArg (List.cons _) hnil
    rcases r with x | v
    · by_cases hx : x.isInterrupt
      · refine ⟨none, ?_, ?_⟩
        · simp only [resume, goOn, hx, if_true]
          exact hnil
        · rw [hd]
          simp only [resume, goOn, hx, if_true]
          exact .interrupt f hx
      · refine ⟨some (.delivers f), ?_, ?_⟩
        · simp only [resume, goOn, hx]
          exact again _ rfl rfl rfl
        · rw [hd]
          simp only [resume, goOn, hx]
          exact .goOn f _ fun y hy => by cases hy; simpa using hx
    · refine ⟨some (.delivers f), again _ rfl rfl rfl, ?_⟩
      rw [hd]
      exact .goOn f _ fun y hy => nomatch hy
  | called block =>
    refine .quiet (by simp [deeds, task, hframes]) ?_ ?_ <;> rcases r with x | v
    · rfl
    · rfl
    · exact hs
    · cases block <;> exact hs
  | awaits number =>
    refine .quiet (by simp [deeds, task, hframes]) ?_ ?_ <;> rcases r with x | v
    · rfl
    · rfl
    · exact hs
    · exact hs
  | started thread block number timeout =>
    exact .quiet (by simp [deeds, task, hframes]) rfl (by cases block <;> exact hs)
  | actions | joins | released => exact .quiet (by simp [deeds, task, hframes]) rfl hs

theorem exists_reply_of_look {number : Nat} {timeout : Option Value}
    (h : m.look number timeout = some m') : ∃ r, m' = m.goOn (.reply r) := by
  simp only [look] at h
  split at h <;> cases h <;> exact ⟨_, rfl⟩

/-- **Steps**: every step of a machine is a move of the gate and of the one stand of the check, or
a reset. -/
theorem step_move (hs : m.stands = s.toList) (unknown : m.scene.gate.state = .unknown → s = none)
    (hands : m.HandsOver) (h : m.step? e = some m') : m.Moves s m' ∨ m.Resets s m' := by
  cases task : m.task with
  | act a =>
    simp only [step?, task, Option.some.injEq] at h
    exact h ▸ moves_act task hs unknown
  | call c error description =>
    simp only [step?, task, Option.some.injEq] at h
    exact .inl (h ▸ moves_call task hs hands)
  | ask phase interval =>
    simp only [step?, task, Option.some.injEq] at h
    exact .inl (h ▸ moves_ask task hs)
  | react actions ending =>
    simp only [step?, task, Option.some.injEq] at h
    have hb : m.below = s.toList := by rw [← hs, stands, task]; rfl
    subst h
    cases actions <;> exact .inl (.quiet (by simp [deeds, task]) rfl hb)
  | finish f =>
    simp only [step?, task, Option.some.injEq] at h
    have hcons : m.stands = .found f :: m.below := by rw [stands, task]; rfl
    obtain ⟨rfl, hnil⟩ := eq_some_of_cons (hcons.symm.trans hs)
    subst h
    refine .inl ⟨some (.delivers f), congrArg (List.cons _) hnil, ?_⟩
    rw [show m.deeds = [.settled f] by simp [deeds, task]]
    exact .settle f
  | deliver f =>
    simp only [step?, task, Option.some.injEq] at h
    exact .inl (h ▸ moves_deliver task hs)
  | resolve f =>
    simp only [step?, task, Option.some.injEq] at h
    have hcons : m.stands = .resolves f :: m.below := by rw [stands, task]; rfl
    obtain ⟨rfl, hnil⟩ := eq_some_of_cons (hcons.symm.trans hs)
    subst h
    refine .inl ⟨none, hnil, ?_⟩
    rw [show m.deeds = [] by simp [deeds, task]]
    exact .resolve f
  | look number timeout =>
    simp only [step?, task] at h
    have hb : m.below = s.toList := by rw [← hs, stands, task]; rfl
    obtain ⟨r, rfl⟩ := exists_reply_of_look h
    exact .inl (.quiet (by simp [deeds, task]) rfl hb)
  | reply r =>
    cases hframes : m.frames with
    | nil => simp [step?, task, hframes] at h
    | cons frame frames =>
      simp only [step?, task, hframes, Option.some.injEq] at h
      exact .inl (h ▸ moves_reply task hframes hs)

end Machine

end DocTable
