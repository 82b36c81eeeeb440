import DocTable.Proofs.Gate.Return
import DocTable.Proofs.Table.Check

/-! Passing the gate of a table. Between operations the gate is at rest: it knows nothing or has a
finding. Who passes it gets the finding; the client is only called if there was none, and then an
error about a wait is told as the end of the wait for it. -/

namespace DocTable

/-- A gate at which no check is under way, and what it knows. -/
structure Gate.Rests (g : Gate) (known : Option Finding) : Prop where
  waiters : g.waiters = []
  state : g.state = match known with
    | none => .unknown
    | some f => if f.isOk then .ready else .failed
  error : g.error = known.bind Finding.error?
  description : g.description = known.bind Finding.description?

namespace Gate

variable {g : Gate} {f : Finding} {known : Option Finding}

theorem Rests.ne_checking (h : g.Rests known) : g.state ≠ .checking := by
  rw [h.state]
  cases known with
  | none => simp
  | some f => cases f <;> simp [Except.isOk, Except.toBool]

theorem Rests.settledReply (h : g.Rests (some f)) : g.settledReply = f.reply := by
  cases f <;> simp [Gate.settledReply, h.error, h.description, Finding.error?,
    Finding.description?, Finding.reply]

theorem Rests.entry_of_known (h : g.Rests (some f)) (thread : Thread) :
    g.entry thread = .settled := by
  have hstate := h.state
  cases f <;> simp_all [entry, Except.isOk, Except.toBool]

theorem Rests.entry_of_unknown (h : g.Rests none) (thread : Thread) : g.entry thread = .starts :=
  entry_eq_starts_iff.mpr h.state

theorem Rests.forget (h : g.Rests known) : g.forget.Rests none :=
  ⟨h.waiters, rfl, rfl, rfl⟩

/-- A gate with nobody waiting, after a finding was handed out. -/
def conclude (g : Gate) (thread : Thread) (f : Finding) : Gate :=
  ((g.settle thread f).publish f).resolve f

theorem rests_conclude (hwaiters : g.waiters = []) (thread : Thread) :
    (g.conclude thread f).Rests (some f) := by
  cases f <;> exact ⟨hwaiters, rfl, rfl, rfl⟩

theorem table_conclude (g : Gate) (thread : Thread) (f : Finding) :
    (g.conclude thread f).table = g.table := by
  cases f <;> rfl

theorem finding?_conclude (g : Gate) (thread : Thread) (f : Finding) :
    (g.conclude thread f).finding? g.result = some f := by
  cases f <;> simp [conclude, finding?, resolve, publish, settle]

end Gate

/-- What a check replies to who runs it. -/
def Finding.ending : Finding → Outcome Value
  | .error f => if f.isInterrupt then .error f else .ok .null
  | .ok _ => .ok .null

theorem Finding.ending_cases (f : Finding) :
    f.ending = .ok .null ∨ ∃ x, x.isInterrupt = true ∧ f.ending = .error x ∧ f = .error x := by
  cases f with
  | ok d => exact .inl rfl
  | error x => cases hx : x.isInterrupt <;> simp [Finding.ending, hx]

section

variable {σ : Type} (e : Environ σ) (s : Scene σ) (thread : Thread) (f : Finding)

/-- Where nobody waits, a finding is published and given to those who look for it. -/
theorem steps_deliver {g : Gate} (hwaiters : g.waiters = []) (fs : List Frame) :
    Steps e 2 ⟨s.withGate g, thread, .deliver f, fs⟩
      ⟨s.withGate ((g.publish f).resolve f), thread, .reply f.ending, fs⟩ := by
  have hdeliver : Machine.step? e ⟨s.withGate g, thread, .deliver f, fs⟩ =
      some ⟨s.withGate (g.publish f), thread, .resolve f, fs⟩ := by
    simp [Machine.step?, Machine.deliver, Scene.withGate, hwaiters]
  refine .step hdeliver (.step ?_ (.refl _))
  cases f <;> rfl

/-- A check that its caller runs gives the caller its finding. -/
theorem steps_conclude (hwaiters : s.gate.waiters = []) :
    ∃ n ≤ 5, Steps e n ⟨s, thread, .finish f, [.awaits s.gate.result]⟩
      ⟨s.withGate (s.gate.conclude thread f), thread,
        .reply (f.awaited s.gate.table none), []⟩ := by
  have hsettled : (s.gate.settle thread f).waiters = [] := by cases f <;> exact hwaiters
  have hfinish : Steps e 3 ⟨s, thread, .finish f, [.awaits s.gate.result]⟩
      ⟨s.withGate (s.gate.conclude thread f), thread, .reply f.ending, [.awaits s.gate.result]⟩ :=
    .step rfl (steps_deliver e s thread f hsettled _)
  have hlook : Steps e 1 ⟨s.withGate (s.gate.conclude thread f), thread,
      .look s.gate.result none, []⟩
      ⟨s.withGate (s.gate.conclude thread f), thread,
        .reply (f.awaited s.gate.table none), []⟩ := by
    refine .step ?_ (.refl _)
    simp [Machine.step?, Machine.look, Scene.withGate, Gate.finding?_conclude, Gate.table_conclude,
      Machine.goOn]
  rcases f.ending_cases with hending | ⟨x, hinterrupt, hending, rfl⟩
  · rw [hending] at hfinish
    exact ⟨5, Nat.le_refl _, hfinish.trans (.step rfl hlook)⟩
  · rw [hending] at hfinish
    rw [Finding.awaited, Failure.awaited_of_isInterrupt hinterrupt]
    exact ⟨4, by omega, hfinish.trans (.step rfl (.refl _))⟩

/-- A check in the background with only the callback that raises errors waiting. The callback does
not interrupt it, unless the finding is an interrupt. -/
theorem steps_background (hwaiters : s.gate.waiters = [.raising])
    (hf : Uninterrupted f) (starter : Thread) (number : Nat) :
    ∃ g, g.Rests (some f) ∧
      Steps e 7 ⟨s, thread, .finish f, [.started starter false number none]⟩
        ⟨s.withGate g, starter, .reply (.ok .null), []⟩ := by
  let g := { s.gate.settle thread f with waiters := [] }
  have htake : Machine.step? e ⟨s.withGate (s.gate.settle thread f), thread, .deliver f,
      [.started starter false number none]⟩ = some ⟨s.withGate g, thread,
        .call .raising f.error? f.description?,
        [.delivers f, .started starter false number none]⟩ := by
    cases f <;> simp [Machine.step?, Machine.deliver, Scene.withGate, Gate.settle, hwaiters,
      Machine.push, Finding.error?, Finding.description?, g]
  have hcall : Steps e 2 ⟨s.withGate g, thread, .call .raising f.error? f.description?,
      [.delivers f, .started starter false number none]⟩
      ⟨s.withGate g, thread, .deliver f, [.started starter false number none]⟩ := by
    cases f with
    | ok d => exact .step rfl (.step rfl (.refl _))
    | error x =>
      have hgoOn : Machine.step? e ⟨s.withGate g, thread, .reply (.error x),
          [.delivers (.error x), .started starter false number none]⟩ =
          some ⟨s.withGate g, thread, .deliver (.error x),
            [.started starter false number none]⟩ := by
        simp [Machine.step?, Machine.resume, Machine.goOn, hf x rfl]
      exact .step rfl (.step hgoOn (.refl _))
  refine ⟨(g.publish f).resolve f, by cases f <;> exact ⟨rfl, rfl, rfl, rfl⟩, ?_⟩
  have hdeliver := steps_deliver (g := g) e s thread f rfl [.started starter false number none]
  exact .step rfl (.step htake (hcall.trans (hdeliver.trans (.step rfl (.refl _)))))

end

/-! ## Passing -/

/-- A gate that has a finding gives it, and nothing changes. -/
theorem Scene.perform_known {σ : Type} {s : Scene σ} {f : Finding} (e : Environ σ)
    (h : s.gate.Rests (some f)) :
    s.perform e (.ensureReady none true none none) = (some f.reply, s) := by
  let m := s.machine (.ensureReady none true none none)
  have hentry : m.scene.gate.entry m.thread = .settled := h.entry_of_known 0
  have hstep : m.step? e = some ⟨s, 0, .reply f.reply, []⟩ := by
    show some (m.ensureReady none true none none) = _
    rw [Machine.ensureReady_of_settled hentry, ← h.settledReply]
    rfl
  exact (Steps.step hstep (.refl _)).perform_eq (by simp only [Scene.fuel, Scene.size]; omega)

namespace Table

variable (t : Table) {s : Scene Client}

theorem fuel_le (s : Scene Client) (action : Action) (h : 1 ≤ action.size) :
    6 * s.environ.script.length + 100 ≤ s.fuel t.environ action := by
  simp only [Scene.fuel, Scene.size, environ]
  omega

/-- A gate that knows nothing lets the client be called, and has a finding then. -/
theorem perform_unknown (h : s.gate.Rests none) :
    ∃ f g c log, s.perform t.environ (.ensureReady none true none none) =
        (some (f.awaited g.table none), { s with gate := g, environ := c, log }) ∧
      g.Rests (some f) ∧ s.environ.Checked c := by
  let s₁ := s.withGate { s.gate with state := .checking }
  let m := s.machine (.ensureReady none true none none)
  have hentry : m.scene.gate.entry m.thread = .starts := h.entry_of_unknown 0
  have hstart : m.step? t.environ =
      some ⟨s₁, 0, .ask .describeFirst s.gate.interval, [.awaits s.gate.result]⟩ := by
    show some (m.ensureReady none true none none) = _
    rw [Machine.ensureReady_of_starts hentry]
    simp [waiter, Machine.push, Machine.withGate, s₁, m, Scene.machine]
  obtain ⟨n, f, c, log, hn, hc, -, hcheck⟩ :=
    t.steps_check 0 s.gate.interval [.awaits s.gate.result] .describeFirst s₁
  obtain ⟨k, hk, hconclude⟩ := steps_conclude t.environ { s₁ with environ := c, log } 0 f h.waiters
  refine ⟨f, s₁.gate.conclude 0 f, c, log, ?_, Gate.rests_conclude (g := s₁.gate) h.waiters 0, hc⟩
  rw [Gate.table_conclude]
  refine ((Steps.step hstart hcheck).trans hconclude).perform_eq ?_
  have hfuel := t.fuel_le s (.ensureReady none true none none) (by decide)
  have hweight : weight .describeFirst s₁.environ = 2 * s.environ.script.length + 4 := rfl
  omega

/-- Nobody waits for a check in the background; it has a finding when its start returns. -/
theorem perform_background (h : s.gate.Rests none) (hplain : s.environ.Plain) :
    ∃ f g c log, s.perform t.environ (.ensureReady none false none none) =
        (some (.ok .null), { s with gate := g, environ := c, fresh := s.fresh + 1, log }) ∧
      g.Rests (some f) ∧ s.environ.Checked c := by
  let s₁ := { s with
    gate := { s.gate with state := .checking, waiters := [.raising] }, fresh := s.fresh + 1 }
  let m := s.machine (.ensureReady none false none none)
  have hentry : m.scene.gate.entry m.thread = .starts := h.entry_of_unknown 0
  have hstart : m.step? t.environ = some ⟨s₁, s.fresh, .ask .describeFirst s.gate.interval,
      [.started 0 false s.gate.result none]⟩ := by
    show some (m.ensureReady none false none none) = _
    rw [Machine.ensureReady_of_starts hentry]
    simp [waiter, Machine.spawn, Machine.withGate, s₁, m, Scene.machine, Scene.withGate, h.waiters]
  obtain ⟨n, f, c, log, hn, hc, hf, hcheck⟩ :=
    t.steps_check s.fresh s.gate.interval [.started 0 false s.gate.result none] .describeFirst s₁
  obtain ⟨g, hg, hend⟩ := steps_background t.environ { s₁ with environ := c, log } s.fresh f rfl
    (hf hplain) 0 s.gate.result
  refine ⟨f, g, c, log, ((Steps.step hstart hcheck).trans hend).perform_eq ?_, hg, hc⟩
  have hfuel := t.fuel_le s (.ensureReady none false none none) (by decide)
  have hweight : weight .describeFirst s₁.environ = 2 * s.environ.script.length + 4 := rfl
  omega

end Table

end DocTable
