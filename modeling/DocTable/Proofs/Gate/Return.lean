import DocTable.Proofs.Gate.Account

/-! When a call that has to wait returns. From the call on, the end of the check or the look for
the result stays below whatever is done, until the reply of the call is there; and that reply comes
from the result or from a timeout. A result that is itself an error about a wait is told as if the
wait of the caller had ended. -/

namespace DocTable

variable {σ : Type}

/-- The steps of a machine until there is a reply for some frames. -/
inductive Returns (e : Environ σ) (frames : List Frame) :
    Machine σ → List Mark → Machine σ → Prop where
  | replied {m : Machine σ} {r : Outcome Value} :
      m.task = .reply r → m.frames = frames → Returns e frames m [] m
  | step {m m' m'' : Machine σ} {marks : List Mark} :
      ¬(∃ r, m.task = .reply r ∧ m.frames = frames) → m.step? e = some m' →
      Returns e frames m' marks m'' → Returns e frames m (m.marks ++ marks) m''

variable {e : Environ σ} {trace marks : List Mark} {m m' m'' : Machine σ} {fs : List Frame}
  {number : Nat} {timeout : Option Value} {task : Task}

/-! ## What a caller gets who waited -/

/-- Whether a finding is the error that some wait took too long. -/
def Finding.TellsOfWait (f : Finding) : Prop :=
  ∃ text, f = .error (.timeout text)

theorem Failure.awaited_eq_self_iff {x : Failure} {table : String} :
    x.awaited table timeout = x ↔ ∀ text, x ≠ .timeout text := by
  cases x <;> simp [awaited]

/-- A caller who waited gets the finding itself, but for an error about a wait. -/
theorem Finding.awaited_eq_reply_iff {f : Finding} {table : String} :
    f.awaited table timeout = f.reply ↔ ¬f.TellsOfWait := by
  cases f with
  | ok d => exact iff_of_true rfl nofun
  | error x => simp [awaited, reply, TellsOfWait, Failure.awaited_eq_self_iff]

theorem Failure.awaited_of_isInterrupt {x : Failure} (h : x.isInterrupt = true) (table : String)
    (timeout : Option Value) : x.awaited table timeout = x := by
  rw [awaited_eq_self_iff]
  rintro text rfl
  cases h

/-! ## Returning -/

/-- A machine that has not replied makes a step. -/
theorem Returns.exists_step (h : Returns e fs m marks m')
    (hr : ∀ r, m.task = .reply r → m.frames ≠ fs) :
    ∃ m₁ marks', m.step? e = some m₁ ∧ marks = m.marks ++ marks' ∧ Returns e fs m₁ marks' m' := by
  cases h with
  | replied htask hframes => exact absurd hframes (hr _ htask)
  | step _ hstep h => exact ⟨_, _, hstep, rfl, h⟩

theorem Returns.eq_of_reply {r : Outcome Value} (h : Returns e fs m marks m')
    (htask : m.task = .reply r) (hframes : m.frames = fs) : m' = m ∧ marks = [] := by
  cases h with
  | replied => exact ⟨rfl, rfl⟩
  | step hr => exact absurd ⟨r, htask, hframes⟩ hr

theorem Returns.run (h : Returns e fs m marks m') {trace : List Mark} (hrun : Run e trace m) :
    Run e (trace ++ marks) m' := by
  induction h generalizing trace with
  | replied => simpa using hrun
  | step _ hstep _ ih => simpa using ih (hrun.step hstep)

/-- The end of a check at which a call waits that is going to look for a result. -/
def Frame.WaitsFor (number : Nat) (timeout : Option Value) (f : Frame) : Prop :=
  f = .awaits number ∧ timeout = none ∨ ∃ thread, f = .started thread true number timeout

/-- A call that waits: it looks for the result, or the end of the check is still below. -/
inductive Waiting (number : Nat) (timeout : Option Value) (fs : List Frame) :
    Task → List Frame → Prop where
  | looks : Waiting number timeout fs (.look number timeout) fs
  | below {task : Task} (above : List Frame) {f : Frame} (waits : f.WaitsFor number timeout) :
      Waiting number timeout fs task (above ++ f :: fs)

/-- The reply to a call that waits has come: it tells the result, or time ran out before there was
one. -/
def Machine.Answers (m : Machine σ) (number : Nat) (timeout : Option Value) : Prop :=
  (∃ f, m.scene.gate.finding? number = some f ∧
    m.task = .reply (f.awaited m.scene.gate.table timeout)) ∨
  ∃ t, timeout = some t ∧ m.scene.gate.finding? number = none ∧
    m.task = .reply (.error (.timedOut m.scene.gate.table t.seconds))

theorem Gate.mem_of_finding? {g : Gate} {f : Finding} (h : g.finding? number = some f) :
    (number, f) ∈ g.resolved := by
  obtain ⟨⟨n, f'⟩, hfind, rfl⟩ := Option.map_eq_some_iff.mp h
  obtain rfl : n = number := by simpa using List.find?_some hfind
  exact List.mem_of_find?_eq_some hfind

/-- The error that ends a call with the check that it ran is the result, an interrupt. -/
def Machine.Stopped (m : Machine σ) (number : Nat) (x : Failure) : Prop :=
  m.scene.gate.finding? number = some (.error x) ∧ x.isInterrupt = true

/-- An error that ends the check of a caller is the result, or it interrupted the handing out. -/
theorem Run.reply_awaits {x : Failure} (h : Run e trace m) (hstep : m.step? e = some m')
    (htask : m'.task = .reply (.error x)) (hframes : m'.frames = .awaits number :: fs) :
    Interrupted m.marks ∨ m'.Stopped number x := by
  obtain ⟨s, account⟩ := h.account
  have flow := Machine.step_flow hstep
  rw [htask, hframes] at flow
  rcases flow.reply_awaits account.fits with ⟨f, htask₀, hframes₀, hx⟩ | ⟨htask₀, rfl⟩
  · have hdeeds : m.deeds = [.returned (.error x)] := by
      simp [Machine.deeds, htask₀, hframes₀]
    refine .inl ?_
    rw [Machine.marks_of_deeds hdeeds, interrupted_singleton]
    exact hx
  · simp only [Machine.step?, htask₀, Option.some.injEq] at hstep
    subst hstep
    have hinterrupt : x.isInterrupt = true := by
      cases hx : x.isInterrupt with
      | true => rfl
      | false => simp [Machine.resolve, hx] at htask
    exact .inr ⟨by simp [Machine.resolve, Scene.withGate, Gate.resolve, Gate.finding?], hinterrupt⟩

/-- A look for the result ends the waiting. -/
theorem Machine.answers_of_look (htask : m.task = .look number timeout)
    (hframes : m.frames = fs) (hstep : m.step? e = some m') (h : Returns e fs m' marks m'') :
    m''.Answers number timeout := by
  simp only [step?, htask, look] at hstep
  cases hfinding : m.scene.gate.finding? number with
  | some f =>
    simp only [hfinding, Option.some.injEq] at hstep
    subst hstep
    obtain ⟨rfl, -⟩ := h.eq_of_reply rfl hframes
    exact .inl ⟨f, hfinding, rfl⟩
  | none =>
    cases timeout with
    | none => simp [hfinding] at hstep
    | some t =>
      simp only [hfinding, Option.some.injEq] at hstep
      subst hstep
      obtain ⟨rfl, -⟩ := h.eq_of_reply rfl hframes
      exact .inr ⟨t, rfl, hfinding, rfl⟩

/-- The waiting goes on with a step, or it is over. -/
theorem Waiting.step (waiting : Waiting number timeout fs m.task m.frames)
    (told : ∀ x, m.task = .reply (.error x) → m.frames = .awaits number :: fs →
      m.Stopped number x)
    (hstep : m.step? e = some m') (h : Returns e fs m' marks m'') :
    Waiting number timeout fs m'.task m'.frames ∨ m''.Answers number timeout := by
  generalize htask : m.task = task, hframes : m.frames = frames at waiting
  cases waiting with
  | looks => exact .inr (Machine.answers_of_look htask hframes hstep h)
  | below above waits =>
    rename_i f
    rcases Machine.step_above hstep hframes with ⟨above', hbelow⟩ | ⟨rfl, r, hr, rfl⟩
    · exact .inl (hbelow ▸ .below above' waits)
    rcases waits with ⟨rfl, rfl⟩ | ⟨thread, rfl⟩
    · cases r with
      | ok v => exact .inl .looks
      | error x =>
        obtain ⟨hresult, hinterrupt⟩ := told x hr hframes
        obtain ⟨rfl, -⟩ := h.eq_of_reply (r := .error x) rfl rfl
        refine .inr (.inl ⟨.error x, hresult, ?_⟩)
        rw [Finding.awaited, Failure.awaited_of_isInterrupt hinterrupt]
        rfl
    · exact .inl .looks

/-- **Returning**: a call that waits returns with the result, or because time ran out, if the
handing out is not interrupted. -/
theorem Returns.answers (h : Returns e fs m marks m') (hrun : Run e trace m)
    (waiting : Waiting number timeout fs m.task m.frames)
    (told : ∀ x, m.task = .reply (.error x) → m.frames = .awaits number :: fs →
      m.Stopped number x)
    (calm : ¬Interrupted marks) : m'.Answers number timeout := by
  induction h generalizing trace with
  | @replied m r htask hframes =>
    exfalso
    generalize htask' : m.task = task, hframes' : m.frames = frames at waiting
    cases waiting with
    | looks => cases htask.symm.trans htask'
    | below above =>
      have hlength := congrArg List.length (hframes.symm.trans hframes')
      simp only [List.length_append, List.length_cons] at hlength
      omega
  | step _ hstep h ih =>
    rw [interrupted_append, not_or] at calm
    rcases waiting.step told hstep h with hwaiting | hanswers
    · exact ih (hrun.step hstep) hwaiting
        (fun x ht hf => (hrun.reply_awaits hstep ht hf).resolve_left calm.1) calm.2
    · exact hanswers

/-- A call that waits for a check under way, or starts one and waits for it. -/
theorem Machine.waiting_of_ensureReady {callback : Option Callback} {interval : Option Value}
    (htask : m.task = .act (.ensureReady callback true interval timeout))
    (hentry : m.scene.gate.entry m.thread ≠ .settled) (hstep : m.step? e = some m') :
    Waiting m.scene.gate.result timeout m.frames m'.task m'.frames := by
  simp only [step?, htask, act, Option.some.injEq] at hstep
  cases h : m.scene.gate.entry m.thread with
  | settled => exact absurd h hentry
  | starts =>
    rw [ensureReady_of_starts h] at hstep
    cases timeout with
    | none =>
      subst hstep
      exact .below [] (.inl ⟨rfl, rfl⟩)
    | some t =>
      subst hstep
      exact .below [] (.inr ⟨m.thread, rfl⟩)
  | waits =>
    rw [ensureReady_of_waits h] at hstep
    subst hstep
    exact .looks

/-- A call for which the matter is not settled returns with the result, or because time ran out. -/
theorem Returns.answers_call {callback : Option Callback} {interval : Option Value}
    (h : Returns e m.frames m marks m') (hrun : Run e trace m)
    (htask : m.task = .act (.ensureReady callback true interval timeout))
    (hentry : m.scene.gate.entry m.thread ≠ .settled) (calm : ¬Interrupted marks) :
    m'.Answers m.scene.gate.result timeout := by
  obtain ⟨m₁, marks', hstep, rfl, h₁⟩ := h.exists_step fun r hr => by cases htask.symm.trans hr
  rw [interrupted_append, not_or] at calm
  exact h₁.answers (hrun.step hstep) (Machine.waiting_of_ensureReady htask hentry hstep)
    (fun x ht hf => (hrun.reply_awaits hstep ht hf).resolve_left calm.1) calm.2

end DocTable
