import DocTable.Proofs.Gate.Delivery

/-! What a call that waits returns, and what its callback is told. Where the call has to wait, both
come from the result, but to the caller a result that is an error about a wait looks like the end of
its own. Where the matter is settled the gate is read twice, once for the callback and once more for
the caller when the callback is done; in between the callback can reset it. -/

namespace DocTable

variable {σ : Type} {e : Environ σ} {trace marks : List Mark} {m m' : Machine σ}
  {fs : List Frame} {g : Gate} {s : Option Stand} {p : List Mark} {f : Finding} {c : Callback}
  {interval timeout : Option Value}

/-! ## Findings of gates -/

/-- Whether a gate holds what was found: an error or a description. -/
def Gate.Holds (g : Gate) (f : Finding) : Prop :=
  g.error = f.error? ∧ g.description = f.description?

/-- A gate holds one finding, or nothing. -/
theorem Stage.holds (h : Stage g s p) :
    g.error = none ∧ g.description = none ∨ ∃ f, g.Holds f := by
  rcases h.opened_or_settled with
    ⟨-, herror, hdescription, -⟩ | ⟨_, opened⟩ | ⟨_, f, _, settled⟩
  · exact .inl ⟨herror, hdescription⟩
  · exact .inl ⟨opened.error, opened.description⟩
  · exact .inr ⟨f, settled.error, settled.description⟩

/-- Where the matter is settled the gate holds the finding of the check of the period. -/
theorem Stage.exists_settled (h : Stage g s p) {thread : Thread}
    (hentry : g.entry thread = .settled) :
    ∃ f, g.Holds f ∧ ∃ mark ∈ p, mark.deed = .settled f := by
  rcases h.opened_or_settled with ⟨hstate, -⟩ | ⟨_, opened⟩ | ⟨_, f, _, settled⟩
  · simp [Gate.entry, hstate] at hentry
  · rw [opened.entry] at hentry
    cases hentry
  · obtain ⟨before, after, interval, ps, hp, -⟩ := settled.split
    exact ⟨f, ⟨settled.error, settled.description⟩, _, hp ▸ List.mem_append_cons_self, rfl⟩

theorem Stage.holds_of_mark (h : Stage g s p) {mark : Mark} (hmark : mark ∈ p)
    (hdeed : mark.deed = .settled f) : g.Holds f := by
  obtain ⟨_, settled, -⟩ := h.settled_of_mark hmark hdeed
  exact ⟨settled.error, settled.description⟩

namespace Finding

variable {f' : Finding}

theorem reply_injective (h : f.reply = f'.reply) : f = f' := by
  cases f <;> cases f' <;> simp_all [reply]

end Finding

theorem Gate.Holds.settledReply (h : g.Holds f) : g.settledReply = f.reply := by
  obtain ⟨herror, hdescription⟩ := h
  cases f <;> simp [Gate.settledReply, herror, hdescription, Finding.error?, Finding.description?,
    Finding.reply]

/-- What a caller gets from a settled gate tells of a finding only if the gate holds that. -/
theorem Stage.settledReply_eq_iff (h : Stage g s p) : g.settledReply = f.reply ↔ g.Holds f := by
  refine ⟨fun hreply => ?_, Gate.Holds.settledReply⟩
  rcases h.holds with ⟨herror, hdescription⟩ | ⟨f', hf'⟩
  · cases f <;> simp [Gate.settledReply, herror, hdescription, Finding.reply] at hreply
  · exact Finding.reply_injective (hf'.settledReply.symm.trans hreply) ▸ hf'

/-! ## Callbacks that are called at once -/

/-- Callbacks that raise nothing of their own: at most what they are told. -/
def Callback.RaisesNone (c : Callback) : Prop :=
  ∀ name actions failure, c = .noting name actions failure → failure = none

/-- A callback without errors of its own is called for a caller that waits for it: it is about to
act, or something is done for one of its actions, or it ends. -/
inductive Calling (fs : List Frame) : Task → List Frame → Prop where
  | reacts (actions : List Action) :
      Calling fs (.react actions (.ok .null)) (.called true :: fs)
  | below {task : Task} (above : List Frame) (done : String) (rest : List Action) :
      Calling fs task (above ++ .actions done rest (.ok .null) :: .called true :: fs)
  | ends : Calling fs (.reply (.ok .null)) (.called true :: fs)

/-- The callback goes on with a step, or the caller gets what the gate tells then. -/
theorem Calling.step (calling : Calling fs m.task m.frames) (hstep : m.step? e = some m') :
    Calling fs m'.task m'.frames ∨
      m'.task = .reply m'.scene.gate.settledReply ∧ m'.frames = fs := by
  generalize htask : m.task = task, hframes : m.frames = frames at calling
  cases calling with
  | reacts actions =>
    simp only [Machine.step?, htask, Option.some.injEq] at hstep
    subst hstep
    cases actions with
    | nil => exact .inl (hframes ▸ .ends)
    | cons action rest =>
      refine .inl ?_
      show Calling fs (.act action) (.actions action.name rest (.ok .null) :: m.frames)
      rw [hframes]
      exact .below [] action.name rest
  | below above done rest =>
    rcases Machine.step_above hstep hframes with ⟨above', hbelow⟩ | ⟨-, r, -, rfl⟩
    · exact .inl (hbelow ▸ .below above' done rest)
    · exact .inl (.reacts rest)
  | ends =>
    simp only [Machine.step?, htask, hframes, Option.some.injEq] at hstep
    subst hstep
    exact .inr ⟨rfl, rfl⟩

theorem Calling.length_lt {task : Task} {frames : List Frame} (h : Calling fs task frames) :
    fs.length < frames.length := by
  cases h with
  | reacts | ends => exact Nat.lt_succ_self _
  | below above =>
    simp only [List.length_append, List.length_cons]
    omega

theorem Returns.settledReply_of_calling (h : Returns e fs m marks m')
    (calling : Calling fs m.task m.frames) : m'.task = .reply m'.scene.gate.settledReply := by
  induction h with
  | replied htask hframes => exact absurd (hframes ▸ calling.length_lt) (Nat.lt_irrefl _)
  | step _ hstep h ih =>
    rcases calling.step hstep with hcalling | ⟨hreply, hframes⟩
    · exact ih hcalling
    · obtain ⟨rfl, -⟩ := h.eq_of_reply hreply hframes
      exact hreply

/-- Who comes with a callback when the matter is settled gets in the end what the gate tells
then. -/
theorem Returns.settledReply (h : Returns e m.frames m marks m')
    (htask : m.task = .act (.ensureReady (some c) true interval timeout)) (hc : c.RaisesNone)
    (hentry : m.scene.gate.entry m.thread = .settled) :
    m'.task = .reply m'.scene.gate.settledReply ∧ ∃ rest,
      marks = ⟨m.scene.gate.result, m.thread, .handed c⟩ ::
        ⟨m.scene.gate.result, m.thread,
          .served c m.scene.gate.error m.scene.gate.description⟩ :: rest := by
  obtain ⟨m₁, marks₁, hstep, rfl, h₁⟩ := h.exists_step fun r hr => by cases htask.symm.trans hr
  obtain ⟨hdeeds, hstep₁⟩ := Machine.step_settled (e := e) htask rfl hentry
  cases hstep.symm.trans hstep₁
  obtain ⟨m₂, rest, hstep₂, rfl, h₂⟩ := h₁.exists_step fun r hr => nomatch hr
  refine ⟨?_, rest, by rw [Machine.marks_of_deeds hdeeds]; rfl⟩
  cases c with
  | noting name actions failure =>
    obtain rfl := hc name actions failure rfl
    cases hstep₂
    exact h₂.settledReply_of_calling (.reacts actions)
  | raising =>
    cases hstep₂
    cases herror : m.scene.gate.error with
    | none =>
      refine h₂.settledReply_of_calling ?_
      simp only [Machine.call, Machine.goOn, Machine.push, herror]
      exact .ends
    | some x =>
      -- the error is raised at once, and the gate has not changed
      obtain ⟨m₃, _, hstep₃, -, h₃⟩ := h₂.exists_step fun r _ hframes =>
        absurd (congrArg List.length hframes) (Nat.succ_ne_self _)
      simp only [Machine.step?, Machine.call, Machine.goOn, Machine.push, herror, Machine.resume,
        Option.some.injEq] at hstep₃
      subst hstep₃
      obtain ⟨rfl, -⟩ := h₃.eq_of_reply rfl rfl
      simp [Gate.settledReply, herror]

/-! ## Agreement -/

/-- What a callback is told that comes with a call: at once, or when its turn comes after those that
were queued before. -/
inductive Hears (trace : List Mark) (m : Machine σ) (c : Callback) (marks : List Mark)
    (error : Option Failure) (description : Option Entries) : Prop where
  | served {rest : List Mark} (settled : m.scene.gate.entry m.thread = .settled)
      (marks_eq : marks = ⟨m.scene.gate.result, m.thread, .handed c⟩ ::
        ⟨m.scene.gate.result, m.thread, .served c error description⟩ :: rest)
  | delivered (waits : m.scene.gate.entry m.thread ≠ .settled)
      (call : (delivered (period (trace ++ marks) m.scene.gate.result))[
        (queued (period trace m.scene.gate.result)).length]? = some (c, error, description))

/-- Whether a reply tells the caller what its callback was told: the description, or the error. -/
def SameOutcome (trace : List Mark) (m : Machine σ) (c : Callback) (marks : List Mark)
    (r : Outcome Value) : Prop :=
  ∃ f : Finding, Hears trace m c marks f.error? f.description? ∧ r = f.reply

/-- Whether the time that a caller gave was up before there was a result. -/
def TimedOut (m : Machine σ) (timeout : Option Value) (m' : Machine σ) : Prop :=
  m.scene.gate.entry m.thread ≠ .settled ∧ timeout.isSome ∧
    m'.scene.gate.finding? m.scene.gate.result = none

theorem not_timedOut_none (m m' : Machine σ) : ¬TimedOut m none m' :=
  fun h => Bool.false_ne_true h.2.1

theorem Finding.eq_of_heard {f f' : Finding} (herror : f.error? = f'.error?)
    (hdescription : f.description? = f'.description?) : f = f' := by
  cases f <;> cases f' <;> simp_all [error?, description?]

/-- Who has to wait gets the result, and so does its callback; but an error about a wait is told to
the callback only. -/
theorem Returns.sameOutcome_of_waits (h : Returns e m.frames m marks m') (hrun : Run e trace m)
    (htask : m.task = .act (.ensureReady (some c) true interval timeout))
    (hentry : m.scene.gate.entry m.thread ≠ .settled) (calm : ¬Interrupted marks)
    (intime : ¬TimedOut m timeout m') :
    ∃ r f, m'.task = .reply r ∧ m'.scene.gate.finding? m.scene.gate.result = some f ∧
      (SameOutcome trace m c marks r ↔ ¬f.TellsOfWait) := by
  rcases h.answers_call hrun htask hentry calm with ⟨f, hf, hreply⟩ | ⟨t, rfl, hnone, -⟩
  · have htold := (h.run hrun).told_of_resolved (Gate.mem_of_finding? hf)
    have hcall : (delivered (period (trace ++ marks) m.scene.gate.result))[
        (queued (period trace m.scene.gate.result)).length]? =
          some (c, f.error?, f.description?) := by
      obtain ⟨_, marks', -, rfl, -⟩ := h.exists_step fun r hr => by cases htask.symm.trans hr
      rw [htold.delivered, Machine.queued_call htask hentry]
      simp
    refine ⟨_, f, hreply, hf, ?_, fun hcalm => ⟨f, .delivered hentry hcall, ?_⟩⟩
    · rintro ⟨f', hears, hreply'⟩
      cases hears with
      | served settled => exact absurd settled hentry
      | delivered _ hcall' =>
        obtain ⟨herror, hdescription⟩ : f.error? = f'.error? ∧ f.description? = f'.description? :=
          by simpa using hcall.symm.trans hcall'
        obtain rfl := Finding.eq_of_heard herror hdescription
        exact Finding.awaited_eq_reply_iff.mp hreply'
    · exact Finding.awaited_eq_reply_iff.mpr hcalm
  · exact absurd ⟨hentry, rfl, hnone⟩ intime

/-- For whom the matter is settled, the reply is what the callback was told exactly if the gate
still holds it. -/
theorem sameOutcome_settled_iff (trace : List Mark) {s' : Option Stand} {p' rest : List Mark}
    (hm : Stage m.scene.gate s p) (hm' : Stage m'.scene.gate s' p')
    (hentry : m.scene.gate.entry m.thread = .settled)
    (hmarks : marks = ⟨m.scene.gate.result, m.thread, .handed c⟩ :: ⟨m.scene.gate.result, m.thread,
      .served c m.scene.gate.error m.scene.gate.description⟩ :: rest) :
    SameOutcome trace m c marks m'.scene.gate.settledReply ↔
      m'.scene.gate.error = m.scene.gate.error ∧
        m'.scene.gate.description = m.scene.gate.description := by
  constructor
  · rintro ⟨f, hears, hreply⟩
    obtain ⟨herror, hdescription⟩ : m.scene.gate.Holds f := by
      cases hears with
      | served _ marks_eq =>
        rw [hmarks] at marks_eq
        simp only [List.cons.injEq, Mark.mk.injEq, Deed.served.injEq, true_and] at marks_eq
        exact marks_eq.1
      | delivered waits => exact absurd hentry waits
    obtain ⟨herror', hdescription'⟩ := hm'.settledReply_eq_iff.mp hreply
    exact ⟨herror'.trans herror.symm, hdescription'.trans hdescription.symm⟩
  · rintro ⟨herror', hdescription'⟩
    obtain ⟨f, ⟨herror, hdescription⟩, -⟩ := hm.exists_settled hentry
    refine ⟨f, .served hentry (by rw [hmarks, herror, hdescription]), ?_⟩
    exact Gate.Holds.settledReply ⟨herror'.trans herror, hdescription'.trans hdescription⟩

/-- A period without a reset keeps its finding. -/
theorem same_finding_of_no_reset {s' : Option Stand} (h : Account trace m s)
    (h' : Account (trace ++ marks) m' s') (hresets : resets marks = 0)
    (hentry : m.scene.gate.entry m.thread = .settled) :
    m'.scene.gate.error = m.scene.gate.error ∧
      m'.scene.gate.description = m.scene.gate.description := by
  have hresult : m'.scene.gate.result = m.scene.gate.result := by
    rw [← h'.resets, ← h.resets]
    simp only [resets, List.map_append, List.countP_append] at hresets ⊢
    omega
  obtain ⟨f, ⟨herror, hdescription⟩, mark, hmark, hdeed⟩ := h.stage.exists_settled hentry
  have hmark' : mark ∈ period (trace ++ marks) m'.scene.gate.result := by
    rw [hresult, period_append]
    exact List.mem_append_left _ hmark
  obtain ⟨herror', hdescription'⟩ := h'.stage.holds_of_mark hmark' hdeed
  exact ⟨herror'.trans herror.symm, hdescription'.trans hdescription.symm⟩

/-- Whether what a callback is told also reaches its caller: who finds the matter settled finds the
same at its return, and who waits gets no error about a wait. -/
structure KeptFor (m m' : Machine σ) : Prop where
  settled : m.scene.gate.entry m.thread = .settled →
    m'.scene.gate.error = m.scene.gate.error ∧
      m'.scene.gate.description = m.scene.gate.description
  waited : m.scene.gate.entry m.thread ≠ .settled →
    ∀ f, m'.scene.gate.finding? m.scene.gate.result = some f → ¬f.TellsOfWait

/-- **Agreement**: let a call wait, with a callback that raises nothing of its own, and let neither
its time be up nor a callback interrupt the handing out meanwhile. The caller gets what its callback
was told, with two exceptions. Who finds the matter settled gets what the gate holds when the
callback is done; that is the same exactly if the gate holds it still, as it does if it was not
reset. Who has to wait is told that its time is up if the check failed by an error about a wait. -/
theorem Returns.sameOutcome_iff (h : Returns e m.frames m marks m') (hrun : Run e trace m)
    (htask : m.task = .act (.ensureReady (some c) true interval timeout)) (hc : c.RaisesNone)
    (calm : ¬Interrupted marks) (intime : ¬TimedOut m timeout m') :
    ∃ r, m'.task = .reply r ∧ (SameOutcome trace m c marks r ↔ KeptFor m m') ∧
      (resets marks = 0 → m.scene.gate.entry m.thread = .settled → KeptFor m m') := by
  obtain ⟨s, account⟩ := hrun.account
  obtain ⟨s', account'⟩ := (h.run hrun).account
  by_cases hentry : m.scene.gate.entry m.thread = .settled
  · obtain ⟨hreply, rest, hmarks⟩ := h.settledReply htask hc hentry
    refine ⟨_, hreply, ?_, fun hresets _ => ⟨fun _ => ?_, absurd hentry⟩⟩
    · rw [sameOutcome_settled_iff trace account.stage account'.stage hentry hmarks]
      exact ⟨fun h => ⟨fun _ => h, absurd hentry⟩, fun h => h.settled hentry⟩
    · exact same_finding_of_no_reset account account' hresets hentry
  · obtain ⟨r, f, hreply, hfinding, hsame⟩ := h.sameOutcome_of_waits hrun htask hentry calm intime
    refine ⟨r, hreply, ?_, fun _ h => absurd h hentry⟩
    rw [hsame]
    constructor
    · intro htells
      refine ⟨fun h => absurd h hentry, fun _ f' hf' => ?_⟩
      exact Option.some.inj (hfinding.symm.trans hf') ▸ htells
    · exact fun h => h.waited hentry f hfinding

/-- A machine that runs until it replies returns. -/
theorem Machine.returns_run {fuel : Nat} {r : Outcome Value}
    (htask : (m.run e fuel).task = .reply r) (hframes : (m.run e fuel).frames = []) :
    Returns e [] m (m.marksOf e fuel) (m.run e fuel) := by
  induction fuel generalizing m with
  | zero => exact .replied htask hframes
  | succ fuel ih =>
    rw [run] at htask hframes ⊢
    rw [marksOf]
    cases hstep : m.step? e with
    | none =>
      rw [hstep] at htask hframes
      exact .replied htask hframes
    | some m' =>
      rw [hstep] at htask hframes
      refine .step ?_ hstep (ih htask hframes)
      rintro ⟨r', htask', hframes'⟩
      simp [step?, htask', hframes'] at hstep

theorem sameOutcome_created :
    let third := Action.ensureReady (some (.noting "third" [] none)) true none none
    let marks := Machine.created.marksOf Scripts.environ 64
    let m' := Machine.created.run Scripts.environ 64
    Run Scripts.environ [] Machine.created ∧ Returns Scripts.environ [] Machine.created marks m' ∧
      ¬Interrupted marks ∧ ¬TimedOut Machine.created none m' ∧
      ∃ r, m'.task = .reply r ∧
        SameOutcome [] Machine.created (.noting "first" [third] none) marks r := by
  have hrun : Run Scripts.environ [] Machine.created := .scripted _ _ 0
  have hreturns : Returns Scripts.environ [] Machine.created
      (Machine.created.marksOf Scripts.environ 64) (Machine.created.run Scripts.environ 64) :=
    Machine.returns_run (r := .ok (.map [(.text "TableStatus", .text "ACTIVE")]))
      (by with_unfolding_all rfl) (by with_unfolding_all rfl)
  have calm : ¬Interrupted (Machine.created.marksOf Scripts.environ 64) :=
    (not_interrupted_iff_any _).mpr (by with_unfolding_all rfl)
  have intime := not_timedOut_none Machine.created (Machine.created.run Scripts.environ 64)
  have hc : Callback.RaisesNone (.noting "first"
      [.ensureReady (some (.noting "third" [] none)) true none none] none) :=
    fun _ _ _ h => by cases h; rfl
  have hkept : KeptFor Machine.created (Machine.created.run Scripts.environ 64) := by
    refine ⟨fun h => absurd h (by decide), ?_⟩
    rintro - f hf ⟨text, rfl⟩
    have hfinding : (Machine.created.run Scripts.environ 64).scene.gate.finding? 0 =
      some (.ok [(.text "TableStatus", .text "ACTIVE")]) := by with_unfolding_all rfl
    cases hfinding.symm.trans hf
  obtain ⟨r, hreply, hiff, -⟩ := Returns.sameOutcome_iff hreturns hrun rfl hc calm intime
  exact ⟨hrun, hreturns, calm, intime, r, hreply, hiff.mpr hkept⟩

/-- A call that finds the table usable, with a callback that resets the gate. -/
def Machine.forgetful : Machine Scripts :=
  let ready := { describe := [{ ending := .ok (.map [(.text "TableStatus", .text "ACTIVE")]) }] :
    Scripts }.machine (.ensureReady none true none none)
  (ready.run Scripts.environ 16).scene.machine
    (.ensureReady (some (.noting "again" [.reset] none)) true none none)

/-- The caller gets nothing when its callback, which was told the description, resets the gate. -/
theorem not_sameOutcome_forgetful :
    let marks := Machine.forgetful.marksOf Scripts.environ 16
    let m' := Machine.forgetful.run Scripts.environ 16
    (∃ trace, Run Scripts.environ trace Machine.forgetful ∧
      ¬SameOutcome trace Machine.forgetful (.noting "again" [.reset] none) marks (.ok .null)) ∧
    Returns Scripts.environ [] Machine.forgetful marks m' ∧ ¬Interrupted marks ∧
    ¬TimedOut Machine.forgetful none m' ∧ m'.task = .reply (.ok .null) := by
  have hreply : (Machine.forgetful.run Scripts.environ 16).task = .reply (.ok .null) := by
    with_unfolding_all rfl
  have hreturns := Machine.returns_run hreply (by with_unfolding_all rfl)
  have calm : ¬Interrupted (Machine.forgetful.marksOf Scripts.environ 16) :=
    (not_interrupted_iff_any _).mpr (by with_unfolding_all rfl)
  refine ⟨⟨_, .next (.scripted _ _ 16) (r := .ok (.map [(.text "TableStatus", .text "ACTIVE")]))
    (by with_unfolding_all rfl) (by with_unfolding_all rfl) _ _, ?_⟩,
    hreturns, calm, not_timedOut_none _ _, hreply⟩
  rintro ⟨f, -, hnull⟩
  cases f <;> cases hnull

end DocTable
