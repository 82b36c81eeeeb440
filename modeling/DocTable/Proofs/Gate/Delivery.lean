import DocTable.Proofs.Gate.Return
import DocTable.Proofs.Gate.SingleFlight

/-! How findings are handed out, unless a callback interrupts that. All who wait for a check are
told its finding, in the order in which they came; those who come when the matter is settled are
told at once; and a call returns when its own callback was called. -/

namespace DocTable

variable {σ : Type}

/-- All who waited for a check were told its finding: each callback was called once, in the order in
which they were queued, and after all that the check asked for. -/
structure Told (f : Finding) (p : List Mark) : Prop where
  delivered : delivered p = (queued p).map (·, f.error?, f.description?)
  /-- Whoever is called at all is told the same. -/
  calls : ∀ call ∈ called p, call.2 = (f.error?, f.description?)
  /-- When the finding is there, only other threads than the one that hands it out have to wait. -/
  last : ∃ before mark after, p = before ++ mark :: after ∧ mark.deed = .settled f ∧
    called before = [] ∧ course after = [] ∧
    ∀ later ∈ after, later.deed.queued?.isSome → later.thread ≠ mark.thread

/-- The check of a period has begun and is over. -/
def Ended (trace : List Mark) (m : Machine σ) (n : Nat) : Prop :=
  (∃ mark ∈ period trace n, mark.deed.isBegun = true) ∧
    (n < m.scene.gate.result ∨ m.stands = [])

/-- A callback that is handed over, or called as such. -/
def Deed.isHanding : Deed → Bool
  | handed _ | served .. => true
  | _ => false

/-- Traces in which each callback that is handed over is called next, and none is called like that
otherwise. -/
inductive Prompt : List Mark → Prop where
  | nil : Prompt []
  | other {trace : List Mark} {mark : Mark} :
      Prompt trace → mark.deed.isHanding = false → Prompt (trace ++ [mark])
  | serve {trace : List Mark} (number : Nat) (thread : Thread) (c : Callback)
      (error : Option Failure) (description : Option Entries) : Prompt trace →
      Prompt (trace ++ [⟨number, thread, .handed c⟩, ⟨number, thread, .served c error description⟩])

/-- A callback was handed over and is going to be called. -/
def Machine.Hands (m : Machine σ) (c : Callback) : Prop :=
  ∃ error description block frames, m.task = .call c error description ∧
    m.frames = .called block :: frames

/-! ## Callbacks that wait -/

section

variable {g : Gate} {t : Thread} {f f' : Finding} {inHand : List Callback} {p : List Mark}
  {mark : Mark} {deeds : List Deed} {s : Option Stand}

theorem mem_course (hmark : mark ∈ p) (hcheck : mark.deed.ofCheck = true) :
    mark.deed ∈ course p :=
  List.mem_filter.mpr ⟨List.mem_map_of_mem hmark, hcheck⟩

theorem mem_called_of_delivered {call : Callback × Option Failure × Option Entries}
    (h : call ∈ delivered p) : call ∈ called p := by
  obtain ⟨mark, hmark, hcall⟩ := List.mem_filterMap.mp h
  refine List.mem_filterMap.mpr ⟨mark, hmark, ?_⟩
  cases hdeed : mark.deed <;> simp_all [Deed.delivered?, Deed.called?]

theorem settled_not_mem_progress (interval : Value) (ps : List Probe) :
    .settled f ∉ progress interval ps := by
  simp [progress, Probe.deeds]

/-- A check has one finding, which one thread hands out. -/
theorem Settled.eq_of_mark (h : Settled g t f inHand p) (hmark : mark ∈ p)
    (hdeed : mark.deed = .settled f') : mark.thread = t ∧ f' = f := by
  obtain ⟨before, after, interval, ps, rfl, hbefore, -, -, hafter, -⟩ := h.split
  have hcheck : mark.deed.ofCheck = true := by rw [hdeed]; rfl
  rcases List.mem_append.mp hmark with hmem | hmem
  · have := mem_course hmem hcheck
    rw [hbefore, hdeed] at this
    exact absurd this (settled_not_mem_progress interval ps)
  · rcases List.mem_cons.mp hmem with rfl | hmem
    · exact ⟨rfl, (Deed.settled.inj hdeed).symm⟩
    · have := mem_course hmem hcheck
      rw [hafter] at this
      cases this

theorem not_settled_of_opened {interval : Value} {ps : List Probe} {rest : List Deed}
    (h : Opened g (progress interval ps ++ rest) p) (hrest : .settled f ∉ rest) (hmark : mark ∈ p) :
    mark.deed ≠ .settled f := by
  intro hdeed
  have := mem_course hmark (by rw [hdeed]; rfl)
  rw [h.progress, hdeed, List.mem_append] at this
  exact this.elim (settled_not_mem_progress interval ps) hrest

theorem Settled.told (h : Settled g t f [] p) (hwaiters : g.waiters = []) : Told f p where
  delivered := by
    rw [h.queue, hwaiters, List.append_nil, List.append_nil, List.map_map]
    refine ((List.map_congr_left fun call hcall => ?_).trans (List.map_id _)).symm
    exact Prod.ext rfl (h.calls call (mem_called_of_delivered hcall)).symm
  calls := h.calls
  last := by
    obtain ⟨before, after, interval, ps, hp, -, -, hcalled, hcourse, hthreads⟩ := h.split
    refine ⟨before, _, after, hp, rfl, hcalled, hcourse, fun later hlater hqueued heq => ?_⟩
    rw [hthreads later hlater heq] at hqueued
    cases hqueued

theorem Told.reset (h : Told f p) (number : Nat) (thread : Thread) :
    Told f (p ++ [⟨number, thread, .reset⟩]) where
  delivered := by simpa [Deed.delivered?, Deed.queued?] using h.delivered
  calls := by simpa [Deed.called?] using h.calls
  last := by
    obtain ⟨before, mark, after, rfl, hdeed, hcalled, hcourse, hthreads⟩ := h.last
    refine ⟨before, mark, after ++ [⟨number, thread, .reset⟩], by simp, hdeed, hcalled,
      by simp [hcourse, Deed.ofCheck], fun later hlater hqueued => ?_⟩
    rcases List.mem_append.mp hlater with hmem | hmem
    · exact hthreads later hmem hqueued
    · obtain rfl := List.mem_singleton.mp hmem
      cases hqueued

/-- Where nothing of a check is left to be done, all who waited were told. -/
theorem Stage.told (h : Stage g none p) (hbegun : ∃ mark ∈ p, mark.deed.isBegun = true)
    (calm : ¬Interrupted p) : ∃ f, Told f p := by
  cases h with
  | unknown =>
    obtain ⟨mark, hmark, -⟩ := hbegun
    cases hmark
  | finished published settled => exact ⟨_, settled.told published.waiters⟩
  | broken _ _ _ interrupted => exact absurd interrupted calm

theorem Interrupted.of_period {trace : List Mark} {n : Nat} (h : Interrupted (period trace n)) :
    Interrupted trace := by
  obtain ⟨mark, hmark, hinterrupted⟩ := h
  exact ⟨mark, (List.mem_filter.mp hmark).1, hinterrupted⟩

end

section

variable {e : Environ σ} {trace : List Mark} {m m' : Machine σ} {s : Option Stand}

theorem Account.told (h : Account trace m s) (calm : ¬Interrupted trace) {n : Nat}
    (hended : Ended trace m n) : ∃ f, Told f (period trace n) := by
  obtain ⟨hbegun, hend⟩ := hended
  have hcalm : ¬Interrupted (period trace n) := fun hi => calm hi.of_period
  by_cases hn : n < m.scene.gate.result
  · obtain ⟨g, p, thread, hp, -, -, -, stage⟩ := h.past n hn
    rw [hp] at hbegun hcalm ⊢
    have hbegun' : ∃ mark ∈ p, mark.deed.isBegun = true := by
      obtain ⟨mark, hmark, hdeed⟩ := hbegun
      rcases List.mem_append.mp hmark with hmem | hmem
      · exact ⟨mark, hmem, hdeed⟩
      · obtain rfl := List.mem_singleton.mp hmem
        cases hdeed
    obtain ⟨f, hf⟩ := stage.told hbegun' fun hi => hcalm ((interrupted_append ..).mpr (.inl hi))
    exact ⟨f, hf.reset n thread⟩
  · have hnil := hend.resolve_left hn
    obtain ⟨mark, hmark, -⟩ := id hbegun
    have hle := h.number_le (List.mem_filter.mp hmark).1
    have hnumber : mark.number = n := by simpa using (List.mem_filter.mp hmark).2
    obtain rfl : n = m.scene.gate.result := by omega
    obtain rfl := h.eq_none hnil
    exact h.stage.told hbegun hcalm

/-! ## Callbacks that are handed over -/

theorem Prompt.append {trace : List Mark} (h : Prompt trace) (marks : List Mark)
    (hmarks : ∀ mark ∈ marks, mark.deed.isHanding = false) : Prompt (trace ++ marks) := by
  induction marks generalizing trace with
  | nil => simpa using h
  | cons mark marks ih =>
    rw [List.append_cons]
    exact ih (h.other (hmarks mark List.mem_cons_self))
      fun mark' hmark' => hmarks mark' (List.mem_cons_of_mem _ hmark')

/-- Who comes with a callback when the matter is settled, hands it over. -/
theorem Machine.step_settled {callback : Option Callback} {block : Bool}
    {interval timeout : Option Value} {c : Callback}
    (htask : m.task = .act (.ensureReady callback block interval timeout))
    (hc : waiter callback block = some c) (hentry : m.scene.gate.entry m.thread = .settled) :
    m.deeds = [.handed c] ∧ m.step? e = some (m.push (.called block)
      (.call c m.scene.gate.error m.scene.gate.description)) := by
  constructor
  · simp [deeds, htask, hentry, hc]
  · simp only [step?, htask, act, ensureReady_of_settled hentry, hc]

/-- A callback is handed over by who comes when the matter is settled, and called by who was about
to. -/
theorem Machine.isHanding_cases {deed : Deed} (h : deed ∈ m.deeds)
    (hdeed : deed.isHanding = true) :
    (∃ callback block interval timeout c,
      m.task = .act (.ensureReady callback block interval timeout) ∧
      waiter callback block = some c ∧ m.scene.gate.entry m.thread = .settled) ∨
      ∃ c, m.Hands c := by
  have only : ∀ {d : Deed}, deed ∈ [d] → d.isHanding = false → False := fun hmem hd => by
    rw [List.mem_singleton.mp hmem, hd] at hdeed
    cases hdeed
  unfold deeds at h
  split at h
  · rename_i callback block interval timeout htask
    have waits : deed ∉ ((waiter callback block).map Deed.queued).toList := fun hmem => by
      obtain ⟨c, -, rfl⟩ := Option.map_eq_some_iff.mp (Option.mem_toList.mp hmem)
      cases hdeed
    split at h
    · rcases List.mem_cons.mp h with rfl | hmem
      · cases hdeed
      · exact absurd hmem waits
    · exact absurd h waits
    · obtain ⟨c, hc, -⟩ := Option.map_eq_some_iff.mp (Option.mem_toList.mp h)
      exact .inl ⟨callback, block, interval, timeout, c, htask, hc, ‹_›⟩
  · split at h
    · cases h
    · exact (only h rfl).elim
  · rename_i c error description htask
    split at h
    · exact (only h rfl).elim
    · exact .inr ⟨c, error, description, _, _, htask, ‹_›⟩
    · cases h
  · exact (only h rfl).elim
  · exact (only h rfl).elim
  · split at h
    · exact (only h rfl).elim
    · exact (only h rfl).elim
    · cases h
  · cases h

theorem Machine.hands_of_isHanding {deed : Deed} (h : deed ∈ m.deeds)
    (hdeed : deed.isHanding = true) (hstep : m.step? e = some m') :
    ∃ c, m.Hands c ∨ m'.Hands c := by
  rcases m.isHanding_cases h hdeed with ⟨callback, block, _, _, c, htask, hc, hentry⟩ | ⟨c, hc⟩
  · cases hstep.symm.trans (step_settled (e := e) htask hc hentry).2
    exact ⟨c, .inr ⟨_, _, block, _, rfl, rfl⟩⟩
  · exact ⟨c, .inl hc⟩

theorem Machine.deeds_of_hands {c : Callback} (h : m.Hands c) :
    ∃ error description, m.deeds = [.served c error description] := by
  obtain ⟨error, description, block, frames, htask, hframes⟩ := h
  exact ⟨error, description, by simp [deeds, htask, hframes]⟩

/-- Each callback that is handed over is called in the next step. -/
theorem Run.prompt (h : Run e trace m) :
    Prompt trace ∧ (∀ c, ¬m.Hands c) ∨
      ∃ trace' c, trace = trace' ++ [⟨m.scene.gate.result, m.thread, .handed c⟩] ∧
        Prompt trace' ∧ m.Hands c := by
  induction h with
  | start => exact .inl ⟨.nil, fun c ⟨_, _, _, _, h, _⟩ => nomatch h⟩
  | next _ _ hframes _ _ ih =>
    rcases ih with ⟨h, -⟩ | ⟨_, _, _, _, _, _, _, _, _, hframes'⟩
    · exact .inl ⟨h, fun c ⟨_, _, _, _, h, _⟩ => nomatch h⟩
    · cases hframes.symm.trans hframes'
  | @step trace m m' _ hstep ih =>
    -- a machine that hands a callback over has just noted that, and serves it in its next step
    by_cases hhands : ∃ c, m'.Hands c
    · obtain ⟨c, hc⟩ := id hhands
      obtain ⟨error, description, block, frames, htask, hframes⟩ := id hc
      obtain ⟨hdeeds, hthread, hgate, -⟩ := Machine.step_called hstep htask hframes
      rcases ih with ⟨h, -⟩ | ⟨_, c', -, -, hc'⟩
      · refine .inr ⟨trace, c, ?_, h, hc⟩
        rw [Machine.marks_of_deeds hdeeds, hgate, hthread]
      · obtain ⟨_, _, hserved⟩ := Machine.deeds_of_hands hc'
        cases hdeeds.symm.trans hserved
    · have hnot : ∀ c, ¬m'.Hands c := fun c hc => hhands ⟨c, hc⟩
      rcases ih with ⟨h, hm⟩ | ⟨trace', c, rfl, h, hc⟩
      · refine .inl ⟨h.append _ fun mark hmark => ?_, hnot⟩
        obtain ⟨deed, hdeed, rfl⟩ := List.mem_map.mp hmark
        refine Bool.eq_false_iff.mpr fun hhanding => ?_
        obtain ⟨c, hc | hc⟩ := Machine.hands_of_isHanding hdeed hhanding hstep
        · exact hm c hc
        · exact hnot c hc
      · obtain ⟨error, description, hdeeds⟩ := Machine.deeds_of_hands hc
        rw [Machine.marks_of_deeds hdeeds, List.append_assoc]
        exact .inl ⟨h.serve .., hnot⟩

/-- Once the finding is there the check is settled. The thread that got it hands it out, and stays
at that if it is interrupted, or it is published. -/
theorem Stage.settled_of_mark {g : Gate} {p : List Mark} {mark : Mark} {f : Finding}
    (h : Stage g s p) (hmark : mark ∈ p) (hdeed : mark.deed = .settled f) :
    ∃ inHand, Settled g mark.thread f inHand p ∧
      (g.state = .checking ∧ g.drainer = some mark.thread ∧ (s = none → Interrupted p) ∨
        Published g f) := by
  cases h with
  | unknown => cases hmark
  | asks _ opened | found _ opened =>
    rw [← List.append_nil (progress _ _)] at opened
    exact absurd hdeed (not_settled_of_opened opened (by simp) hmark)
  | awaits _ opened => exact absurd hdeed (not_settled_of_opened opened (by simp) hmark)
  | delivers state drainer settled | hands state drainer settled =>
    obtain ⟨rfl, rfl⟩ := settled.eq_of_mark hmark hdeed
    exact ⟨_, settled, .inl ⟨state, drainer, nofun⟩⟩
  | broken state drainer settled interrupted =>
    obtain ⟨rfl, rfl⟩ := settled.eq_of_mark hmark hdeed
    exact ⟨_, settled, .inl ⟨state, drainer, fun _ => interrupted⟩⟩
  | resolves published settled | finished published settled =>
    obtain ⟨rfl, rfl⟩ := settled.eq_of_mark hmark hdeed
    exact ⟨_, settled, .inr published⟩

/-- Once the finding is there, the matter is settled for the thread that hands it out, and for all
when nothing of the check is left to be done. -/
theorem Stage.entry_of_settled {g : Gate} {p : List Mark} {mark : Mark} {f : Finding}
    {thread : Thread} (h : Stage g s p) (calm : ¬Interrupted p) (hmark : mark ∈ p)
    (hdeed : mark.deed = .settled f) (hthread : thread = mark.thread ∨ s = none) :
    g.entry thread = .settled ∧ g.error = f.error? ∧ g.description = f.description? := by
  obtain ⟨_, settled, hands | published⟩ := h.settled_of_mark hmark hdeed
  · obtain ⟨hstate, hdrainer, hnone⟩ := hands
    have hsame : thread = mark.thread := hthread.resolve_right fun hs => calm (hnone hs)
    exact ⟨by simp [Gate.entry, hstate, hdrainer, hsame], settled.error, settled.description⟩
  · exact ⟨published.entry thread, settled.error, settled.description⟩

/-- Who comes with a callback when the matter is settled, has it called next, with the finding. -/
theorem Account.comes (h : Account trace m s) (calm : ¬Interrupted trace)
    {callback : Option Callback} {block : Bool} {interval timeout : Option Value} {c : Callback}
    {mark : Mark} {f : Finding}
    (htask : m.task = .act (.ensureReady callback block interval timeout))
    (hc : waiter callback block = some c) (hmark : mark ∈ period trace m.scene.gate.result)
    (hdeed : mark.deed = .settled f) (hthread : m.thread = mark.thread ∨ m.stands = []) :
    m.deeds = [.handed c] ∧ ∃ m', m.step? e = some m' ∧
      m'.deeds = [.served c f.error? f.description?] := by
  obtain ⟨hentry, herror, hdescription⟩ := h.stage.entry_of_settled
    (fun hi => calm hi.of_period) hmark hdeed (hthread.imp_right h.eq_none)
  obtain ⟨hdeeds, hstep⟩ := Machine.step_settled (e := e) htask hc hentry
  refine ⟨hdeeds, _, hstep, ?_⟩
  rw [← herror, ← hdescription]
  rfl

/-! ## Calls that return -/

theorem Move.resolved_eq {thread : Thread} {g g' : Gate} {s s' : Option Stand} {deeds : List Deed}
    (h : Move thread g s deeds g' s') :
    g'.resolved = g.resolved ∨
      ∃ f, s = some (.resolves f) ∧ g'.resolved = (g.result, f) :: g.resolved := by
  cases h with
  | settle f => cases f <;> exact .inl rfl
  | resolve f => exact .inr ⟨f, rfl, rfl⟩
  | _ => exact .inl rfl

theorem Gate.resolved_of_reset {g g' : Gate} (h : g.reset = .ok g') : g'.resolved = g.resolved := by
  unfold Gate.reset at h
  split at h <;> cases h
  rfl

/-- When the result of a period is there, all who waited for it have been told. -/
theorem Stage.told_of_resolved {g : Gate} {f : Finding} {p : List Mark} (h : Stage g s p)
    (hf : (g.result, f) ∈ g.resolved) : Told f p := by
  cases h with
  | finished published settled calm resolved unresolved =>
    rw [resolved] at hf
    rcases List.mem_cons.mp hf with heq | hold
    · cases heq
      exact settled.told published.waiters
    · exact absurd (unresolved _ hold) (Nat.lt_irrefl _)
  | unknown _ _ _ _ _ unresolved | resolves _ _ _ unresolved | delivers _ _ _ _ unresolved
  | hands _ _ _ _ unresolved | broken _ _ _ _ unresolved =>
    exact absurd (unresolved _ hf) (Nat.lt_irrefl _)
  | asks _ opened | awaits _ opened | found _ opened =>
    exact absurd (opened.unresolved _ hf) (Nat.lt_irrefl _)

/-- A result is what all who waited for it were told. -/
theorem Run.told_of_resolved (h : Run e trace m) {n : Nat} {f : Finding}
    (hf : (n, f) ∈ m.scene.gate.resolved) : Told f (period trace n) := by
  induction h with
  | start made =>
    cases Gate.eq_of_make made
    cases hf
  | next _ _ _ _ _ ih => exact ih hf
  | @step trace m m' hrun hstep ih =>
    obtain ⟨s, account⟩ := hrun.account
    obtain ⟨s', account'⟩ := account.step hstep
    by_cases hn : n = m'.scene.gate.result
    · subst hn
      exact account'.stage.told_of_resolved hf
    -- the period is over, so nothing but a reset can have been added to it
    rcases Machine.step_move account.stands account.unknown account.hands hstep with
      ⟨_, -, move⟩ | ⟨-, hreset, hdeeds, -⟩
    · rw [move.result_eq] at hn
      have hf' : (n, f) ∈ m.scene.gate.resolved := by
        rcases move.resolved_eq with heq | ⟨f', -, heq⟩
        · exact heq ▸ hf
        · rw [heq] at hf
          exact (List.mem_cons.mp hf).resolve_left fun h => hn (congrArg Prod.fst h)
      rw [period_append, m.period_marks_of_ne (Ne.symm hn), List.append_nil]
      exact ih hf'
    · have hf' : (n, f) ∈ m.scene.gate.resolved := Gate.resolved_of_reset hreset ▸ hf
      rw [period_append]
      by_cases hlast : m.scene.gate.result = n
      · subst hlast
        rw [m.period_marks, Machine.marks_of_deeds hdeeds]
        exact (ih hf').reset _ _
      · rw [m.period_marks_of_ne hlast, List.append_nil]
        exact ih hf'

/-- The callback of a call that waits is queued. -/
theorem Machine.queued_marks {c : Callback} {interval timeout : Option Value}
    (htask : m.task = .act (.ensureReady (some c) true interval timeout))
    (hentry : m.scene.gate.entry m.thread ≠ .settled) : queued m.marks = [c] := by
  cases h : m.scene.gate.entry m.thread with
  | settled => exact absurd h hentry
  | starts | waits => simp [queued, marks, deeds, htask, h, waiter, Deed.queued?]

/-- The callback of a call that waits comes after those that were queued before. -/
theorem Machine.queued_call {c : Callback} {interval timeout : Option Value} {marks : List Mark}
    (htask : m.task = .act (.ensureReady (some c) true interval timeout))
    (hentry : m.scene.gate.entry m.thread ≠ .settled) :
    queued (period (trace ++ (m.marks ++ marks)) m.scene.gate.result) =
      queued (period trace m.scene.gate.result) ++
        c :: queued (period marks m.scene.gate.result) := by
  rw [period_append, period_append, m.period_marks, queued_append, queued_append,
    queued_marks htask hentry]
  rfl

/-- The callback of a call that returned was called: at once, or when its turn came. Otherwise the
time that the caller gave was up before there was a finding. -/
def Honoured (trace : List Mark) (m : Machine σ) (c : Callback) (timeout : Option Value)
    (marks : List Mark) (m' : Machine σ) : Prop :=
  let n := m.scene.gate.result
  (∃ error description rest, marks =
    ⟨n, m.thread, .handed c⟩ :: ⟨n, m.thread, .served c error description⟩ :: rest) ∨
  queued (period trace n) ++ [c] <+: (delivered (period (trace ++ marks) n)).map (·.1) ∨
  ∃ t, timeout = some t ∧ m'.scene.gate.finding? n = none ∧
    m'.task = .reply (.error (.timedOut m'.scene.gate.table t.seconds))

theorem Returns.honoured {c : Callback} {interval timeout : Option Value} {marks : List Mark}
    (h : Returns e m.frames m marks m') (hrun : Run e trace m)
    (calm : ¬Interrupted (trace ++ marks))
    (htask : m.task = .act (.ensureReady (some c) true interval timeout)) :
    Honoured trace m c timeout marks m' := by
  obtain ⟨m₁, marks', hstep, rfl, h₁⟩ := h.exists_step fun r hr => by cases htask.symm.trans hr
  by_cases hentry : m.scene.gate.entry m.thread = .settled
  · obtain ⟨hdeeds, hstep'⟩ := Machine.step_settled (e := e) htask rfl hentry
    cases hstep.symm.trans hstep'
    obtain ⟨m₂, rest, -, rfl, -⟩ := h₁.exists_step fun r hr => nomatch hr
    exact .inl ⟨_, _, rest, by rw [Machine.marks_of_deeds hdeeds]; rfl⟩
  · have hquiet : ¬Interrupted (m.marks ++ marks') :=
      fun hi => calm ((interrupted_append ..).mpr (.inr hi))
    rcases h.answers_call hrun htask hentry hquiet with ⟨f, hf, -⟩ | htimeout
    · have htold := (h.run hrun).told_of_resolved (Gate.mem_of_finding? hf)
      refine .inr (.inl ?_)
      rw [htold.delivered, List.map_map]
      refine ⟨queued (period marks' m.scene.gate.result), ?_⟩
      refine Eq.trans ?_ (List.map_id _).symm
      rw [Machine.queued_call htask hentry, List.append_assoc, List.singleton_append]
    · exact .inr (.inr htimeout)

/-! ## Delivery -/

/-- How findings are handed out, at any time of a run. -/
structure Delivery (e : Environ σ) (trace : List Mark) (m : Machine σ) : Prop where
  told : ∀ n, Ended trace m n → ∃ f, Told f (period trace n)
  prompt : Prompt trace ∨ ∃ trace' c, Prompt trace' ∧ m.Hands c ∧
    trace = trace' ++ [⟨m.scene.gate.result, m.thread, .handed c⟩]
  comes : ∀ callback block interval timeout c, ∀ mark ∈ period trace m.scene.gate.result, ∀ f,
    m.task = .act (.ensureReady callback block interval timeout) →
    waiter callback block = some c → mark.deed = .settled f →
    m.thread = mark.thread ∨ m.stands = [] →
    m.deeds = [.handed c] ∧ ∃ m', m.step? e = some m' ∧
      m'.deeds = [.served c f.error? f.description?]
  returns : ∀ trace₀ m₀ c interval timeout marks, Run e trace₀ m₀ →
    m₀.task = .act (.ensureReady (some c) true interval timeout) →
    Returns e m₀.frames m₀ marks m → trace = trace₀ ++ marks →
    Honoured trace₀ m₀ c timeout marks m
  log : m.scene.log.filterMap Event.call? = noted (called trace)

/-- **Delivery**: unless a callback that waited interrupts it, findings are handed out to all who
came, once to each, in order and in time. -/
theorem Run.delivery (h : Run e trace m) (calm : ¬Interrupted trace) : Delivery e trace m := by
  obtain ⟨s, account⟩ := h.account
  refine ⟨fun n hended => account.told calm hended, ?_, ?_, ?_, h.calls_log⟩
  · rcases h.prompt with ⟨hprompt, -⟩ | ⟨trace', c, htrace, hprompt, hc⟩
    · exact .inl hprompt
    · exact .inr ⟨trace', c, hprompt, hc, htrace⟩
  · intro callback block interval timeout c mark hmark f htask hc hdeed hthread
    exact account.comes calm htask hc hmark hdeed hthread
  · rintro trace₀ m₀ c interval timeout marks hrun htask hreturns rfl
    exact hreturns.honoured hrun calm htask

end

theorem delivery_created :
    let m := Machine.created.run Scripts.environ 64
    let trace := Machine.created.marksOf Scripts.environ 64
    ¬Interrupted trace ∧ (noted (called trace)).map (·.1) = ["first", "third", "second"] ∧
      (noted (delivered trace)).map (·.1) = ["first", "second"] ∧
      Delivery Scripts.environ trace m := by
  have calm : ¬Interrupted (Machine.created.marksOf Scripts.environ 64) :=
    (not_interrupted_iff_any _).mpr (by with_unfolding_all rfl)
  refine ⟨calm, ?_, ?_, (Run.scripted ..).delivery calm⟩ <;> with_unfolding_all rfl

end DocTable
