import DocTable.Proofs.Gate.Course
import DocTable.Proofs.Gate.Move

/-! How far the check of a period has come. `Stage` ties the gate and the stand of the check to the
marks of the period: the answers so far are a course of the grammar, those who wait are those who
were queued and not called yet, and every call was made with the finding. `Stage.move` shows that
all moves keep to this. -/

namespace DocTable

/-- The deeds of a check that has begun and was answered some queries. -/
def progress (interval : Value) (ps : List Probe) : List Deed :=
  .begun interval :: ps.flatMap Probe.deeds

theorem progress_snoc (interval : Value) (ps : List Probe) (p : Probe) :
    progress interval (ps ++ [p]) = progress interval ps ++ p.deeds := by
  simp [progress]

/-- A check without a finding: nobody was called yet, and all who came wait. -/
structure Opened (g : Gate) (deeds : List Deed) (p : List Mark) : Prop where
  state : g.state = .checking
  error : g.error = none
  description : g.description = none
  drainer : g.drainer = none
  progress : course p = deeds
  queue : queued p = g.waiters
  uncalled : called p = []
  calm : ¬Interrupted p
  unresolved : ∀ r ∈ g.resolved, r.1 < g.result

/-- A check with a finding, which thread `t` hands out. `inHand` is the callback that is going to be
called, if one is. -/
structure Settled (g : Gate) (t : Thread) (f : Finding) (inHand : List Callback) (p : List Mark) :
    Prop where
  error : g.error = f.error?
  description : g.description = f.description?
  /-- Nobody is called before the check has its finding, and nothing is asked for afterwards; then
  only other threads have to wait. -/
  split : ∃ before after interval ps, p = before ++ ⟨g.result, t, .settled f⟩ :: after ∧
    course before = progress interval ps ∧ Complete g.table interval ps f ∧
    called before = [] ∧ course after = [] ∧
    ∀ mark ∈ after, mark.thread = t → mark.deed.queued? = none
  queue : queued p = (delivered p).map (·.1) ++ inHand ++ g.waiters
  calls : ∀ call ∈ called p, call.2 = (f.error?, f.description?)

/-- A finding that was published. -/
structure Published (g : Gate) (f : Finding) : Prop where
  state : g.state = if f.isOk then .ready else .failed
  drainer : g.drainer = none
  waiters : g.waiters = []

theorem Published.ready_or_failed {g : Gate} {f : Finding} (h : Published g f) :
    g.state = .ready ∨ g.state = .failed := by
  rw [h.state]
  split
  · exact .inl rfl
  · exact .inr rfl

theorem Published.ne_unknown {g : Gate} {f : Finding} (h : Published g f) :
    g.state ≠ .unknown := by
  rcases h.ready_or_failed with hstate | hstate <;> simp [hstate]

theorem Published.ne_checking {g : Gate} {f : Finding} (h : Published g f) :
    g.state ≠ .checking := by
  rcases h.ready_or_failed with hstate | hstate <;> simp [hstate]

theorem Published.entry {g : Gate} {f : Finding} (h : Published g f) (thread : Thread) :
    g.entry thread = .settled := by
  rcases h.ready_or_failed with hstate | hstate <;> simp [Gate.entry, hstate]

/-- How far the check of a period has come, with the marks of the period. -/
inductive Stage (g : Gate) : Option Stand → List Mark → Prop where
  | unknown (state : g.state = .unknown) (error : g.error = none)
      (description : g.description = none) (waiters : g.waiters = []) (drainer : g.drainer = none)
      (unresolved : ∀ r ∈ g.resolved, r.1 < g.result) : Stage g none []
  | asks {interval : Value} {ps : List Probe} {phase : Phase} {p : List Mark}
      (next : Awaited interval ps phase) (opened : Opened g (progress interval ps) p) :
      Stage g (some (.asks phase interval)) p
  | awaits {interval : Value} {ps : List Probe} {phase : Phase} {p : List Mark}
      (next : Awaited interval ps phase)
      (opened : Opened g (progress interval ps ++ [.asked (phase.query interval)]) p) :
      Stage g (some (.awaits phase interval)) p
  | found {interval : Value} {ps : List Probe} {f : Finding} {p : List Mark}
      (complete : Complete g.table interval ps f) (opened : Opened g (progress interval ps) p) :
      Stage g (some (.found f)) p
  | delivers {t : Thread} {f : Finding} {p : List Mark} (state : g.state = .checking)
      (drainer : g.drainer = some t) (settled : Settled g t f [] p) (calm : ¬Interrupted p)
      (unresolved : ∀ r ∈ g.resolved, r.1 < g.result) : Stage g (some (.delivers f)) p
  | hands {t : Thread} {f : Finding} {c : Callback} {p : List Mark} (state : g.state = .checking)
      (drainer : g.drainer = some t) (settled : Settled g t f [c] p) (calm : ¬Interrupted p)
      (unresolved : ∀ r ∈ g.resolved, r.1 < g.result) :
      Stage g (some (.hands f c f.error? f.description?)) p
  | resolves {t : Thread} {f : Finding} {p : List Mark} (published : Published g f)
      (settled : Settled g t f [] p) (calm : ¬Interrupted p)
      (unresolved : ∀ r ∈ g.resolved, r.1 < g.result) : Stage g (some (.resolves f)) p
  | finished {t : Thread} {f : Finding} {old : List (Nat × Finding)} {p : List Mark}
      (published : Published g f) (settled : Settled g t f [] p) (calm : ¬Interrupted p)
      (resolved : g.resolved = (g.result, f) :: old) (unresolved : ∀ r ∈ old, r.1 < g.result) :
      Stage g none p
  /-- A callback interrupted the handing out of the finding. -/
  | broken {t : Thread} {f : Finding} {p : List Mark} (state : g.state = .checking)
      (drainer : g.drainer = some t) (settled : Settled g t f [] p) (interrupted : Interrupted p)
      (unresolved : ∀ r ∈ g.resolved, r.1 < g.result) : Stage g none p

/-- A check has not begun, or it has no finding yet, or it has one. -/
theorem Stage.opened_or_settled {g : Gate} {s : Option Stand} {p : List Mark} (h : Stage g s p) :
    (g.state = .unknown ∧ g.error = none ∧ g.description = none ∧ p = []) ∨
      (∃ deeds, Opened g deeds p) ∨ ∃ t f inHand, Settled g t f inHand p := by
  cases h with
  | unknown state error description => exact .inl ⟨state, error, description, rfl⟩
  | asks _ opened | awaits _ opened | found _ opened => exact .inr (.inl ⟨_, opened⟩)
  | delivers _ _ settled | hands _ _ settled | resolves _ settled | finished _ settled
  | broken _ _ settled => exact .inr (.inr ⟨_, _, _, settled⟩)

/-! ## Moves -/

variable {g g' : Gate} {t : Thread} {f : Finding} {inHand inHand' : List Callback}
  {p q : List Mark} {deeds deeds' : List Deed}

theorem Opened.mark (h : Opened g deeds p) (thread : Thread) (deed : Deed)
    (hcalled : deed.called? = none) (hcalm : deed.interrupted = false) :
    Opened { g with waiters := g.waiters ++ deed.queued?.toList }
      (deeds ++ course [⟨g.result, thread, deed⟩]) (p ++ [⟨g.result, thread, deed⟩]) where
  state := h.state
  error := h.error
  description := h.description
  drainer := h.drainer
  progress := by rw [course_append, h.progress]
  queue := by rw [queued_append, h.queue, queued_singleton]
  uncalled := by rw [called_append, h.uncalled, called_singleton, hcalled]; rfl
  calm := by simp [h.calm, hcalm]
  unresolved := h.unresolved

/-- A mark of the check itself. -/
theorem Opened.check (h : Opened g deeds p) (thread : Thread) (deed : Deed)
    (hcheck : deed.ofCheck = true) :
    Opened g (deeds ++ [deed]) (p ++ [⟨g.result, thread, deed⟩]) := by
  have h' := h.mark thread deed (by cases deed <;> first | rfl | cases hcheck)
    (by cases deed <;> first | rfl | cases hcheck)
  rw [show deed.queued? = none by cases deed <;> first | rfl | cases hcheck] at h'
  simpa [hcheck] using h'

theorem Settled.extend (h : Settled g t f inHand p) (g' : Gate) (inHand' : List Callback)
    (q : List Mark) (herror : g'.error = g.error)
    (hdescription : g'.description = g.description) (hresult : g'.result = g.result)
    (htable : g'.table = g.table) (hcourse : course q = [])
    (hthreads : ∀ mark ∈ q, mark.thread = t → mark.deed.queued? = none)
    (hqueued : inHand ++ g.waiters ++ queued q = (delivered q).map (·.1) ++ inHand' ++ g'.waiters)
    (hcalled : ∀ call ∈ called q, call.2 = (f.error?, f.description?)) :
    Settled g' t f inHand' (p ++ q) where
  error := herror.trans h.error
  description := hdescription.trans h.description
  split := by
    obtain ⟨before, after, interval, ps, rfl, hbefore, hcomplete, hnone, hafter, hth⟩ := h.split
    refine ⟨before, after ++ q, interval, ps, ?_, hbefore, htable ▸ hcomplete, hnone, ?_, ?_⟩
    · rw [hresult, List.append_assoc, List.cons_append]
    · rw [course_append, hafter, hcourse, List.append_nil]
    · intro mark hmark
      rcases List.mem_append.mp hmark with hm | hm
      · exact hth mark hm
      · exact hthreads mark hm
  queue := by
    rw [queued_append, delivered_append, h.queue, List.map_append]
    simp only [List.append_assoc] at hqueued ⊢
    rw [hqueued]
  calls := by
    intro call hcall
    rw [called_append] at hcall
    rcases List.mem_append.mp hcall with hc | hc
    · exact h.calls call hc
    · exact hcalled call hc

/-- Without a finding everybody has to wait. -/
theorem Opened.entry (h : Opened g deeds p) (thread : Thread) : g.entry thread = .waits := by
  simp [Gate.entry, h.state, h.drainer]

/-- A mark that concerns no check and leaves those who wait alone. -/
theorem Settled.mark (h : Settled g t f inHand p) (thread : Thread) {deed : Deed}
    (hcheck : deed.ofCheck = false) (hqueued : deed.queued? = none)
    (hdelivered : deed.delivered? = none)
    (hcalled : ∀ call ∈ deed.called?, call.2 = (g.error, g.description)) :
    Settled g t f inHand (p ++ [⟨g.result, thread, deed⟩]) := by
  refine h.extend _ _ _ rfl rfl rfl rfl (by simp [hcheck]) (by simp [hqueued])
    (by simp [hqueued, hdelivered]) ?_
  intro call hcall
  rw [← h.error, ← h.description]
  exact hcalled call (by simpa using hcall)

/-- The end of a callback leaves the finding alone. -/
theorem Settled.returned (h : Settled g t f inHand p) (thread : Thread)
    (r : Outcome Value) :
    Settled g t f inHand (p ++ [⟨g.result, thread, .returned r⟩]) :=
  h.mark thread rfl rfl rfl (by simp [Deed.called?])

namespace Stage

variable {s s' : Option Stand} {thread : Thread}

/-- To whom the matter is settled, he changes nothing. -/
theorem mark_of_settled (h : Stage g s p) (hentry : g.entry thread = .settled) {deed : Deed}
    (hcheck : deed.ofCheck = false) (hqueued : deed.queued? = none)
    (hdelivered : deed.delivered? = none) (hcalm : deed.interrupted = false)
    (hcalled : ∀ call ∈ deed.called?, call.2 = (g.error, g.description)) :
    Stage g s (p ++ [⟨g.result, thread, deed⟩]) := by
  have hq : ∀ {p}, ¬Interrupted p → ¬Interrupted (p ++ [⟨g.result, thread, deed⟩]) :=
    fun hp => by simp [hp, hcalm]
  cases h with
  | unknown state => simp [Gate.entry, state] at hentry
  | asks _ opened | awaits _ opened | found _ opened =>
    rw [opened.entry] at hentry
    cases hentry
  | delivers state drainer settled calm unresolved =>
    exact .delivers state drainer (settled.mark thread hcheck hqueued hdelivered hcalled) (hq calm)
      unresolved
  | hands state drainer settled calm unresolved =>
    exact .hands state drainer (settled.mark thread hcheck hqueued hdelivered hcalled) (hq calm)
      unresolved
  | resolves published settled calm unresolved =>
    exact .resolves published (settled.mark thread hcheck hqueued hdelivered hcalled) (hq calm)
      unresolved
  | finished published settled calm resolved unresolved =>
    exact .finished published (settled.mark thread hcheck hqueued hdelivered hcalled) (hq calm)
      resolved unresolved
  | broken state drainer settled interrupted unresolved =>
    exact .broken state drainer (settled.mark thread hcheck hqueued hdelivered hcalled)
      (by simp [interrupted]) unresolved

/-- A callback comes and has to wait. -/
theorem queue (h : Stage g s p) (hentry : g.entry thread = .waits) (c : Callback) :
    Stage { g with waiters := g.waiters ++ [c] } s
      (p ++ [⟨g.result, thread, .queued c⟩]) := by
  have opened : ∀ {deeds}, Opened g deeds p → Opened { g with waiters := g.waiters ++ [c] } deeds
      (p ++ [⟨g.result, thread, .queued c⟩]) := fun h => by
    simpa [Deed.ofCheck, Deed.queued?] using h.mark thread (.queued c) rfl rfl
  have settled : ∀ {t f inHand}, g.state = .checking → g.drainer = some t →
      Settled g t f inHand p → Settled { g with waiters := g.waiters ++ [c] } t f inHand
        (p ++ [⟨g.result, thread, .queued c⟩]) := fun hstate hdrainer h => by
    refine h.extend _ _ _ rfl rfl rfl rfl rfl ?_ (by simp [Deed.queued?, Deed.delivered?])
      (by simp [Deed.called?])
    -- the thread that hands out the finding does not wait for it
    rintro mark hmark rfl
    obtain rfl := List.mem_singleton.mp hmark
    simp [Gate.entry, hstate, hdrainer] at hentry
  have calm : ¬Interrupted p → ¬Interrupted (p ++ [⟨g.result, thread, .queued c⟩]) :=
    fun h => by simp [h, Deed.interrupted]
  cases h with
  | unknown state => simp [Gate.entry, state] at hentry
  | asks next h => exact .asks next (opened h)
  | awaits next h => exact .awaits next (opened h)
  | found complete h => exact .found complete (opened h)
  | delivers state drainer h hcalm unresolved =>
    exact .delivers state drainer (settled state drainer h) (calm hcalm) unresolved
  | hands state drainer h hcalm unresolved =>
    exact .hands state drainer (settled state drainer h) (calm hcalm) unresolved
  | resolves published | finished published =>
    rw [published.entry] at hentry
    cases hentry
  | broken state drainer h interrupted unresolved =>
    exact .broken state drainer (settled state drainer h) (by simp [interrupted]) unresolved

/-- A check begins. -/
theorem begin (h : Stage g s p) (hstate : g.state = .unknown) (c : Option Callback)
    (interval : Value) :
    Stage { g with state := .checking, waiters := g.waiters ++ c.toList }
      (some (.asks .describeFirst interval))
      (p ++ (.begun interval :: (c.map .queued).toList).map (⟨g.result, thread, ·⟩)) := by
  cases h with
  | unknown _ error description waiters drainer unresolved =>
    refine .asks .describeFirst ⟨rfl, error, description, drainer, ?_, ?_, ?_, ?_, unresolved⟩
    all_goals cases c
    · rfl
    · rfl
    · rw [waiters]
      rfl
    · rw [waiters]
      rfl
    · rfl
    · rfl
    · simp [Interrupted, Deed.interrupted]
    · simp [Interrupted, Deed.interrupted]
  | asks _ opened | awaits _ opened | found _ opened =>
    cases opened.state.symm.trans hstate
  | delivers state | hands state | broken state => cases state.symm.trans hstate
  | resolves published | finished published => exact absurd hstate published.ne_unknown

/-- An answer leads on in the course of the check. -/
theorem answer {phase : Phase} {interval : Value} (h : Stage g (some (.awaits phase interval)) p)
    (a : Outcome Value) :
    Stage g (g.afterAnswer phase interval a).stand? (p ++ [⟨g.result, thread, .answered a⟩]) := by
  cases h with
  | awaits next opened =>
    rename_i ps
    have h := opened.check thread (.answered a) rfl
    have hps : progress interval (ps ++ [⟨phase.query interval, a⟩]) =
        progress interval ps ++ [.asked (phase.query interval)] ++ [.answered a] := by
      simp [progress_snoc, Probe.deeds]
    rw [← hps] at h
    rcases next.answer (g := g) a with ⟨phase', hask, hnext⟩ | ⟨f, hfinish, hcomplete⟩
    · rw [hask]
      exact .asks hnext h
    · rw [hfinish]
      exact .found hcomplete h

/-- The check ends with a finding. -/
theorem settle (h : Stage g (some (.found f)) p) :
    Stage (g.settle thread f) (some (.delivers f)) (p ++ [⟨g.result, thread, .settled f⟩]) := by
  cases h with
  | found complete opened =>
    rename_i interval ps
    have hsettle : g.settle thread f =
        { g with error := f.error?, description := f.description?, drainer := some thread } := by
      cases f <;> rfl
    rw [hsettle]
    refine .delivers opened.state rfl ⟨rfl, rfl, ?_, ?_, ?_⟩ ?_ opened.unresolved
    · exact ⟨p, [], interval, ps, rfl, opened.progress, complete, opened.uncalled, rfl, by simp⟩
    · have hdelivered : delivered p = [] := delivered_eq_nil_of_called opened.uncalled
      simpa [Deed.queued?, Deed.delivered?, hdelivered] using opened.queue
    · simp [opened.uncalled, Deed.called?]
    · simp [opened.calm, Deed.interrupted]

/-- A callback that waits is taken from the queue. -/
theorem take {c : Callback} {cs : List Callback} (h : Stage g (some (.delivers f)) p)
    (hwaiters : g.waiters = c :: cs) :
    Stage { g with waiters := cs } (some (.hands f c f.error? f.description?)) p := by
  cases h with
  | delivers state drainer settled calm unresolved =>
    refine .hands state drainer ?_ calm unresolved
    simpa using settled.extend { g with waiters := cs } [c] [] rfl rfl
      rfl rfl rfl (by simp) (by simp [hwaiters]) (by simp)

/-- The callback that was taken from the queue is called. -/
theorem deliver {c : Callback} {error : Option Failure} {description : Option Entries}
    (h : Stage g (some (.hands f c error description)) p) :
    Stage g (some (.delivers f)) (p ++ [⟨g.result, thread, .delivered c error description⟩]) := by
  cases h with
  | hands state drainer settled calm unresolved =>
    refine .delivers state drainer ?_ (by simp [calm, Deed.interrupted]) unresolved
    exact settled.extend _ _ _ rfl rfl rfl rfl rfl (by simp [Deed.queued?])
      (by simp [Deed.queued?, Deed.delivered?]) (by simp [Deed.called?])

theorem goOn (h : Stage g (some (.delivers f)) p) {r : Outcome Value}
    (passing : ∀ x, r = .error x → x.isInterrupt = false) :
    Stage g (some (.delivers f)) (p ++ [⟨g.result, thread, .returned r⟩]) := by
  cases h with
  | delivers state drainer settled calm unresolved =>
    refine .delivers state drainer (settled.returned thread r) ?_ unresolved
    cases r with
    | ok v => simp [calm, Deed.interrupted]
    | error x => simp [calm, Deed.interrupted, passing x rfl]

theorem interrupt (h : Stage g (some (.delivers f)) p) {x : Failure}
    (interrupt : x.isInterrupt = true) :
    Stage g none (p ++ [⟨g.result, thread, .returned (.error x)⟩]) := by
  cases h with
  | delivers state drainer settled calm unresolved =>
    exact .broken state drainer (settled.returned thread _) (by simp [Deed.interrupted, interrupt])
      unresolved

/-- The finding is published when nobody waits any more. -/
theorem publish (h : Stage g (some (.delivers f)) p) (empty : g.waiters = []) :
    Stage (g.publish f) (some (.resolves f)) p := by
  cases h with
  | delivers state drainer settled calm unresolved =>
    have h := settled.extend (g.publish f) [] [] rfl rfl rfl rfl rfl
      (by simp) (by simp [Gate.publish]) (by simp)
    exact .resolves ⟨rfl, rfl, empty⟩ (by simpa using h) calm unresolved

theorem resolve (h : Stage g (some (.resolves f)) p) : Stage (g.resolve f) none p := by
  cases h with
  | resolves published settled calm unresolved =>
    have h := settled.extend (g.resolve f) [] [] rfl rfl rfl rfl rfl
      (by simp) (by simp [Gate.resolve]) (by simp)
    exact .finished ⟨published.state, published.drainer, published.waiters⟩ (by simpa using h) calm
      rfl unresolved

/-- **Moves**: every move keeps the gate, the check and the marks of the period together. -/
theorem move {deeds : List Deed} (h : Stage g s p) (move : Move thread g s deeds g' s') :
    Stage g' s' (p ++ deeds.map (⟨g.result, thread, ·⟩)) := by
  cases move with
  | quiet => simpa using h
  | handOver c settled =>
    exact h.mark_of_settled settled rfl rfl rfl rfl (by simp [Deed.called?])
  | serve c settled =>
    exact h.mark_of_settled settled rfl rfl rfl rfl (by simp [Deed.called?])
  | queue c waits => exact h.queue waits c
  | begin c interval unknown => exact h.begin unknown c interval
  | ask phase interval =>
    cases h with
    | asks next opened => exact .awaits next (opened.check thread (.asked _) rfl)
  | answer phase interval a => exact h.answer a
  | settle f => exact h.settle
  | take f waiters => simpa using h.take waiters
  | deliver f c error description => exact h.deliver
  | goOn f r passing => exact h.goOn passing
  | interrupt f interrupt => exact h.interrupt interrupt
  | publish f empty => simpa using h.publish empty
  | resolve f => simpa using h.resolve

end Stage

end DocTable
