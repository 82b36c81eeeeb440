import DocTable.Proofs.Gate.Agreement
import DocTable.Proofs.Outcome

/-! What the fields of a gate have to do with each other. The state and the thread that hands the
finding out fix whether there is an error, a description or a result, and whether anybody waits.
Only the result can lag behind: a finding is published first and given to those who wait for the
result next. So whoever is called is told one error, or one description of a usable table. -/

namespace DocTable

variable {σ : Type} {e : Environ σ} {trace : List Mark} {m m' : Machine σ} {g : Gate}
  {s : Option Stand} {p : List Mark} {t : Thread} {f : Finding} {inHand : List Callback}
  {table : String} {interval : Value} {ps : List Probe}

/-! ## What is told of a check -/

/-- A description that shows the table usable. -/
def Usable (description : Entries) : Prop :=
  OrderedMap.find? description (.text "TableStatus") = some (.text "ACTIVE")

/-- What can be told of a check: either an error or a description, and that shows the table
usable. -/
structure Conclusive (error : Option Failure) (description : Option Entries) : Prop where
  one : error.isSome = !description.isSome
  usable : ∀ d, description = some d → Usable d

theorem usable_of_conclusion {a : Outcome Value} {d : Entries} (h : conclusion table a = .ok d)
    (hend : ¬Unfinished a) : Usable d := by
  obtain ⟨v, hv, hmap⟩ := Outcome.bind_eq_ok.mp h
  obtain ⟨d', hd', hstatus⟩ := Outcome.bind_eq_ok.mp hmap
  split at hstatus
  · rename_i status hfind
    split at hstatus
    · cases hstatus
    · rename_i hne
      cases hstatus
      have hactive : status = "ACTIVE" := Decidable.byContradiction fun hactive =>
        hend ⟨v, d, status, hv, hd', hfind, hne, hactive⟩
      rw [Usable, hfind, hactive]
  · cases hstatus

theorem Complete.usable {d : Entries} (h : Complete table interval ps f) (hf : f = .ok d) :
    Usable d := by
  cases h with
  | described _ hend => exact usable_of_conclusion hf hend
  | overslept => cases hf

theorem Complete.conclusive (h : Complete table interval ps f) :
    Conclusive f.error? f.description? := by
  cases f with
  | ok d => exact ⟨rfl, fun _ hd => Option.some.inj hd ▸ h.usable rfl⟩
  | error x => exact ⟨rfl, nofun⟩

theorem Settled.conclusive (h : Settled g t f inHand p) : Conclusive f.error? f.description? := by
  obtain ⟨_, _, _, _, _, _, hcomplete, -⟩ := h.split
  exact hcomplete.conclusive

theorem Stage.conclusive_of_called (h : Stage g s p) :
    ∀ call ∈ called p, Conclusive call.2.1 call.2.2 := by
  intro call hcall
  rcases h.opened_or_settled with ⟨-, -, -, rfl⟩ | ⟨_, opened⟩ | ⟨_, _, _, settled⟩
  · cases hcall
  · rw [opened.uncalled] at hcall
    cases hcall
  · rw [settled.calls call hcall]
    exact settled.conclusive

theorem Past.conclusive_of_called {n : Nat} (h : Past table n p) :
    ∀ call ∈ called p, Conclusive call.2.1 call.2.2 := by
  obtain ⟨g, p, thread, rfl, -, -, -, stage⟩ := h
  intro call hcall
  rw [called_append, called_singleton] at hcall
  exact stage.conclusive_of_called call (by simpa [Deed.called?] using hcall)

theorem Run.conclusive_of_called (h : Run e trace m) :
    ∀ call ∈ called trace, Conclusive call.2.1 call.2.2 := by
  intro call hcall
  obtain ⟨s, account⟩ := h.account
  obtain ⟨mark, hmark, hdeed⟩ := List.mem_filterMap.mp hcall
  have hperiod : call ∈ called (period trace mark.number) :=
    List.mem_filterMap.mpr ⟨mark, List.mem_filter.mpr ⟨hmark, by simp⟩, hdeed⟩
  rcases Nat.lt_or_eq_of_le (account.number_le hmark) with hlt | heq
  · exact (account.past _ hlt).conclusive_of_called call hperiod
  · exact account.stage.conclusive_of_called call (heq ▸ hperiod)

/-- A callback that is about to be called is called. -/
theorem Machine.called_marks {c : Callback} {error : Option Failure}
    {description : Option Entries} (hands : m.HandsOver)
    (htask : m.task = .call c error description) : called m.marks = [(c, error, description)] := by
  rcases hands c error description htask with ⟨f, fs, hframes⟩ | ⟨block, fs, hframes, -⟩
  all_goals simp [called, marks, deeds, htask, hframes, Deed.called?]

theorem Run.conclusive_of_call {c : Callback} {error : Option Failure}
    {description : Option Entries} (h : Run e trace m)
    (htask : m.task = .call c error description) : Conclusive error description := by
  obtain ⟨_, account⟩ := h.account
  have hstep : m.step? e = some (m.call error description c) := by
    simp only [Machine.step?, htask]
  refine (h.step hstep).conclusive_of_called (c, error, description) ?_
  rw [called_append, Machine.called_marks account.hands htask]
  exact List.mem_append_right _ (List.mem_singleton_self _)

/-! ## Gates -/

namespace Gate

/-- Nothing is known, and the result is pending. -/
structure Blank (g : Gate) : Prop where
  error : g.error = none
  description : g.description = none
  result : g.finding? g.result = none

/-- Nobody waits to be told, and nothing is handed out. -/
structure Idle (g : Gate) : Prop where
  waiters : g.waiters = []
  drainer : g.drainer = none

/-- Whether the fields of a gate fit its state and the thread that hands the finding out. -/
structure Coherent (g : Gate) : Prop where
  unknown : g.state = .unknown → g.Blank ∧ g.Idle
  checking : g.state = .checking → g.drainer = none → g.Blank
  ready : g.state = .ready → g.error = none ∧ (∃ d, g.description = some d ∧ Usable d) ∧ g.Idle
  failed : g.state = .failed → (∃ x, g.error = some x) ∧ g.description = none ∧ g.Idle
  drainer : ∀ t, g.drainer = some t → g.state = .checking ∧ Conclusive g.error g.description

theorem finding?_eq_none_iff {number : Nat} :
    g.finding? number = none ↔ number ∉ g.resolved.map (·.1) := by
  simp only [finding?, Option.map_eq_none_iff, List.find?_eq_none, decide_eq_true_eq, List.mem_map,
    not_exists, not_and]

theorem finding?_result (h : ∀ r ∈ g.resolved, r.1 < g.result) : g.finding? g.result = none := by
  rw [finding?_eq_none_iff, List.mem_map]
  rintro ⟨r, hr, heq⟩
  exact Nat.ne_of_lt (h r hr) heq

end Gate

theorem Gate.Blank.coherent (h : g.Blank) (idle : g.Idle) (state : g.state = .unknown) :
    g.Coherent where
  unknown _ := ⟨h, idle⟩
  checking _ _ := h
  ready hs := by cases state.symm.trans hs
  failed hs := by cases state.symm.trans hs
  drainer t ht := by cases idle.drainer.symm.trans ht

theorem Opened.blank {deeds : List Deed} (h : Opened g deeds p) : g.Blank :=
  ⟨h.error, h.description, Gate.finding?_result h.unresolved⟩

theorem Opened.coherent {deeds : List Deed} (h : Opened g deeds p) : g.Coherent where
  unknown hs := by cases h.state.symm.trans hs
  checking _ _ := h.blank
  ready hs := by cases h.state.symm.trans hs
  failed hs := by cases h.state.symm.trans hs
  drainer t ht := by cases h.drainer.symm.trans ht

/-- The finding is being handed out, or that was interrupted. -/
theorem Settled.coherent (h : Settled g t f inHand p) (state : g.state = .checking)
    (drainer : g.drainer = some t) : g.Coherent where
  unknown hs := by cases state.symm.trans hs
  checking _ hnone := by cases drainer.symm.trans hnone
  ready hs := by cases state.symm.trans hs
  failed hs := by cases state.symm.trans hs
  drainer _ _ := ⟨state, h.error ▸ h.description ▸ h.conclusive⟩

theorem Published.idle (h : Published g f) : g.Idle :=
  ⟨h.waiters, h.drainer⟩

theorem Published.coherent (h : Published g f) (settled : Settled g t f inHand p) :
    g.Coherent where
  unknown hs := absurd hs h.ne_unknown
  checking hs := absurd hs h.ne_checking
  ready hs := by
    cases f with
    | error => cases h.state.symm.trans hs
    | ok d =>
      exact ⟨settled.error, ⟨d, settled.description, settled.conclusive.usable d rfl⟩, h.idle⟩
  failed hs := by
    cases f with
    | ok => cases h.state.symm.trans hs
    | error x => exact ⟨⟨x, settled.error⟩, settled.description, h.idle⟩
  drainer t ht := by cases h.drainer.symm.trans ht

theorem Stage.coherent (h : Stage g s p) : g.Coherent := by
  cases h with
  | unknown state error description waiters drainer unresolved =>
    have blank : g.Blank := ⟨error, description, Gate.finding?_result unresolved⟩
    exact blank.coherent ⟨waiters, drainer⟩ state
  | asks _ opened | awaits _ opened | found _ opened => exact opened.coherent
  | delivers state drainer settled | hands state drainer settled | broken state drainer settled =>
    exact settled.coherent state drainer
  | resolves published settled | finished published settled => exact published.coherent settled

/-! ## Results -/

/-- A gate that is open or closed has the result, or that is what comes next. -/
theorem Stage.finding_of_published (h : Stage g s p)
    (hstate : g.state = .ready ∨ g.state = .failed) :
    (∃ f, s = some (.resolves f)) ∨ ∃ f, g.Holds f ∧ g.finding? g.result = some f := by
  have checking : g.state ≠ .checking := by rcases hstate with h | h <;> simp [h]
  cases h with
  | unknown state => rcases hstate with h | h <;> cases state.symm.trans h
  | asks _ opened | awaits _ opened | found _ opened => exact absurd opened.state checking
  | delivers state | hands state | broken state => exact absurd state checking
  | resolves => exact .inl ⟨_, rfl⟩
  | finished _ settled _ resolved =>
    exact .inr ⟨_, ⟨settled.error, settled.description⟩, by simp [Gate.finding?, resolved]⟩

theorem Stage.finding?_of_resolves (h : Stage g (some (.resolves f)) p) :
    g.finding? g.result = none := by
  cases h with
  | resolves _ _ _ unresolved => exact Gate.finding?_result unresolved

/-- A step gives the finding to the pending result, which has none yet, or leaves the results
alone. -/
theorem Account.step_resolved (h : Account trace m s) (hstep : m.step? e = some m') :
    m'.scene.gate.resolved = m.scene.gate.resolved ∨
      ∃ f, m.task = .resolve f ∧ m.scene.gate.finding? m.scene.gate.result = none ∧
        m'.scene.gate.resolved = (m.scene.gate.result, f) :: m.scene.gate.resolved := by
  rcases Machine.step_move h.stands h.unknown h.hands hstep with ⟨s', -, move⟩ | ⟨-, hreset, -⟩
  · rcases move.resolved_eq with heq | ⟨f, rfl, heq⟩
    · exact .inl heq
    · have htask := Machine.task_of_resolves h.stands
      exact .inr ⟨f, htask, h.stage.finding?_of_resolves, heq⟩
  · exact .inl (Gate.resolved_of_reset hreset)

theorem Run.nodup_resolved (h : Run e trace m) : (m.scene.gate.resolved.map (·.1)).Nodup := by
  induction h with
  | start made =>
    cases Gate.eq_of_make made
    exact List.nodup_nil
  | next _ _ _ _ _ ih => exact ih
  | step hrun hstep ih =>
    obtain ⟨s, account⟩ := hrun.account
    rcases account.step_resolved hstep with heq | ⟨f, -, hnone, heq⟩
    · rwa [heq]
    · rw [heq, List.map_cons, List.nodup_cons]
      exact ⟨Gate.finding?_eq_none_iff.mp hnone, ih⟩

/-! ## Coherence -/

/-- What is known of the fields of a gate, of results and of calls, at any time of a run. -/
structure Coherence (e : Environ σ) (trace : List Mark) (m : Machine σ) : Prop where
  gate : m.scene.gate.Coherent
  /-- Unless the finding was just published and is yet to be given to those who wait for it. -/
  result : (∀ f, m.task ≠ .resolve f) →
    m.scene.gate.state = .ready ∨ m.scene.gate.state = .failed →
    ∃ f, m.scene.gate.Holds f ∧ m.scene.gate.finding? m.scene.gate.result = some f
  once : (m.scene.gate.resolved.map (·.1)).Nodup
  /-- Results are only added, and only where there is none. -/
  resolves : ∀ m', m.step? e = some m' → m'.scene.gate.resolved = m.scene.gate.resolved ∨
    ∃ f, m.task = .resolve f ∧ m.scene.gate.finding? m.scene.gate.result = none ∧
      m'.scene.gate.resolved = (m.scene.gate.result, f) :: m.scene.gate.resolved
  calls : ∀ c error description, m.task = .call c error description → Conclusive error description
  called : ∀ call ∈ called trace, Conclusive call.2.1 call.2.2
  log : ∀ name error description, .callback name error description ∈ m.scene.log →
    Conclusive error description

/-- **Coherence**: at any time of any run, interrupted or not, the fields of the gate fit each
other, and when it is open or closed the result is there, but for the moment at which it is given.
No result is given twice, and every callback is told one error, or one description of a usable
table. -/
theorem Run.coherence (h : Run e trace m) : Coherence e trace m := by
  obtain ⟨_, account⟩ := h.account
  refine ⟨account.stage.coherent, fun hresolve hstate => ?_, h.nodup_resolved,
    fun m' hstep => account.step_resolved hstep,
    fun c error description htask => h.conclusive_of_call htask, h.conclusive_of_called,
    fun name error description hlog => ?_⟩
  · rcases account.stage.finding_of_published hstate with ⟨f, rfl⟩ | hfinding
    · exact absurd (Machine.task_of_resolves account.stands) (hresolve f)
    · exact hfinding
  · obtain ⟨c, hcall⟩ := h.exists_called hlog
    exact h.conclusive_of_called _ hcall

/-- Coherent while the second callback is going to be called, and when all is over. -/
theorem coherence_created :
    let during := Machine.created.run Scripts.environ 30
    let ended := Machine.created.run Scripts.environ 64
    Run Scripts.environ (Machine.created.marksOf Scripts.environ 30) during ∧
      during.scene.gate.drainer = some 0 ∧
      Coherence Scripts.environ (Machine.created.marksOf Scripts.environ 30) during ∧
    Run Scripts.environ (Machine.created.marksOf Scripts.environ 64) ended ∧
      ended.scene.gate.state = .ready ∧
      Coherence Scripts.environ (Machine.created.marksOf Scripts.environ 64) ended :=
  ⟨.scripted .., by with_unfolding_all rfl, (Run.scripted ..).coherence,
    .scripted .., by with_unfolding_all rfl, (Run.scripted ..).coherence⟩

/-- The finding is published, and the result is not there yet. -/
example :
    let m := Machine.created.run Scripts.environ 34
    m.scene.gate.state = .ready ∧ m.scene.gate.finding? m.scene.gate.result = none := by
  constructor <;> with_unfolding_all rfl

end DocTable
