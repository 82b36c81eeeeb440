import DocTable.Proofs.Gate.Flow
import DocTable.Proofs.Gate.Stage

/-! What is known of a run at any time. The trace falls into periods, one for each number of a
result. Those that a reset ended are `Past`; how far the last one has come tells its `Stage`. -/

namespace DocTable

variable {σ : Type}

/-- A period that was ended by a reset, at which no check was under way. -/
def Past (table : String) (number : Nat) (p : List Mark) : Prop :=
  ∃ g p' thread, p = p' ++ [⟨number, thread, .reset⟩] ∧ Gate.table g = table ∧ g.result = number ∧
    g.state ≠ .checking ∧ Stage g none p'

/-- How often a finding was forgotten. -/
def resets (trace : List Mark) : Nat :=
  (trace.map (·.deed)).countP Deed.isReset

/-- What is known of a machine and of the trace that led to it. -/
structure Account (trace : List Mark) (m : Machine σ) (s : Option Stand) : Prop where
  stands : m.stands = s.toList
  stage : Stage m.scene.gate s (period trace m.scene.gate.result)
  past : ∀ n < m.scene.gate.result, Past m.scene.gate.table n (period trace n)
  ordered : trace = (List.range (m.scene.gate.result + 1)).flatMap (period trace)
  resets : resets trace = m.scene.gate.result
  hands : m.HandsOver
  fits : Fits m.scene.gate.result m.task.isCheck? m.frames

theorem Account.eq_none {trace : List Mark} {m : Machine σ} {s : Option Stand}
    (h : Account trace m s) (hstands : m.stands = []) : s = none := by
  have hnil := h.stands.symm.trans hstands
  cases s with
  | none => rfl
  | some => cases hnil

theorem Move.table_eq {thread : Thread} {g g' : Gate} {s s' : Option Stand} {deeds : List Deed}
    (h : Move thread g s deeds g' s') : g'.table = g.table := by
  cases h with
  | settle f => cases f <;> rfl
  | _ => rfl

theorem Move.result_eq {thread : Thread} {g g' : Gate} {s s' : Option Stand} {deeds : List Deed}
    (h : Move thread g s deeds g' s') : g'.result = g.result := by
  cases h with
  | settle f => cases f <;> rfl
  | _ => rfl

theorem Move.not_isReset {thread : Thread} {g g' : Gate} {s s' : Option Stand} {deeds : List Deed}
    (h : Move thread g s deeds g' s') : deeds.countP Deed.isReset = 0 := by
  cases h with
  | begin c => cases c <;> rfl
  | _ => rfl

theorem Gate.eq_of_make {table : String} {interval : Value} {g : Gate}
    (h : Gate.make table interval = .ok g) : g = { table, interval } := by
  simp only [make, bind, Except.bind] at h
  split at h
  · cases h
  · split at h <;> cases h
    rfl

theorem Stage.unknown_none {g : Gate} {s : Option Stand} {p : List Mark} (h : Stage g s p)
    (hstate : g.state = .unknown) : s = none := by
  cases h with
  | unknown | finished | broken => rfl
  | asks _ opened | awaits _ opened | found _ opened => cases opened.state.symm.trans hstate
  | delivers state | hands state => cases state.symm.trans hstate
  | resolves published => exact absurd hstate published.ne_unknown

/-- A gate can only be reset where no check is under way, or one has published its finding. -/
theorem Stage.stand_of_not_checking {g : Gate} {s : Option Stand} {p : List Mark} (h : Stage g s p)
    (hstate : g.state ≠ .checking) : s = none ∨ ∃ f, s = some (.resolves f) := by
  cases h with
  | unknown | finished | broken => exact .inl rfl
  | asks _ opened | awaits _ opened | found _ opened => exact absurd opened.state hstate
  | delivers state | hands state => exact absurd state hstate
  | resolves => exact .inr ⟨_, rfl⟩

theorem Stage.forget {g : Gate} {p : List Mark} (h : Stage g none p)
    (hstate : g.state ≠ .checking) : Stage g.forget none [] := by
  have later : ∀ {r : Nat × Finding}, r.1 < g.result → r.1 < g.result + 1 :=
    fun h => Nat.lt_succ_of_lt h
  cases h with
  | unknown _ _ _ waiters drainer unresolved =>
    exact .unknown rfl rfl rfl waiters drainer fun r hr => later (unresolved r hr)
  | finished published _ _ resolved unresolved =>
    refine .unknown rfl rfl rfl published.waiters published.drainer fun r hr => ?_
    have hr : r ∈ g.resolved := hr
    rw [resolved] at hr
    rcases List.mem_cons.mp hr with rfl | hr
    · exact Nat.lt_succ_self _
    · exact later (unresolved r hr)
  | broken state => exact absurd state hstate

namespace Machine

variable {m : Machine σ}

theorem marks_of_deeds {deed : Deed} (h : m.deeds = [deed]) :
    m.marks = [⟨m.scene.gate.result, m.thread, deed⟩] := by
  simp [marks, h]

theorem resets_append_marks (trace : List Mark) :
    resets (trace ++ m.marks) = resets trace + m.deeds.countP Deed.isReset := by
  simp [resets, marks, Function.comp_def]

/-- A check is about to give its finding away only if that is what is done next. -/
theorem task_of_resolves {f : Finding} (h : m.stands = [.resolves f]) : m.task = .resolve f := by
  have frames : ∀ fs : List Frame, Stand.resolves f ∉ fs.filterMap Frame.stand? := by
    intro fs hmem
    obtain ⟨frame, -, hframe⟩ := List.mem_filterMap.mp hmem
    cases frame <;> cases hframe
  have hmem : Stand.resolves f ∈ m.stands := h ▸ List.mem_singleton_self _
  rcases List.mem_append.mp hmem with hstands | hheld
  · unfold Task.stands at hstands
    split at hstands
    · exact absurd ((List.mem_cons.mp hstands).resolve_left nofun) (frames _)
    · rcases List.mem_append.mp hstands with htask | hframes
      · have hstand := Option.mem_toList.mp htask
        cases task : m.task <;> rw [task] at hstand <;> cases hstand
        rfl
      · exact absurd hframes (frames _)
  · obtain ⟨held, -, hstand⟩ := Option.map_eq_some_iff.mp (Option.mem_toList.mp hheld)
    cases hstand

end Machine

namespace Account

variable {e : Environ σ} {trace : List Mark} {m m' : Machine σ} {s s' : Option Stand}

theorem unknown (h : Account trace m s) : m.scene.gate.state = .unknown → s = none :=
  h.stage.unknown_none

theorem number_le (h : Account trace m s) {mark : Mark} (hmark : mark ∈ trace) :
    mark.number ≤ m.scene.gate.result := by
  rw [h.ordered] at hmark
  obtain ⟨n, hn, hmem⟩ := List.mem_flatMap.mp hmark
  have hnumber : mark.number = n := by simpa using (List.mem_filter.mp hmem).2
  have := List.mem_range.mp hn
  omega

/-- Marks of the period under way belong at the end. -/
theorem ordered_append (h : Account trace m s) :
    trace ++ m.marks =
      (List.range (m.scene.gate.result + 1)).flatMap (period (trace ++ m.marks)) := by
  have hpast : (List.range m.scene.gate.result).flatMap (period (trace ++ m.marks)) =
      (List.range m.scene.gate.result).flatMap (period trace) := by
    rw [List.flatMap_def, List.flatMap_def]
    refine congrArg List.flatten (List.map_congr_left fun n hn => ?_)
    rw [period_append, m.period_marks_of_ne (Nat.ne_of_gt (List.mem_range.mp hn)), List.append_nil]
  have hsplit := h.ordered
  rw [List.range_succ, List.flatMap_append] at hsplit ⊢
  rw [hpast, List.flatMap_singleton, period_append, m.period_marks, ← List.append_assoc]
  rw [List.flatMap_singleton] at hsplit
  rw [← hsplit]

theorem move (h : Account trace m s) (hs : m'.stands = s'.toList)
    (move : Move m.thread m.scene.gate s m.deeds m'.scene.gate s') (hands : m'.HandsOver)
    (fits : Fits m.scene.gate.result m'.task.isCheck? m'.frames) :
    Account (trace ++ m.marks) m' s' where
  stands := hs
  stage := by
    rw [move.result_eq, period_append, m.period_marks]
    exact h.stage.move move
  past := by
    rw [move.result_eq, move.table_eq]
    intro n hn
    rw [period_append, m.period_marks_of_ne (Nat.ne_of_gt hn), List.append_nil]
    exact h.past n hn
  ordered := move.result_eq ▸ h.ordered_append
  resets := by rw [Machine.resets_append_marks, move.not_isReset, h.resets, move.result_eq]; rfl
  hands := hands
  fits := move.result_eq ▸ fits

theorem reset (h : Account trace m s) (resets : m.Resets s m') (hands : m'.HandsOver)
    (fits : Fits m.scene.gate.result m'.task.isCheck? m'.frames)
    (task : ∃ r, m'.task = .reply r) : Account (trace ++ m.marks) m' s := by
  obtain ⟨hact, hreset, hdeeds, hs⟩ := resets
  have hstate : m.scene.gate.state ≠ .checking := fun hc => by simp [Gate.reset, hc] at hreset
  have hgate : m'.scene.gate = m.scene.gate.forget := by
    simp only [Gate.reset, hstate, if_false, Except.ok.injEq] at hreset
    exact hreset.symm
  obtain rfl : s = none := by
    rcases h.stage.stand_of_not_checking hstate with hnone | ⟨f, rfl⟩
    · exact hnone
    · cases hact.symm.trans (Machine.task_of_resolves h.stands)
  have hresult : m'.scene.gate.result = m.scene.gate.result + 1 := by rw [hgate]; rfl
  have hlast : period (trace ++ m.marks) (m.scene.gate.result + 1) = [] := by
    rw [period_append, m.period_marks_of_ne (Nat.ne_of_lt (Nat.lt_succ_self _)), List.append_nil]
    refine List.filter_eq_nil_iff.mpr fun mark hmark => ?_
    have := h.number_le hmark
    simp only [decide_eq_true_eq]
    omega
  refine ⟨hs, ?_, ?_, ?_, ?_, hands, ?_⟩
  · rw [hresult, hlast, hgate]
    exact h.stage.forget hstate
  · rw [hresult, hgate]
    intro n hn
    rw [period_append]
    by_cases hcurrent : m.scene.gate.result = n
    · subst hcurrent
      rw [m.period_marks, Machine.marks_of_deeds hdeeds]
      exact ⟨m.scene.gate, _, m.thread, rfl, rfl, rfl, hstate, h.stage⟩
    · rw [m.period_marks_of_ne hcurrent, List.append_nil]
      exact h.past n (by omega)
  · rw [hresult, List.range_succ, List.flatMap_append, ← h.ordered_append, List.flatMap_singleton,
      hlast, List.append_nil]
  · rw [Machine.resets_append_marks, hdeeds, h.resets, hresult]
    rfl
  · obtain ⟨r, hr⟩ := task
    refine Fits.renumber ?_ (by simp [hr, Task.isCheck?]) fits
    have hnil : m'.stands = [] := hs
    rw [Machine.stands, hr] at hnil
    exact (List.append_eq_nil_iff.mp hnil).1

theorem step (h : Account trace m s) (hstep : m.step? e = some m') :
    ∃ s', Account (trace ++ m.marks) m' s' := by
  have hands := Machine.step_handsOver hstep
  have fits := (Machine.step_flow hstep).fits h.fits
  rcases Machine.step_move h.stands h.unknown h.hands hstep with ⟨s', hs', move⟩ | resets
  · exact ⟨s', h.move hs' move hands fits⟩
  · refine ⟨s, h.reset resets hands fits ?_⟩
    simp only [Machine.step?, resets.1, Machine.act, Option.some.injEq] at hstep
    subst hstep
    cases m.scene.gate.reset <;> exact ⟨_, rfl⟩

end Account

/-- **Accounts**: there is one at any time of any run. -/
theorem Run.account {e : Environ σ} {trace : List Mark} {m : Machine σ} (h : Run e trace m) :
    ∃ s, Account trace m s := by
  induction h with
  | start made environ action =>
    cases Gate.eq_of_make made
    exact ⟨none, rfl, .unknown rfl rfl rfl rfl rfl (by simp [Scene.machine]),
      by simp [Scene.machine], rfl, rfl, Machine.handsOver_of_act rfl,
      by simp [Fits, Scene.machine, Task.isCheck?, Task.stand?]⟩
  | step _ hstep ih =>
    obtain ⟨s, h⟩ := ih
    exact h.step hstep
  | next _ task hframes environ action ih =>
    obtain ⟨s, h⟩ := ih
    refine ⟨s, ?_, h.stage, h.past, h.ordered, h.resets, Machine.handsOver_of_act rfl, ?_⟩
    · rw [← h.stands, Machine.stands, Machine.stands, task, hframes]
      rfl
    · simp [Fits, Scene.machine, Task.isCheck?, Task.stand?]

end DocTable
