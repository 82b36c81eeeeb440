import DocTable.Proofs.Gate.Log

/-! Checks do not overlap: the course of a run is one whole check after the other and at most one
that is under way, and between two resets there is at most one. -/

namespace DocTable

variable {σ : Type}

/-- A whole check: the interval chosen for it, what it asked for and was answered, and what it
found. -/
structure Sequence (table : String) where
  interval : Value
  probes : List Probe
  finding : Finding
  complete : Complete table interval probes finding

def Sequence.deeds {table : String} (s : Sequence table) : List Deed :=
  progress s.interval s.probes ++ [.settled s.finding]

/-- The beginning of a check that has no finding yet, or has not noted it. -/
inductive Underway (table : String) : List Deed → Prop where
  | asks {interval : Value} {ps : List Probe} {phase : Phase} :
      Awaited interval ps phase → Underway table (progress interval ps)
  | awaits {interval : Value} {ps : List Probe} {phase : Phase} :
      Awaited interval ps phase →
      Underway table (progress interval ps ++ [.asked (phase.query interval)])
  | found {interval : Value} {ps : List Probe} {f : Finding} :
      Complete table interval ps f → Underway table (progress interval ps)

/-! ## Courses of periods -/

section

variable {g : Gate} {t : Thread} {f : Finding} {inHand : List Callback} {p : List Mark}
  {s : Option Stand}

theorem Settled.course_eq (h : Settled g t f inHand p) :
    ∃ sequence : Sequence g.table, course p = sequence.deeds := by
  obtain ⟨before, after, interval, ps, rfl, hbefore, hcomplete, -, hafter, -⟩ := h.split
  refine ⟨⟨interval, ps, f, hcomplete⟩, ?_⟩
  simp only [Sequence.deeds, course_append, hbefore, List.append_cancel_left_eq]
  show course ([⟨g.result, t, .settled f⟩] ++ after) = _
  rw [course_append, hafter]
  rfl

/-- A period has one check at most. -/
theorem Stage.course_eq (h : Stage g s p) :
    (∃ whole : List (Sequence g.table), course p = whole.flatMap Sequence.deeds ∧
      whole.length ≤ 1) ∨ Underway g.table (course p) := by
  cases h with
  | unknown => exact .inl ⟨[], rfl, Nat.zero_le _⟩
  | asks next opened => exact .inr (opened.progress ▸ .asks next)
  | awaits next opened => exact .inr (opened.progress ▸ .awaits next)
  | found complete opened => exact .inr (opened.progress ▸ .found complete)
  | delivers _ _ settled | hands _ _ settled | resolves _ settled | finished _ settled
  | broken _ _ settled =>
    obtain ⟨sequence, hcourse⟩ := settled.course_eq
    exact .inl ⟨[sequence], by simp [hcourse], Nat.le_refl _⟩

/-- Where a finding was forgotten, no check is under way. -/
theorem Past.course_eq {table : String} {n : Nat} (h : Past table n p) :
    ∃ whole : List (Sequence table), course p = whole.flatMap Sequence.deeds ∧
      whole.length ≤ 1 := by
  obtain ⟨g, p, thread, rfl, rfl, -, hstate, stage⟩ := h
  have hreset : course (p ++ [⟨n, thread, .reset⟩]) = course p := by simp [Deed.ofCheck]
  rw [hreset]
  cases stage with
  | unknown => exact ⟨[], rfl, Nat.zero_le _⟩
  | finished _ settled =>
    obtain ⟨sequence, hcourse⟩ := settled.course_eq
    exact ⟨[sequence], by simp [hcourse], Nat.le_refl _⟩
  | broken state => exact absurd state hstate

end

theorem course_flatMap (f : Nat → List Mark) (ns : List Nat) :
    course (ns.flatMap f) = ns.flatMap fun n => course (f n) := by
  induction ns with
  | nil => rfl
  | cons n ns ih => simp [ih]

theorem exists_sequences {table : String} {f : Nat → List Deed} (ns : List Nat)
    (h : ∀ n ∈ ns, ∃ whole : List (Sequence table), f n = whole.flatMap Sequence.deeds ∧
      whole.length ≤ 1) :
    ∃ whole : List (Sequence table), ns.flatMap f = whole.flatMap Sequence.deeds ∧
      whole.length ≤ ns.length := by
  induction ns with
  | nil => exact ⟨[], rfl, Nat.le_refl _⟩
  | cons n ns ih =>
    obtain ⟨first, hfirst, hle⟩ := h n List.mem_cons_self
    obtain ⟨rest, hrest, hle'⟩ := ih fun n' hn' => h n' (List.mem_cons_of_mem _ hn')
    refine ⟨first ++ rest, by simp [hfirst, hrest], ?_⟩
    simp only [List.length_append, List.length_cons]
    omega

/-! ## Runs -/

/-- A check begins where a call finds the gate unknown, with the interval of that call. -/
theorem Machine.act_of_begun {m : Machine σ} {i : Value} (h : Deed.begun i ∈ m.deeds) :
    m.scene.gate.state = .unknown ∧ ∃ callback block interval timeout,
      m.task = .act (.ensureReady callback block interval timeout) ∧
      i = interval.getD m.scene.gate.interval := by
  unfold deeds at h
  split at h
  · rename_i callback block interval timeout task
    cases hentry : m.scene.gate.entry m.thread with
    | starts =>
      refine ⟨Gate.entry_eq_starts_iff.mp hentry, callback, block, interval, timeout, task, ?_⟩
      cases hw : waiter callback block <;> simpa [hentry, hw] using h
    | settled | waits => cases hw : waiter callback block <;> simp [hentry, hw] at h
  all_goals exfalso
  all_goals repeat' split at h
  all_goals simp at h

/-- **Single flight**: in every run the checks come one after the other. All but the last are whole,
and there is at most one more of them than there were resets. Each begins at a call that finds the
gate unknown, and lets the time pass that this call chose. What they ask for is what the log
shows. -/
theorem Run.single_flight {e : Environ σ} {trace : List Mark} {m : Machine σ}
    (h : Run e trace m) :
    (∃ (whole : List (Sequence m.scene.gate.table)) (last : List Deed),
      course trace = whole.flatMap Sequence.deeds ++ last ∧
      (last = [] ∧ whole.length ≤ resets trace + 1 ∨
        Underway m.scene.gate.table last ∧ whole.length + 1 ≤ resets trace + 1)) ∧
    (∀ i, .begun i ∈ m.deeds → m.scene.gate.state = .unknown ∧
      ∃ callback block interval timeout,
        m.task = .act (.ensureReady callback block interval timeout) ∧
        i = interval.getD m.scene.gate.interval) ∧
    m.scene.log.filterMap Event.query? = (course trace).filterMap Deed.query? := by
  obtain ⟨s, account⟩ := h.account
  refine ⟨?_, fun i hi => Machine.act_of_begun hi, h.queries_log⟩
  obtain ⟨past, hpast, hle⟩ := exists_sequences (List.range m.scene.gate.result)
    fun n hn => (account.past n (List.mem_range.mp hn)).course_eq
  rw [List.length_range] at hle
  have hcourse : course trace = past.flatMap Sequence.deeds ++
      course (period trace m.scene.gate.result) := by
    conv => lhs; rw [account.ordered, List.range_succ, List.flatMap_append, course_append,
      course_flatMap, hpast, List.flatMap_singleton]
  rw [account.resets]
  rcases account.stage.course_eq with ⟨last, hlast, hone⟩ | hunderway
  · refine ⟨past ++ last, [], by simp [hcourse, hlast], .inl ⟨rfl, ?_⟩⟩
    rw [List.length_append]
    omega
  · exact ⟨past, _, hcourse, .inr ⟨hunderway, by omega⟩⟩

/-- A table that has to be created and takes a while. While the check waits, another thread comes
with a callback; the callback of the starter comes with a third one when it is called. -/
def Scripts.created : Scripts where
  describe := [
    { ending := .error (.service (.ofCode "ResourceNotFoundException" "" "DescribeTable")) },
    { ending := .ok (.map [(.text "TableStatus", .text "ACTIVE")]) }]
  create := [{ ending := .ok (.map [(.text "TableStatus", .text "CREATING")]) }]
  sleep := [
    { actions := [.onThread (.ensureReady (some (.noting "second" [] none)) false none none)]
      ending := .ok .null }]

/-- A gate that answers from scripts, at its first call. -/
def Scripts.machine (s : Scripts) (action : Action) : Machine Scripts :=
  { gate := { table := "t", interval := .int 3 }, environ := s : Scene Scripts }.machine action

theorem Run.scripted (s : Scripts) (action : Action) (fuel : Nat) :
    Run Scripts.environ ((s.machine action).marksOf Scripts.environ fuel)
      ((s.machine action).run Scripts.environ fuel) := by
  have made : Gate.make "t" (.int 3) = .ok { table := "t", interval := .int 3 } := rfl
  have h : Run Scripts.environ [] (s.machine action) := .start made s action
  exact List.nil_append (Machine.marksOf ..) ▸ h.run fuel

/-- The call that makes the table usable. -/
def Machine.created : Machine Scripts :=
  let third := Action.ensureReady (some (.noting "third" [] none)) true none none
  Scripts.created.machine (.ensureReady (some (.noting "first" [third] none)) true none none)

theorem single_flight_created :
    let m := Machine.created.run Scripts.environ 64
    let trace := Machine.created.marksOf Scripts.environ 64
    (course trace).filterMap Deed.query? = [.describe, .create, .sleep (.int 3), .describe] ∧
    ∃ (whole : List (Sequence m.scene.gate.table)) (last : List Deed),
      course trace = whole.flatMap Sequence.deeds ++ last ∧
      (last = [] ∧ whole.length ≤ resets trace + 1 ∨
        Underway m.scene.gate.table last ∧ whole.length + 1 ≤ resets trace + 1) :=
  ⟨by with_unfolding_all rfl, (Run.scripted ..).single_flight.1⟩

end DocTable
