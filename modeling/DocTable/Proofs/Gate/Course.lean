import DocTable.Proofs.Gate.Trace
import DocTable.Proofs.Text.Spelling

/-! The course of a check, as a grammar: describe, create if there is no table, and then, as long as
the table is not usable, let time pass and describe again. `Awaited.answer` shows that the machine
keeps to the grammar: from each place in the course an answer leads to the next place or to the end,
whatever the answer is. -/

namespace DocTable

/-- A query of a check and how it was answered. -/
structure Probe where
  query : Query
  answer : Outcome Value

def Probe.deeds (p : Probe) : List Deed := [.asked p.query, .answered p.answer]

/-- The answer that there is no table. -/
def NotFound (a : Outcome Value) : Prop :=
  ∃ e : ServiceError, a = .error (.service e) ∧ e.code = "ResourceNotFoundException"

/-- A description of a table that is not usable yet: its status is a text, not empty and not the
one of usable tables. -/
def Unfinished (a : Outcome Value) : Prop :=
  ∃ v description status, a = .ok v ∧ v.asMap = .ok description ∧
    OrderedMap.find? description (.text "TableStatus") = some (.text status) ∧
    status ≠ "" ∧ status ≠ "ACTIVE"

/-- What a check finds that ends with an answer. -/
def conclusion (table : String) (a : Outcome Value) : Finding := do
  let description ← (← a).asMap
  match OrderedMap.find? description (.text "TableStatus") with
  | some (.text status) =>
    if status = "" then .error (.request (.noStatus table)) else .ok description
  | _ => .error (.request (.noStatus table))

/-- Courses up to a description: describe, [create], (sleep, describe)*. -/
inductive Described (interval : Value) : List Probe → Outcome Value → Prop where
  | found {a : Outcome Value} : ¬NotFound a → Described interval [⟨.describe, a⟩] a
  | created {a b : Outcome Value} :
      NotFound a → Described interval [⟨.describe, a⟩, ⟨.create, b⟩] b
  | again {ps : List Probe} {a : Outcome Value} (v : Value) (b : Outcome Value) :
      Described interval ps a → Unfinished a →
      Described interval (ps ++ [⟨.sleep interval, .ok v⟩, ⟨.describe, b⟩]) b

/-- Whole courses, with their finding. They end with a description that shows the table usable or is
a fault, or with a sleep that fails. -/
inductive Complete (table : String) (interval : Value) : List Probe → Finding → Prop where
  | described {ps : List Probe} {a : Outcome Value} :
      Described interval ps a → ¬Unfinished a → Complete table interval ps (conclusion table a)
  | overslept {ps : List Probe} {a : Outcome Value} (f : Failure) :
      Described interval ps a → Unfinished a →
      Complete table interval (ps ++ [⟨.sleep interval, .error f⟩]) (.error f)

/-- What a check has to ask for next. -/
inductive Awaited (interval : Value) : List Probe → Phase → Prop where
  | describeFirst : Awaited interval [] .describeFirst
  | create {a : Outcome Value} : NotFound a → Awaited interval [⟨.describe, a⟩] .create
  | sleep {ps : List Probe} {a : Outcome Value} :
      Described interval ps a → Unfinished a → Awaited interval ps .sleep
  | describeAgain {ps : List Probe} {a : Outcome Value} (v : Value) :
      Described interval ps a → Unfinished a →
      Awaited interval (ps ++ [⟨.sleep interval, .ok v⟩]) .describeAgain

/-! ## The machine keeps to the grammar -/

variable {g : Gate} {interval : Value} {ps : List Probe} {phase : Phase}

theorem not_unfinished_error (f : Failure) : ¬Unfinished (.error f) :=
  fun ⟨_, _, _, h, _⟩ => nomatch h

theorem notFound_error_iff {f : Failure} : NotFound (.error f) ↔ f.isNotFound = true := by
  constructor
  · rintro ⟨e, h, hcode⟩
    cases h
    simp [Failure.isNotFound, Failure.code, hcode]
  · intro h
    cases f with
    | service e => exact ⟨e, rfl, of_decide_eq_true h⟩
    | _ => cases h

theorem activeStatus_iff {status : Spelling} :
    status.mended = Gate.activeStatus ↔ status = "ACTIVE" :=
  Spelling.mended_eq_iff (by decide)

theorem unfinished_iff_statusOf {v : Value} {description : Entries}
    (hv : v.asMap = .ok description) :
    Unfinished (.ok v) ↔ ∃ status, g.statusOf description = .ok status ∧
      status ≠ Gate.activeStatus := by
  constructor
  · rintro ⟨_, _, status, h, hm, hs, hne, hactive⟩
    cases h
    cases hv.symm.trans hm
    exact ⟨status.mended, by simp [Gate.statusOf, hs, hne], mt activeStatus_iff.mp hactive⟩
  · rintro ⟨status, hs, hactive⟩
    unfold Gate.statusOf at hs
    split at hs
    · split at hs
      · cases hs
      · cases hs
        exact ⟨v, description, _, rfl, hv, ‹_›, ‹_›, mt activeStatus_iff.mpr hactive⟩
    · cases hs

theorem conclusion_eq_statusOf {v : Value} {description : Entries}
    (hv : v.asMap = .ok description) :
    conclusion g.table (.ok v) = (g.statusOf description).map fun _ => description := by
  simp only [conclusion, Gate.statusOf, bind, Except.bind, hv]
  generalize OrderedMap.find? description (.text "TableStatus") = status
  rcases status with _ | status
  · rfl
  · cases status with
    | text status => by_cases h : status = "" <;> simp [h, Except.map]
    | _ => rfl

/-- A description of a table that is not usable makes the check wait. -/
theorem Gate.afterDescription_of_unfinished {v : Value} (h : Unfinished (.ok v)) :
    g.afterDescription interval v = .ask .sleep interval := by
  obtain ⟨_, description, _, hv, hm, _⟩ := id h
  cases hv
  obtain ⟨status, hs, hactive⟩ := (unfinished_iff_statusOf (g := g) hm).mp h
  simp [Gate.afterDescription, hm, hs, hactive]

/-- Every other description ends the check. -/
theorem Gate.afterDescription_of_finished {v : Value} (h : ¬Unfinished (.ok v)) :
    g.afterDescription interval v = .finish (conclusion g.table (.ok v)) := by
  cases hm : v.asMap with
  | error f => simp [Gate.afterDescription, conclusion, hm, bind, Except.bind]
  | ok description =>
    rw [conclusion_eq_statusOf hm]
    cases hs : g.statusOf description with
    | error f => simp [Gate.afterDescription, hm, hs, Except.map]
    | ok status =>
      have hactive : status = Gate.activeStatus := Decidable.byContradiction fun hne =>
        h ((unfinished_iff_statusOf hm).mpr ⟨status, hs, hne⟩)
      simp [Gate.afterDescription, hm, hs, hactive, Except.map]

/-- What comes after an answer to a query for a description. -/
theorem Described.answer {a : Outcome Value} (h : Described interval ps a) (g : Gate) (next : Task)
    (hnext : ∀ v, a = .ok v → next = g.afterDescription interval v)
    (hstop : ∀ f, a = .error f → next = .finish (.error f)) :
    (next = .ask .sleep interval ∧ Awaited interval ps .sleep) ∨
      ∃ f, next = .finish f ∧ Complete g.table interval ps f := by
  cases a with
  | error f => exact .inr ⟨_, hstop f rfl, .described h (not_unfinished_error f)⟩
  | ok v =>
    rw [hnext v rfl]
    by_cases hu : Unfinished (.ok v)
    · exact .inl ⟨Gate.afterDescription_of_unfinished hu, .sleep h hu⟩
    · exact .inr ⟨_, Gate.afterDescription_of_finished hu, .described h hu⟩

/-- **The course goes on**: from each place in it an answer leads to the next place or to its
end. -/
theorem Awaited.answer (h : Awaited interval ps phase) (a : Outcome Value) :
    (∃ phase', g.afterAnswer phase interval a = .ask phase' interval ∧
      Awaited interval (ps ++ [⟨phase.query interval, a⟩]) phase') ∨
    ∃ f, g.afterAnswer phase interval a = .finish f ∧
      Complete g.table interval (ps ++ [⟨phase.query interval, a⟩]) f := by
  cases h with
  | describeFirst =>
    by_cases hn : NotFound a
    · obtain ⟨e, rfl, -⟩ := id hn
      have hf := notFound_error_iff.mp hn
      exact .inl ⟨.create, by simp [Gate.afterAnswer, hf], .create hn⟩
    · have hd : Described interval [⟨.describe, a⟩] a := .found hn
      rcases hd.answer g (g.afterAnswer .describeFirst interval a)
        (fun v hv => by simp [Gate.afterAnswer, hv])
        (fun f hf => by
          have hne : f.isNotFound ≠ true := fun hne => hn (hf ▸ notFound_error_iff.mpr hne)
          simp [Gate.afterAnswer, hf, hne]) with ⟨h1, h2⟩ | h
      · exact .inl ⟨.sleep, h1, h2⟩
      · exact .inr h
  | create hn =>
    have hd : Described interval _ a := .created hn
    rcases hd.answer g (g.afterAnswer .create interval a)
      (fun v hv => by simp [Gate.afterAnswer, hv])
      (fun f hf => by simp [Gate.afterAnswer, hf]) with ⟨h1, h2⟩ | h
    · exact .inl ⟨.sleep, h1, h2⟩
    · exact .inr h
  | sleep hd hu =>
    cases a with
    | error f => exact .inr ⟨.error f, by simp [Gate.afterAnswer], .overslept f hd hu⟩
    | ok v => exact .inl ⟨.describeAgain, by simp [Gate.afterAnswer], .describeAgain v hd hu⟩
  | describeAgain v hd hu =>
    have hd' := Described.again v a hd hu
    simp only [List.append_assoc, List.cons_append, List.nil_append]
    rcases hd'.answer g (g.afterAnswer .describeAgain interval a)
      (fun v hv => by simp [Gate.afterAnswer, hv])
      (fun f hf => by simp [Gate.afterAnswer, hf]) with ⟨h1, h2⟩ | h
    · exact .inl ⟨.sleep, h1, h2⟩
    · exact .inr h

end DocTable
