import DocTable.Proofs.Gate.Course
import DocTable.Proofs.Gate.Move
import DocTable.Proofs.Table.Interrupts

/-! The check of a table against its client. Every query but a sleep takes an answer from the script
of the client, so the check comes to an end within the steps that are allowed for it; it makes no
other calls than those that describe or create the table. -/

namespace DocTable

variable {σ : Type}

/-! ## Steps -/

/-- Steps of a machine, with their number. -/
inductive Steps (e : Environ σ) : Nat → Machine σ → Machine σ → Prop where
  | refl (m : Machine σ) : Steps e 0 m m
  | step {n : Nat} {m m' m'' : Machine σ} :
      m.step? e = some m' → Steps e n m' m'' → Steps e (n + 1) m m''

namespace Steps

variable {e : Environ σ} {n k fuel : Nat} {m m' m'' : Machine σ}

theorem trans (h : Steps e n m m') (h' : Steps e k m' m'') : Steps e (n + k) m m'' := by
  induction h with
  | refl => simpa using h'
  | step hstep _ ih =>
    rw [Nat.add_right_comm]
    exact .step hstep (ih h')

/-- A machine that stops can be given more steps than it needs. -/
theorem run_eq (h : Steps e n m m') (hstop : m'.step? e = none) (hle : n ≤ fuel) :
    m.run e fuel = m' := by
  induction h generalizing fuel with
  | refl => cases fuel <;> simp [Machine.run, hstop]
  | @step n m m₁ m' hstep _ ih =>
    obtain ⟨fuel, rfl⟩ := Nat.exists_eq_add_of_le' hle
    rw [← Nat.add_assoc, Machine.run, hstep]
    exact ih hstop (by omega)

/-- An action that ends within the steps that are allowed for it. -/
theorem perform_eq {s s' : Scene σ} {thread : Thread} {action : Action} {r : Outcome Value}
    (h : Steps e n (s.machine action) ⟨s', thread, .reply r, []⟩) (hle : n ≤ s.fuel e action) :
    s.perform e action = (some r, s') := by
  simp only [Scene.perform, h.run_eq rfl hle]

end Steps

/-! ## Calls of the client -/

namespace Client

variable {c c' c'' : Client} {operation : String} {request : Entries}

theorem answer_calls (c : Client) (operation : String) (request : Entries) :
    (c.answer operation request).2.calls = c.calls ++ [(operation, request)] := by
  unfold answer
  split <;> rfl

theorem answer_script (c : Client) (operation : String) (request : Entries) :
    (c.answer operation request).2.script = c.script.tail := by
  unfold answer
  split <;> simp [*]

/-- Without a script every call fails. -/
theorem answer_of_nil (h : c.script = []) :
    (c.answer operation request).1 = .error (.mismatch (.unexpected operation)) := by
  simp [answer, h]

/-- What the calls of a check do to a client. -/
structure Checked (c c' : Client) : Prop where
  calls : ∃ calls, c'.calls = c.calls ++ calls ∧
    ∀ call ∈ calls, call.1 = "describe_table" ∨ call.1 = "create_table"
  script : c'.script <:+ c.script

theorem Checked.refl (c : Client) : c.Checked c :=
  ⟨⟨[], by simp⟩, List.suffix_rfl⟩

theorem Checked.trans (h : c.Checked c') (h' : c'.Checked c'') : c.Checked c'' := by
  obtain ⟨calls, hcalls, hall⟩ := h.calls
  obtain ⟨calls', hcalls', hall'⟩ := h'.calls
  refine ⟨⟨calls ++ calls', by rw [hcalls', hcalls, List.append_assoc], fun call hcall => ?_⟩,
    h'.script.trans h.script⟩
  rcases List.mem_append.mp hcall with hmem | hmem
  · exact hall call hmem
  · exact hall' call hmem

theorem Checked.answer (c : Client) (request : Entries)
    (h : operation = "describe_table" ∨ operation = "create_table") :
    c.Checked (c.answer operation request).2 where
  calls := ⟨[(operation, request)], c.answer_calls operation request, by simpa using h⟩
  script := c.answer_script operation request ▸ List.tail_suffix c.script

end Client

namespace Table

variable (t : Table)

/-- The answer to what a check asks for in a phase. -/
def answer (phase : Phase) (c : Client) : Outcome Value × Client :=
  match phase with
  | .describeFirst | .describeAgain => ((t.describe c).1.ending, (t.describe c).2)
  | .create => ((t.create c).1.ending, (t.create c).2)
  | .sleep => (.ok .null, c)

theorem checked_answer (phase : Phase) (c : Client) : c.Checked (t.answer phase c).2 := by
  cases phase with
  | describeFirst | describeAgain => exact .answer c _ (.inl rfl)
  | create =>
    simp only [answer, create]
    split
    · exact .refl c
    · exact .answer c _ (.inr rfl)
  | sleep => exact .refl c

theorem uninterrupted_answer {c : Client} (h : c.Plain) (phase : Phase) :
    Uninterrupted (t.answer phase c).1 := by
  cases phase with
  | describeFirst | describeAgain => exact t.uninterrupted_describe h
  | create => exact t.uninterrupted_create h
  | sleep => exact uninterrupted_ok _

/-- What a check asks for is answered by the client, which neither holds it up nor does anything
else first. -/
theorem step_ask (s : Scene Client) (thread : Thread) (phase : Phase) (interval : Value)
    (fs : List Frame) :
    Machine.step? t.environ ⟨s, thread, .ask phase interval, fs⟩ =
      some ⟨{ s with
          environ := (t.answer phase s.environ).2, log := s.log ++ [phase.event interval] },
        thread, .react [] (t.answer phase s.environ).1, .checks phase interval :: fs⟩ := by
  cases phase with
  | describeFirst | describeAgain | sleep => rfl
  | create =>
    simp only [Machine.step?, Machine.ask, Scene.ask, environ, answer, create, Scene.note]
    split <;> rfl

theorem steps_ask (s : Scene Client) (thread : Thread) (phase : Phase) (interval : Value)
    (fs : List Frame) :
    Steps t.environ 3 ⟨s, thread, .ask phase interval, fs⟩
      ⟨{ s with environ := (t.answer phase s.environ).2, log := s.log ++ [phase.event interval] },
        thread, s.gate.afterAnswer phase interval (t.answer phase s.environ).1, fs⟩ :=
  .step (t.step_ask s thread phase interval fs) (.step rfl (.step rfl (.refl _)))

/-- How much a check can still ask for: each description takes an answer from the script. -/
def weight (phase : Phase) (c : Client) : Nat :=
  2 * c.script.length + match phase with
    | .describeFirst => 4
    | .create => 3
    | .sleep => 2
    | .describeAgain => 1

theorem script_length_answer (phase : Phase) (c : Client) :
    (t.answer phase c).2.script.length ≤ c.script.length :=
  (t.checked_answer phase c).script.length_le

theorem afterDescription_cases (g : Gate) (interval v : Value) :
    (∃ f, g.afterDescription interval v = .finish f) ∨
      g.afterDescription interval v = .ask .sleep interval := by
  by_cases h : Unfinished (.ok v)
  · exact .inr (Gate.afterDescription_of_unfinished h)
  · exact .inl ⟨_, Gate.afterDescription_of_finished h⟩

/-- After each answer the check has its finding or less to ask for. -/
theorem afterAnswer_cases (g : Gate) (phase : Phase) (interval : Value) (c : Client) :
    (∃ f, g.afterAnswer phase interval (t.answer phase c).1 = .finish f) ∨
      ∃ phase', g.afterAnswer phase interval (t.answer phase c).1 = .ask phase' interval ∧
        weight phase' (t.answer phase c).2 < weight phase c := by
  have hlength := t.script_length_answer phase c
  cases hanswer : (t.answer phase c).1 with
  | error f =>
    by_cases hcreate : phase = .describeFirst ∧ f.isNotFound
    · refine .inr ⟨.create, by simp [Gate.afterAnswer, hcreate], ?_⟩
      obtain ⟨rfl, -⟩ := hcreate
      simp only [weight]
      omega
    · exact .inl ⟨.error f, by simp [Gate.afterAnswer, hcreate]⟩
  | ok v =>
    cases phase with
    | sleep => exact .inr ⟨.describeAgain, by simp [Gate.afterAnswer], by simp [weight, answer]⟩
    | describeAgain =>
      -- an answer came, so it was taken from the script: that pays for another sleep
      have hscript : c.script ≠ [] := fun hnil => by
        have hfails : (t.describe c).1.ending =
            .error (.mismatch (.unexpected "describe_table")) := by
          show (c.answer "describe_table" (t.request [] [])).1 >>= partOr "Table" = _
          rw [Client.answer_of_nil hnil]
          rfl
        cases hfails.symm.trans hanswer
      rcases afterDescription_cases g interval v with ⟨f, hf⟩ | hsleep
      · exact .inl ⟨f, by simp [Gate.afterAnswer, hf]⟩
      · refine .inr ⟨.sleep, by simp [Gate.afterAnswer, hsleep], ?_⟩
        have htail : (t.answer .describeAgain c).2.script = c.script.tail :=
          c.answer_script "describe_table" (t.request [] [])
        have := List.length_pos_iff.mpr hscript
        simp only [weight, htail, List.length_tail]
        omega
    | describeFirst | create =>
      rcases afterDescription_cases g interval v with ⟨f, hf⟩ | hsleep
      · exact .inl ⟨f, by simp [Gate.afterAnswer, hf]⟩
      · refine .inr ⟨.sleep, by simp [Gate.afterAnswer, hsleep], ?_⟩
        simp only [weight]
        omega

/-- **The check ends**: within three steps for everything that it can still ask for it has a
finding. That is a request to stop only if the script holds one. -/
theorem steps_check (thread : Thread) (interval : Value) (fs : List Frame) (phase : Phase)
    (s : Scene Client) :
    ∃ n f c log, n ≤ 3 * (weight phase s.environ + 1) ∧ s.environ.Checked c ∧
      (s.environ.Plain → Uninterrupted f) ∧ Steps t.environ n ⟨s, thread, .ask phase interval, fs⟩
        ⟨{ s with environ := c, log }, thread, .finish f, fs⟩ := by
  have hask := t.steps_ask s thread phase interval fs
  have hchecked := t.checked_answer phase s.environ
  rcases t.afterAnswer_cases s.gate phase interval s.environ with ⟨f, hf⟩ | ⟨phase', hnext, hlt⟩
  · refine ⟨3, f, _, _, by omega, hchecked, fun h => ?_, hf ▸ hask⟩
    exact Gate.uninterrupted_afterAnswer (t.uninterrupted_answer h phase) hf
  · obtain ⟨n, f, c, log, hn, hc, hplain, hsteps⟩ := steps_check thread interval fs phase'
      { s with
        environ := (t.answer phase s.environ).2, log := s.log ++ [phase.event interval] }
    refine ⟨3 + n, f, c, log, by simp only at hn; omega, hchecked.trans hc,
      fun h => hplain (h.mono hchecked.script), ?_⟩
    exact (hnext ▸ hask).trans hsteps
termination_by weight phase s.environ

end Table

end DocTable
