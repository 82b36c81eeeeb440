import DocTable.Proofs.Gate.SingleFlight

/-! What is left of a check when it is over. It has settled, whatever happened to it: a description
that is a fault, an error, or an interrupt while it asked. The one thing that keeps it from that is
a callback that interrupts the handing out; the gate is in the state of checking then, for ever. -/

namespace DocTable

variable {σ : Type} {e : Environ σ} {trace : List Mark} {m : Machine σ} {s : Option Stand}

/-- The check of the pending result has settled: the gate is open or closed, nobody who waited was
left out, and the finding can be forgotten. -/
structure Settles (trace : List Mark) (m : Machine σ) : Prop where
  state : m.scene.gate.state = .ready ∨ m.scene.gate.state = .failed
  waiters : m.scene.gate.waiters = []
  delivered : (delivered (period trace m.scene.gate.result)).map (·.1) =
    queued (period trace m.scene.gate.result)
  reset : ∃ g, m.scene.gate.reset = .ok g

theorem Stage.checking_of_interrupted {g : Gate} {p : List Mark} (h : Stage g s p)
    (hp : Interrupted p) : g.state = .checking := by
  cases h with
  | unknown => simp at hp
  | asks _ opened | awaits _ opened | found _ opened => exact opened.state
  | delivers state | hands state | broken state => exact state
  | resolves _ _ calm | finished _ _ calm => exact absurd hp calm

/-- No finding was forgotten that was not handed out to the end. -/
theorem Past.calm {table : String} {n : Nat} {p : List Mark} (h : Past table n p) :
    ¬Interrupted p := by
  obtain ⟨g, p, thread, rfl, -, -, hstate, stage⟩ := h
  rw [interrupted_append]
  rintro (hp | hreset)
  · exact hstate (stage.checking_of_interrupted hp)
  · simp [Deed.interrupted] at hreset

/-- **Stuck**: once a callback has interrupted the handing out, the gate stays in the state of
checking. -/
theorem Account.checking_of_interrupted (h : Account trace m s) (hi : Interrupted trace) :
    m.scene.gate.state = .checking := by
  obtain ⟨mark, hmark, hinterrupted⟩ := hi
  have hp : Interrupted (period trace mark.number) :=
    ⟨mark, List.mem_filter.mpr ⟨hmark, by simp⟩, hinterrupted⟩
  rcases Nat.lt_or_eq_of_le (h.number_le hmark) with hlt | heq
  · exact absurd hp (h.past _ hlt).calm
  · exact h.stage.checking_of_interrupted (heq ▸ hp)

/-- **Settling**: a check that is over has settled, unless a callback that waited interrupted the
handing out of a finding. -/
theorem Run.settles_iff (h : Run e trace m)
    (hbegun : ∃ mark ∈ period trace m.scene.gate.result, mark.deed.isBegun = true)
    (hover : m.stands = []) : Settles trace m ↔ ¬Interrupted trace := by
  obtain ⟨s, account⟩ := h.account
  constructor
  · intro hsettles hi
    have hstate := account.checking_of_interrupted hi
    rcases hsettles.state with hready | hfailed
    · cases hready.symm.trans hstate
    · cases hfailed.symm.trans hstate
  · intro hcalm
    obtain rfl := account.eq_none hover
    have stage := account.stage
    generalize hp : period trace m.scene.gate.result = p at stage hbegun
    cases stage with
    | unknown =>
      obtain ⟨mark, hmark, -⟩ := hbegun
      cases hmark
    | finished published settled =>
      refine ⟨published.ready_or_failed, published.waiters, ?_, ?_⟩
      · rw [hp, settled.queue, published.waiters, List.append_nil, List.append_nil]
      · have hstate : m.scene.gate.state ≠ .checking := by
          rcases published.ready_or_failed with hready | hfailed <;> simp [*]
        exact ⟨_, if_neg hstate⟩
    | broken _ _ _ interrupted =>
      obtain ⟨mark, hmark, hinterrupted⟩ := interrupted
      exact absurd ⟨mark, (List.mem_filter.mp (hp ▸ hmark)).1, hinterrupted⟩ hcalm

theorem settles_created :
    let m := Machine.created.run Scripts.environ 64
    let trace := Machine.created.marksOf Scripts.environ 64
    (trace.any (·.deed.isBegun)) = true ∧ m.stands = [] ∧ ¬Interrupted trace ∧ Settles trace m := by
  have calm : ¬Interrupted (Machine.created.marksOf Scripts.environ 64) :=
    (not_interrupted_iff_any _).mpr (by with_unfolding_all rfl)
  have hover : (Machine.created.run Scripts.environ 64).stands = [] := by with_unfolding_all rfl
  have hbegun : (period (Machine.created.marksOf Scripts.environ 64)
      (Machine.created.run Scripts.environ 64).scene.gate.result).any (·.deed.isBegun) = true := by
    with_unfolding_all rfl
  exact ⟨rfl, hover, calm,
    ((Run.scripted ..).settles_iff (List.any_eq_true.mp hbegun) hover).mpr calm⟩

/-- A call that does not wait and gives no callback, for a table of which the description is
interrupted. -/
def Machine.stopped : Machine Scripts :=
  { describe := [{ ending := .error (.interrupt "stop") }] : Scripts }.machine
    (.ensureReady none false none none)

/-- The callback that raises errors, which waits for a caller that gave none, interrupts the handing
out with what it is told. -/
theorem not_settles_stopped :
    let m := Machine.stopped.run Scripts.environ 32
    let trace := Machine.stopped.marksOf Scripts.environ 32
    Run Scripts.environ trace m ∧ (trace.any (·.deed.isBegun)) = true ∧ m.stands = [] ∧
      m.frames = [] ∧ m.scene.gate.state = .checking ∧ ¬Settles trace m := by
  have hstate : (Machine.stopped.run Scripts.environ 32).scene.gate.state = .checking := rfl
  refine ⟨.scripted _ _ 32, rfl, rfl, rfl, hstate, ?_⟩
  intro hsettles
  rcases hsettles.state with hready | hfailed
  · cases hready.symm.trans hstate
  · cases hfailed.symm.trans hstate

end DocTable
