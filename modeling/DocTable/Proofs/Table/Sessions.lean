import DocTable.Proofs.Gate.Account
import DocTable.Proofs.Table.Passing
import DocTable.Proofs.Table.Requests

/-! Sessions that dispatch a request: whatever an operation does first to build its request and last
to read the response, in between it passes the gate and makes one call. -/

namespace DocTable

/-! ## Running sessions -/

namespace Session

variable {α β : Type} {x y : Session α} {f : α → Session β} {h h' : Handle}

theorem run_bind_ok {a : α} (hx : x.run.run h = (.ok a, h')) :
    (x >>= f).run.run h = (f a).run.run h' := by
  show (ExceptT.bindCont f (x.run.run h).1).run (x.run.run h).2 = _
  rw [hx]
  rfl

theorem run_bind_error {e : Failure} (hx : x.run.run h = (.error e, h')) :
    (x >>= f).run.run h = (.error e, h') := by
  show (ExceptT.bindCont f (x.run.run h).1).run (x.run.run h).2 = _
  rw [hx]
  rfl

theorem run_bind_congr (hxy : x.run.run h = y.run.run h) :
    (x >>= f).run.run h = (y >>= f).run.run h := by
  rcases hy : y.run.run h with ⟨r | r, h'⟩
  · rw [run_bind_error hy, run_bind_error (hxy.trans hy)]
  · rw [run_bind_ok hy, run_bind_ok (hxy.trans hy)]

/-- Sessions that leave the handle as it is. -/
def Quiet (x : Session α) : Prop :=
  ∀ h, (x.run.run h).2 = h

theorem quiet_pure (a : α) : Quiet (pure a) :=
  fun _ => rfl

theorem quiet_lift (o : Outcome α) : Quiet (Handle.lift o) := by
  cases o <;> exact fun _ => rfl

theorem quiet_getTable : Quiet Handle.getTable :=
  fun _ => rfl

theorem Quiet.bind (hx : Quiet x) (hf : ∀ a, Quiet (f a)) : Quiet (x >>= f) := by
  intro h
  have hx := hx h
  rcases hr : x.run.run h with ⟨r | r, h'⟩ <;> rw [hr] at hx
  · rw [run_bind_error hr]
    exact hx
  · rw [run_bind_ok hr, hf r h']
    exact hx

theorem quiet_recordIn (name : String) (response : Value) :
    Quiet (Handle.recordIn name response) :=
  quiet_getTable.bind fun _ => quiet_lift _

end Session

/-! ## Dispatching -/

open Session

/-- On handles of a table the session passes the gate, makes a call and changes nothing else. -/
def Dispatches (t : Table) (call : String × Entries) {α : Type} (x : Session α) : Prop :=
  ∃ k : Value → Session α, (∀ v, Quiet (k v)) ∧ ∀ h : Handle, h.table = t →
    x.run.run h = (Handle.ensureReady >>= fun _ => Handle.call call.1 call.2 >>= k).run.run h

namespace Dispatches

variable {t : Table} {call : String × Entries} {α β : Type} {x : Session α}

theorem bind {f : α → Session β} (hx : Dispatches t call x) (hf : ∀ a, Quiet (f a)) :
    Dispatches t call (x >>= f) := by
  obtain ⟨k, hk, hrun⟩ := hx
  refine ⟨fun v => k v >>= f, fun v => (hk v).bind hf, fun h ht => ?_⟩
  rw [run_bind_congr (hrun h ht)]
  simp only [bind_assoc]

theorem passAndCall {operation : String} {build : Table → Outcome Entries} {request : Entries}
    (hbuild : build t = .ok request) :
    Dispatches t (operation, request) (Handle.passAndCall operation build) := by
  refine ⟨pure, quiet_pure, fun h ht => ?_⟩
  have hlift : (Handle.lift (build h.table)).run.run h = (.ok request, h) := by
    rw [ht, hbuild]
    rfl
  have hget : Handle.getTable.run.run h = (.ok h.table, h) := rfl
  simp only [bind_pure]
  exact (run_bind_ok hget).trans (run_bind_ok hlift)

theorem fetch {c : Cursor} {params : Params} (hc : c.Obtained t params) (start : Option Entries) :
    Dispatches t (c.mode.operation, c.request start) (c.fetch start) := by
  refine ⟨fun response => Handle.getTable >>= fun t => Handle.lift (c.take t.schema response),
    fun _ => quiet_getTable.bind fun _ => quiet_lift _, fun h _ => ?_⟩
  have hnames : Handle.lift (Cursor.checkNames (c.request start)) = pure () := by
    rw [(hc.shaped.request start).checkNames]
    rfl
  simp only [Cursor.fetch, hnames, pure_bind]

end Dispatches

theorem Handle.passAndCall_rejected {operation : String} {build : Table → Outcome Entries}
    {e : Failure} {h : Handle} (hbuild : build h.table = .error e) :
    (passAndCall operation build).run.run h = (.error e, h) := by
  have hget : getTable.run.run h = (.ok h.table, h) := rfl
  have hlift : (lift (build h.table)).run.run h = (.error e, h) := by
    rw [hbuild]
    rfl
  exact (run_bind_ok hget).trans (run_bind_error hlift)

/-! ## Passing the gate -/

namespace Handle

/-- The calls that the client has received. -/
def calls (h : Handle) : List (String × Entries) :=
  h.scene.environ.calls

/-- A handle of a table between operations. It is fresh as long as nothing has passed its gate. -/
structure Stands (t : Table) (fresh : Bool) (h : Handle) : Prop where
  table : h.table = t
  gate : ∃ known, h.scene.gate.Rests known ∧ known.isNone = fresh

/-- The calls of a check: they describe or create the table, and there are none unless the handle
is fresh. -/
structure ChecksOf (fresh : Bool) (calls : List (String × Entries)) : Prop where
  names : ∀ call ∈ calls, call.1 = "describe_table" ∨ call.1 = "create_table"
  fresh : fresh = false → calls = []

/-- What who passes a gate gets for its finding. A fresh handle has to wait for it. -/
def passed (fresh : Bool) (h : Handle) (f : Finding) : Outcome Value :=
  if fresh then f.awaited h.scene.gate.table none else f.reply

/-- What who passes a closed gate raises for its error. -/
def raised (fresh : Bool) (h : Handle) (e : Failure) : Failure :=
  if fresh then e.awaited h.scene.gate.table none else e

@[simp] theorem passed_ok (fresh : Bool) (h : Handle) (description : Entries) :
    h.passed fresh (.ok description) = .ok (.map description) := by
  cases fresh <;> rfl

@[simp] theorem passed_error (fresh : Bool) (h : Handle) (e : Failure) :
    h.passed fresh (.error e) = .error (h.raised fresh e) := by
  cases fresh <;> rfl

/-- Unless it is about a wait, the error of the gate is itself raised. -/
theorem raised_eq_self {e : Failure} (he : ∀ text, e ≠ .timeout text) (fresh : Bool) (h : Handle) :
    h.raised fresh e = e := by
  cases fresh with
  | false => rfl
  | true => exact Failure.awaited_eq_self_iff.mpr he

/-- What comes of passing the gate in order to make a call. -/
inductive Passage (fresh : Bool) (call : String × Entries) (h : Handle) {α : Type} :
    Outcome α → Handle → Prop where
  /-- The gate is closed: its error is raised and the call is not made. -/
  | refused {e : Failure} {h' : Handle} {checks : List (String × Entries)}
      (state : h'.scene.gate.state = .failed) (error : h'.scene.gate.error = some e)
      (asked : ChecksOf fresh checks) (calls : h'.calls = h.calls ++ checks) :
      Passage fresh call h (.error (h'.raised fresh e)) h'
  /-- The gate is open: the call is made once. -/
  | called {r : Outcome α} {h' : Handle} {checks : List (String × Entries)}
      (state : h'.scene.gate.state = .ready) (asked : ChecksOf fresh checks)
      (calls : h'.calls = h.calls ++ checks ++ [call]) : Passage fresh call h r h'

variable {t : Table} {fresh : Bool} {h : Handle}

theorem run_gateAction {action : Action} {r : Outcome Value} {s : Scene Client}
    (hperform : h.scene.perform h.table.environ action = (some r, s)) :
    (gateAction action).run.run h = (r, { h with scene := s }) := by
  show (lift ((h.scene.perform h.table.environ action).1.getD
    (.error (.timedOut h.table.name.mended .zero)))).run.run
      { h with scene := (h.scene.perform h.table.environ action).2 } = _
  rw [hperform]
  cases r <;> rfl

theorem run_call (h : Handle) (operation : String) (request : Entries) :
    (call operation request).run.run h = ((h.scene.environ.answer operation request).1,
      { h with scene := { h.scene with
        environ := (h.scene.environ.answer operation request).2 } }) := by
  show (lift (h.scene.environ.answer operation request).1).run.run _ = _
  cases (h.scene.environ.answer operation request).1 <;> rfl

/-- Who passes the gate gets its finding, which is there from then on. -/
theorem Stands.ensureReady (hs : Stands t fresh h) :
    ∃ f h' checks, Handle.ensureReady.run.run h = (h'.passed fresh f, h') ∧ h'.table = t ∧
      h'.scene.gate.Rests (some f) ∧ h'.calls = h.calls ++ checks ∧ ChecksOf fresh checks := by
  obtain ⟨known, hrests, hknown⟩ := hs.gate
  cases known with
  | some f =>
    obtain rfl : false = fresh := hknown
    have hready := run_gateAction (h.scene.perform_known h.table.environ hrests)
    exact ⟨f, h, [], hready, hs.table, hrests, by simp, by simp, fun _ => rfl⟩
  | none =>
    obtain rfl : true = fresh := hknown
    obtain ⟨f, g, c, log, hperform, hg, hc⟩ := h.table.perform_unknown hrests
    obtain ⟨checks, hcalls, hnames⟩ := hc.calls
    exact ⟨f, { h with scene := { h.scene with gate := g, environ := c, log } }, checks,
      run_gateAction hperform, hs.table, hg, hcalls, hnames, nofun⟩

theorem Stands.reset (hs : Stands t fresh h) :
    ∃ h', resetReadiness.run.run h = (.ok .null, h') ∧ h'.table = t ∧ h'.scene.gate.Rests none ∧
      h'.calls = h.calls := by
  obtain ⟨known, hrests, -⟩ := hs.gate
  let s := h.scene.withGate h.scene.gate.forget
  have hreset : h.scene.gate.reset = .ok h.scene.gate.forget := if_neg hrests.ne_checking
  have hstep : (h.scene.machine .reset).step? h.table.environ =
      some ⟨s, 0, .reply (.ok .null), []⟩ := by
    simp [Machine.step?, Machine.act, Scene.machine, hreset, s, Scene.withGate]
  have hperform : h.scene.perform h.table.environ .reset = (some (.ok .null), s) :=
    (Steps.step hstep (.refl _)).perform_eq (by simp only [Scene.fuel, Scene.size]; omega)
  exact ⟨_, run_gateAction hperform, hs.table, hrests.forget, rfl⟩

end Handle

/-- Whatever dispatches a request passes the gate and makes its call unless the gate is closed. -/
theorem Dispatches.passage {t : Table} {call : String × Entries} {α : Type} {x : Session α}
    {fresh : Bool} {h : Handle} (hx : Dispatches t call x) (hs : h.Stands t fresh) :
    Handle.Passage fresh call h (x.run.run h).1 (x.run.run h).2 ∧
      (x.run.run h).2.Stands t false := by
  obtain ⟨k, hk, hrun⟩ := hx
  obtain ⟨f, h', checks, hready, ht, hrests, hcalls, hchecks⟩ := hs.ensureReady
  rw [hrun h hs.table]
  cases f with
  | error e =>
    rw [Handle.passed_error] at hready
    rw [run_bind_error hready]
    exact ⟨.refused hrests.state hrests.error hchecks hcalls, ht, _, hrests, rfl⟩
  | ok description =>
    rw [Handle.passed_ok] at hready
    rw [run_bind_ok hready]
    have hcall := Handle.run_call h' call.1 call.2
    -- reading the response is quiet, so the handle is what the call made of it
    have hquiet : ((Handle.call call.1 call.2 >>= k).run.run h').2 =
        ((Handle.call call.1 call.2).run.run h').2 := by
      cases hanswer : (h'.scene.environ.answer call.1 call.2).1 with
      | error e => rw [run_bind_error (hcall.trans (by rw [hanswer])), hcall]
      | ok v => rw [run_bind_ok (hcall.trans (by rw [hanswer])), hk, hcall]
    have hcalls' : (h'.scene.environ.answer call.1 call.2).2.calls =
        h.calls ++ checks ++ [call] := by
      rw [h'.scene.environ.answer_calls, ← hcalls]
      rfl
    rw [hquiet, hcall]
    exact ⟨.called hrests.state hchecks hcalls', ht, _, hrests, rfl⟩

/-! ## Opening -/

namespace Handle

variable {schema : Schema} {options : TableOptions} {client : Client} {h : Handle}

theorem make_eq (schema : Schema) (options : TableOptions) (client : Client) :
    ∃ name : Outcome Spelling, (∀ s, name = .ok s → s ≠ "") ∧ make schema options client = do
      let name ← name
      let throughput ← throughput options.readCapacity options.writeCapacity
      let gate ← Gate.make name.mended options.pollInterval
      return {
        table := ⟨schema, name, options.consistentRead.truthy, throughput⟩
        scene := { gate, environ := client } } := by
  unfold make
  dsimp only
  repeat' split
  all_goals
    refine ⟨_, ?_, rfl⟩
    rintro s ⟨⟩
  all_goals assumption

theorem make_rests (hmake : make schema options client = .ok h) :
    h.scene.gate.Rests none ∧ h.scene.environ = client := by
  obtain ⟨name, -, heq⟩ := make_eq schema options client
  obtain ⟨name, -, h₁⟩ := Outcome.bind_eq_ok.mp (heq.symm.trans hmake)
  obtain ⟨throughput, -, h₁⟩ := Outcome.bind_eq_ok.mp h₁
  obtain ⟨gate, hgate, h₁⟩ := Outcome.bind_eq_ok.mp h₁
  cases h₁
  obtain rfl := Gate.eq_of_make hgate
  exact ⟨⟨rfl, rfl, rfl, rfl⟩, rfl⟩

/-- A new handle is fresh unless it is made ready at once. The check that makes it ready is over
before the handle is there, if nothing in the script is a request to stop. -/
theorem stands_openTable (hopen : openTable schema options client = .ok h)
    (hplain : options.readyAtOnce.truthy = true → client.Plain) :
    h.Stands h.table (!options.readyAtOnce.truthy) := by
  unfold openTable at hopen
  obtain ⟨h₀, hmake, hready⟩ := Outcome.bind_eq_ok.mp hopen
  obtain ⟨hrests, hclient⟩ := make_rests hmake
  cases hat : options.readyAtOnce.truthy with
  | false =>
    rw [hat, if_neg Bool.false_ne_true] at hready
    cases hready
    exact ⟨rfl, none, hrests, rfl⟩
  | true =>
    obtain ⟨f, g, c, log, hperform, hg, -⟩ :=
      h₀.table.perform_background hrests (hclient ▸ hplain hat)
    rw [hat, if_pos rfl, run_gateAction hperform] at hready
    cases hready
    exact ⟨rfl, some f, hg, rfl⟩

end Handle

end DocTable
