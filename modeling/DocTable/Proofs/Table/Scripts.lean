import DocTable.Proofs.Table.Sessions
import DocTable.Table.Call

/-! Scripts are used up. Whatever the state of its gate is, what is done with a handle does nothing
to the client but call it. Calls take answers from the script and add none, so what holds of all
responses in the script goes on to hold. -/

namespace DocTable

/-! ## Steps of the machine -/

namespace Machine

variable {σ : Type} (m : Machine σ)

theorem environ_ensureReady (callback : Option Callback) (block : Bool)
    (interval timeout : Option Value) :
    (m.ensureReady callback block interval timeout).scene.environ = m.scene.environ := by
  unfold ensureReady
  dsimp only
  repeat' split
  all_goals rfl

theorem environ_act (action : Action) : (m.act action).scene.environ = m.scene.environ := by
  cases action with
  | ensureReady callback block interval timeout => exact m.environ_ensureReady ..
  | reset =>
    unfold act
    dsimp only
    split <;> rfl
  | release =>
    show m.release.scene.environ = _
    unfold release
    split <;> rfl
  | onThread action | state => rfl

theorem environ_deliver (f : Finding) : (m.deliver f).scene.environ = m.scene.environ := by
  unfold deliver
  dsimp only
  split <;> rfl

theorem environ_resume (r : Outcome Value) (frame : Frame) :
    (m.resume r frame).scene.environ = m.scene.environ := by
  cases frame <;> unfold resume <;> dsimp only <;> repeat' split
  all_goals rfl

/-- Only who asks for something gets at the environment. -/
theorem environ_step {e : Environ σ} {m m' : Machine σ} (h : m.step? e = some m')
    (hask : ∀ phase interval, m.task ≠ .ask phase interval) :
    m'.scene.environ = m.scene.environ := by
  obtain ⟨s, thread, task, frames⟩ := m
  cases task with
  | ask phase interval => exact absurd rfl (hask phase interval)
  | act action =>
    cases h
    exact environ_act _ action
  | call callback error description =>
    cases h
    cases callback <;> rfl
  | react actions ending =>
    cases h
    cases actions <;> rfl
  | deliver f =>
    cases h
    exact environ_deliver _ f
  | finish f | resolve f =>
    cases h
    rfl
  | look number timeout =>
    simp only [step?, look] at h
    split at h <;> cases h <;> rfl
  | reply r =>
    cases frames with
    | nil => cases h
    | cons frame frames =>
      cases h
      exact environ_resume _ r frame

end Machine

namespace Client

/-- A client after some calls, one after the other. -/
def after (c : Client) (calls : List (String × Entries)) : Client :=
  calls.foldl (fun c call => (c.answer call.1 call.2).2) c

theorem after_append (c : Client) (calls calls' : List (String × Entries)) :
    c.after (calls ++ calls') = (c.after calls).after calls' :=
  List.foldl_append

theorem calls_after (c : Client) (calls : List (String × Entries)) :
    (c.after calls).calls = c.calls ++ calls := by
  induction calls generalizing c with
  | nil => exact (List.append_nil _).symm
  | cons call calls ih =>
    show ((c.answer call.1 call.2).2.after calls).calls = _
    rw [ih, c.answer_calls, List.append_assoc]
    rfl

/-- Whether calls make one client of another. -/
def Reaches (c c' : Client) : Prop :=
  ∃ calls, c' = c.after calls

theorem Reaches.refl (c : Client) : c.Reaches c :=
  ⟨[], rfl⟩

theorem Reaches.trans {c c' c'' : Client} (h : c.Reaches c') (h' : c'.Reaches c'') :
    c.Reaches c'' := by
  obtain ⟨calls, rfl⟩ := h
  obtain ⟨calls', rfl⟩ := h'
  exact ⟨calls ++ calls', (c.after_append calls calls').symm⟩

theorem reaches_answer (c : Client) (operation : String) (request : Entries) :
    c.Reaches (c.answer operation request).2 :=
  ⟨[(operation, request)], rfl⟩

/-- Calls take answers from the script and add none. -/
theorem Reaches.script {c c' : Client} (h : c.Reaches c') : c'.script <:+ c.script := by
  obtain ⟨calls, rfl⟩ := h
  induction calls generalizing c with
  | nil => exact List.suffix_rfl
  | cons call calls ih =>
    have htail := List.tail_suffix c.script
    rw [← c.answer_script call.1 call.2] at htail
    exact ih.trans htail

end Client

namespace Table

variable (t : Table) {m m' : Machine Client}

theorem reaches_answer (phase : Phase) (c : Client) : c.Reaches (t.answer phase c).2 := by
  cases phase with
  | describeFirst | describeAgain => exact c.reaches_answer _ _
  | create =>
    simp only [answer, create]
    split
    · exact .refl c
    · exact c.reaches_answer _ _
  | sleep => exact .refl c

section

variable {R : Client → Client → Prop} (hrefl : ∀ c, R c c)
  (hanswer : ∀ phase c, R c (t.answer phase c).2)

include hrefl hanswer

/-- What answers do to a client is all that a step does to it. -/
theorem related_step (h : m.step? t.environ = some m') :
    R m.scene.environ m'.scene.environ := by
  by_cases hask : ∃ phase interval, m.task = .ask phase interval
  · obtain ⟨phase, interval, htask⟩ := hask
    obtain ⟨s, thread, task, frames⟩ := m
    subst htask
    rw [t.step_ask] at h
    cases h
    exact hanswer phase s.environ
  · rw [Machine.environ_step h fun phase interval htask => hask ⟨phase, interval, htask⟩]
    exact hrefl _

theorem related_run (htrans : ∀ {c c' c''}, R c c' → R c' c'' → R c c'') (fuel : Nat)
    (m : Machine Client) : R m.scene.environ (m.run t.environ fuel).scene.environ := by
  induction fuel generalizing m with
  | zero => exact hrefl _
  | succ fuel ih =>
    rw [Machine.run]
    cases hstep : m.step? t.environ with
    | none => exact hrefl _
    | some m' => exact htrans (t.related_step hrefl hanswer hstep) (ih m')

end

/-- What is done with a gate describes or creates the table, and calls nothing else. -/
theorem checked_perform (s : Scene Client) (action : Action) :
    s.environ.Checked (s.perform t.environ action).2.environ :=
  t.related_run .refl t.checked_answer .trans _ (s.machine action)

theorem reaches_perform (s : Scene Client) (action : Action) :
    s.environ.Reaches (s.perform t.environ action).2.environ :=
  t.related_run .refl t.reaches_answer .trans _ (s.machine action)

end Table

/-! ## Sessions -/

namespace Handle

/-- What the client of a handle still expects. -/
def script (h : Handle) : List Expectation :=
  h.scene.environ.script

/-- A gate changes nothing of a handle but its scene. -/
theorem handle_gateAction (action : Action) (h : Handle) :
    ((gateAction action).run.run h).2 =
      { h with scene := (h.scene.perform h.table.environ action).2 } := by
  show ((lift _).run.run { h with
    scene := (h.scene.perform h.table.environ action).2 }).2 = _
  rw [Session.quiet_lift]

theorem checked_gateAction (action : Action) (h : Handle) :
    h.scene.environ.Checked ((gateAction action).run.run h).2.scene.environ := by
  rw [handle_gateAction]
  exact h.table.checked_perform h.scene action

theorem reaches_gateAction (action : Action) (h : Handle) :
    h.scene.environ.Reaches ((gateAction action).run.run h).2.scene.environ := by
  rw [handle_gateAction]
  exact h.table.reaches_perform h.scene action

theorem table_gateAction (action : Action) (h : Handle) :
    ((gateAction action).run.run h).2.table = h.table := by
  rw [handle_gateAction]

/-- A handle after its client has received a call. -/
def called (h : Handle) (call : String × Entries) : Handle :=
  { h with scene := { h.scene with environ := h.scene.environ.after [call] } }

theorem calls_called (h : Handle) (call : String × Entries) :
    (h.called call).calls = h.calls ++ [call] :=
  h.scene.environ.calls_after [call]

/-- A relation between handles that lasts: whatever is done with the gate leads to a handle in this
relation to the one before, and so do some calls. -/
structure Lasting (calls : String × Entries → Prop) (R : Handle → Handle → Prop) : Prop where
  refl (h : Handle) : R h h
  trans {h h' h'' : Handle} (first : R h h') (second : R h' h'') : R h h''
  gate (action : Action) (h : Handle) : R h ((gateAction action).run.run h).2
  call {operation : String} {request : Entries} (known : calls (operation, request)) (h : Handle) :
    R h ((call operation request).run.run h).2

/-- What is done with a handle does nothing to the client but call it. -/
theorem lasting_reaches : Lasting (fun _ => True)
    fun h h' => h.scene.environ.Reaches h'.scene.environ where
  refl _ := .refl _
  trans := .trans
  gate := reaches_gateAction
  call _ h := by
    rw [run_call]
    exact h.scene.environ.reaches_answer _ _

/-- What is done with a handle leaves its table. -/
theorem lasting_table : Lasting (fun _ => True) fun h h' => h'.table = h.table where
  refl _ := rfl
  trans first second := second.trans first
  gate := table_gateAction
  call _ h := by rw [run_call]

/-- The calls that are added to those before are of some kinds, if the calls of checks are. -/
theorem lasting_calls {calls : String × Entries → Prop}
    (hchecks : ∀ operation request, operation = "describe_table" ∨ operation = "create_table" →
      calls (operation, request)) :
    Lasting calls fun h h' =>
      ∃ added, h'.calls = h.calls ++ added ∧ ∀ call ∈ added, calls call where
  refl h := ⟨[], (List.append_nil _).symm, nofun⟩
  trans := by
    rintro h h' h'' ⟨added, heq, hadded⟩ ⟨added', heq', hadded'⟩
    exact ⟨added ++ added', by rw [heq', heq, List.append_assoc],
      List.forall_mem_append.mpr ⟨hadded, hadded'⟩⟩
  gate action h := by
    obtain ⟨added, heq, hadded⟩ := (checked_gateAction action h).calls
    exact ⟨added, heq, fun call hmem => hchecks _ _ (hadded call hmem)⟩
  call {operation request} hknown h := by
    rw [run_call]
    exact ⟨[(operation, request)], h.scene.environ.answer_calls operation request,
      List.forall_mem_singleton.mpr hknown⟩

end Handle

namespace Session

variable {α β : Type} {x : Session α} {f : α → Session β}

/-- Sessions after which a handle is in some relation to what it was. -/
def Leads (R : Handle → Handle → Prop) (x : Session α) : Prop :=
  ∀ h, R h (x.run.run h).2

section

variable {calls : String × Entries → Prop} {R : Handle → Handle → Prop}
  (hR : Handle.Lasting calls R)

include hR

theorem Quiet.leads (hx : Quiet x) : Leads R x := by
  intro h
  rw [hx h]
  exact hR.refl h

theorem leads_lift (o : Outcome α) : Leads R (Handle.lift o) :=
  (quiet_lift o).leads hR

theorem leads_gateAction (action : Action) : Leads R (Handle.gateAction action) :=
  hR.gate action

theorem leads_call {operation : String} {request : Entries} (hknown : calls (operation, request)) :
    Leads R (Handle.call operation request) :=
  hR.call hknown

theorem Leads.bind (hx : Leads R x) (hf : ∀ a, Leads R (f a)) : Leads R (x >>= f) := by
  intro h
  have hx := hx h
  rcases hr : x.run.run h with ⟨r | r, h'⟩ <;> rw [hr] at hx
  · rw [run_bind_error hr]
    exact hx
  · rw [run_bind_ok hr]
    exact hR.trans hx (hf r h')

theorem leads_passAndCall {operation : String} (hknown : ∀ request, calls (operation, request))
    (build : Table → Outcome Entries) : Leads R (Handle.passAndCall operation build) :=
  (quiet_getTable.leads hR).bind hR fun _ => (leads_lift hR _).bind hR fun _ =>
    (leads_gateAction hR _).bind hR fun _ => leads_call hR (hknown _)

theorem leads_batchGetItems (hknown : ∀ request, calls ("batch_get_item", request))
    (keys consistentRead : Value) (params : Params) :
    Leads R (Handle.batchGetItems keys consistentRead params) := by
  unfold Handle.batchGetItems
  split
  · exact leads_lift hR (.error _)
  · split
    · exact (leads_passAndCall hR hknown _).bind hR fun _ =>
        (quiet_getTable.leads hR).bind hR fun _ => leads_lift hR _
    · exact leads_lift hR (.ok _)

theorem leads_fetch {c : Cursor} {start : Option Entries}
    (hknown : calls (c.mode.operation, c.request start)) : Leads R (c.fetch start) :=
  (leads_gateAction hR _).bind hR fun _ => (leads_lift hR _).bind hR fun _ =>
    (leads_call hR hknown).bind hR fun _ => (quiet_getTable.leads hR).bind hR fun _ =>
      leads_lift hR _

/-- The operations of a table call no others than those of items and of tables. -/
theorem leads_invoke (hknown : ∀ operation request, operation ≠ "query" → operation ≠ "scan" →
    calls (operation, request)) (name : String) (values : List Value) (params : Params) :
    Leads R (Handle.invoke name values params) := by
  unfold Handle.invoke
  split
  case h_1 | h_2 | h_3 | h_4 =>
    exact (leads_lift hR _).bind hR fun _ =>
      (leads_passAndCall hR (fun _ => hknown _ _ (by decide) (by decide)) _).bind hR fun _ =>
        (quiet_recordIn _ _).leads hR
  case h_5 =>
    exact (leads_lift hR _).bind hR fun _ =>
      leads_batchGetItems hR (fun _ => hknown _ _ (by decide) (by decide)) _ _ _
  case h_6 | h_7 =>
    exact (leads_lift hR _).bind hR fun _ => (quiet_getTable.leads hR).bind hR fun _ =>
      leads_call hR (hknown _ _ (by decide) (by decide))
  case h_8 | h_9 =>
    exact (leads_lift hR _).bind hR fun _ => (quiet_getTable.leads hR).bind hR fun _ =>
      (leads_lift hR _).bind hR fun _ => leads_call hR (hknown _ _ (by decide) (by decide))
  case h_10 => exact (leads_lift hR _).bind hR fun _ => leads_gateAction hR _
  case h_11 => exact leads_lift hR (.error _)

end

/-- Sessions that do nothing to the client but call it. -/
def OnlyCalls (x : Session α) : Prop :=
  ∀ h : Handle, h.scene.environ.Reaches (x.run.run h).2.scene.environ

/-- Sessions that add nothing to the script. -/
def Consumes (x : Session α) : Prop :=
  ∀ h, (x.run.run h).2.script <:+ h.script

theorem OnlyCalls.consumes (hx : OnlyCalls x) : Consumes x :=
  fun h => (hx h).script

theorem onlyCalls_gateAction (action : Action) : OnlyCalls (Handle.gateAction action) :=
  leads_gateAction Handle.lasting_reaches action

theorem onlyCalls_fetch (c : Cursor) (start : Option Entries) : OnlyCalls (c.fetch start) :=
  leads_fetch Handle.lasting_reaches trivial

/-- No operation of a table does anything to the client but call it. -/
theorem onlyCalls_invoke (name : String) (values : List Value) (params : Params) :
    OnlyCalls (Handle.invoke name values params) :=
  leads_invoke Handle.lasting_reaches (fun _ _ _ _ => trivial) name values params

theorem consumes_fetch (c : Cursor) (start : Option Entries) : Consumes (c.fetch start) :=
  (onlyCalls_fetch c start).consumes

theorem consumes_invoke (name : String) (values : List Value) (params : Params) :
    Consumes (Handle.invoke name values params) :=
  (onlyCalls_invoke name values params).consumes

end Session

end DocTable
