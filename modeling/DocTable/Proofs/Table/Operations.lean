import DocTable.Proofs.Table.Sessions

/-! The operations on data of a table: build, gate, one call. An operation that is rejected while
its request is built does nothing; any other passes the gate, and makes one call if that is open.
This holds after every sequence of operations, since the handle stands after each. -/

namespace DocTable

/-- The operations on the data of a table, and the reset of its gate. Cursors are obtained from the
table. -/
inductive Operation (t : Table) where
  | getItem (key : Value) (params : Params)
  | batchGetItems (keys consistentRead : Value) (params : Params)
  | putItem (item expected : Value) (params : Params)
  | updateItem (key updates expected : Value) (params : Params)
  | deleteItem (key expected : Value) (params : Params)
  | query (conditions : Value) (params : Params)
  | scan (filter : Value) (params : Params)
  | execute (c : Cursor) (params : Params) (obtained : c.Obtained t params)
  | fetchNext (c : Cursor) (params : Params) (obtained : c.Obtained t params)
  | reset

/-- The entry by which a request for data names its table. -/
def Table.Names (t : Table) (operation : String) (entry : String × Value) : Prop :=
  if operation = "batch_get_item" then
    ∃ wanted, entry = ("RequestItems", .map [(.text t.name, wanted)])
  else entry = ("TableName", .text t.name)

/-- The operations of the store on data. -/
def dataOperations : List String :=
  ["get_item", "put_item", "update_item", "delete_item", "batch_get_item", "query", "scan"]

namespace Operation

variable {t : Table}

/-- The parameters that the caller gives for the request. -/
def given : Operation t → Params
  | getItem _ params | batchGetItems _ _ params | putItem _ _ params | updateItem _ _ _ params
  | deleteItem _ _ params | query _ params | scan _ params | execute _ params _
  | fetchNext _ params _ => params
  | reset => []

/-- The names of what is computed for a request, besides the entry that names the table. -/
def fields : Operation t → List String
  | getItem .. => ["Key", "ConsistentRead"]
  | putItem .. => ["Item", "Expected"]
  | updateItem .. => ["Key", "AttributeUpdates", "Expected"]
  | deleteItem .. => ["Key", "Expected"]
  | execute c .. | fetchNext c .. => Cursor.fields c.mode
  | batchGetItems .. | query .. | scan .. | reset => []

/-- The call that an operation is about to make, if its arguments are not rejected. Nothing is
called for an empty batch, to obtain a cursor or to reset the gate. -/
def build : Operation t → Outcome (Option (String × Entries))
  | getItem key params => do return some ("get_item", ← t.getRequest key params)
  | batchGetItems keys consistentRead params =>
    match keys with
    | .null => throw (.request .keysRequired)
    | keys =>
      if keys.truthy then do
        return some ("batch_get_item", ← t.batchRequest keys consistentRead params)
      else return none
  | putItem item expected params => do
    return some ("put_item", ← t.putRequest item expected params)
  | updateItem key updates expected params => do
    return some ("update_item", ← t.updateItemRequest key updates expected params)
  | deleteItem key expected params => do
    return some ("delete_item", ← t.deleteRequest key expected params)
  | query conditions params => do
    let _ ← t.query conditions params
    return none
  | scan filter params => do
    let _ ← t.scan filter params
    return none
  | execute c _ _ => return some (c.mode.operation, c.request none)
  | fetchNext c _ _ =>
    if c.hasMore then return some (c.mode.operation, c.request c.continuationKey)
    else throw .noMoreData
  | reset => return none

/-- An operation as a session. What it gives does not matter here. -/
def perform : Operation t → Session Unit
  | getItem key params => discard <| Handle.getItem key params
  | batchGetItems keys consistentRead params =>
    discard <| Handle.batchGetItems keys consistentRead params
  | putItem item expected params => discard <| Handle.putItem item expected params
  | updateItem key updates expected params =>
    discard <| Handle.updateItem key updates expected params
  | deleteItem key expected params => discard <| Handle.deleteItem key expected params
  | query conditions params => do
    discard <| Handle.lift ((← Handle.getTable).query conditions params)
  | scan filter params => do
    discard <| Handle.lift ((← Handle.getTable).scan filter params)
  | execute c _ _ => discard c.execute
  | fetchNext c _ _ => discard c.fetchNext
  | reset => discard Handle.resetReadiness

/-- Does an operation on a handle. -/
def run (op : Operation t) (h : Handle) : Outcome Unit × Handle :=
  op.perform.run.run h

/-- A call that an operation makes: its request consists of what the caller gives, overlaid by what
is computed, and names the table. -/
structure Sends (op : Operation t) (call : String × Entries) : Prop where
  build : op.build = .ok (some call)
  data : call.1 ∈ dataOperations
  request : ∃ entry, t.Names call.1 entry ∧ call.2.find? (.text entry.1) = some entry.2 ∧
    Overlaid op.given entry op.fields call.2

theorem sends_of_overlaid {op : Operation t} {call : String × Entries}
    (h : op.build = .ok (some call)) (hdata : call.1 ∈ dataOperations)
    (hone : call.1 ≠ "batch_get_item")
    (hoverlaid : Overlaid op.given t.nameEntry op.fields call.2) : op.Sends call :=
  ⟨h, hdata, _, by simp [Table.Names, hone, Table.nameEntry], hoverlaid.find?_entry, hoverlaid⟩

theorem sends_of_build {op : Operation t} {call : String × Entries}
    (h : op.build = .ok (some call)) : op.Sends call := by
  cases op with
  | getItem key params =>
    obtain ⟨request, hrequest, hcall⟩ := Outcome.bind_eq_ok.mp h
    cases hcall
    exact sends_of_overlaid h (by simp [dataOperations]) (by simp)
      (Table.overlaid_getRequest hrequest)
  | putItem item expected params =>
    obtain ⟨request, hrequest, hcall⟩ := Outcome.bind_eq_ok.mp h
    cases hcall
    exact sends_of_overlaid h (by simp [dataOperations]) (by simp)
      (Table.overlaid_putRequest hrequest)
  | updateItem key updates expected params =>
    obtain ⟨request, hrequest, hcall⟩ := Outcome.bind_eq_ok.mp h
    cases hcall
    exact sends_of_overlaid h (by simp [dataOperations]) (by simp)
      (Table.overlaid_updateItemRequest hrequest)
  | deleteItem key expected params =>
    obtain ⟨request, hrequest, hcall⟩ := Outcome.bind_eq_ok.mp h
    cases hcall
    exact sends_of_overlaid h (by simp [dataOperations]) (by simp)
      (Table.overlaid_deleteRequest hrequest)
  | batchGetItems keys consistentRead params =>
    have hbuild := h
    unfold Operation.build at hbuild
    dsimp only at hbuild
    split at hbuild
    · cases hbuild
    · split at hbuild
      · obtain ⟨request, hrequest, hcall⟩ := Outcome.bind_eq_ok.mp hbuild
        cases hcall
        obtain ⟨wanted, hoverlaid⟩ := Table.overlaid_batchRequest hrequest
        exact ⟨h, by simp [dataOperations], _, ⟨wanted, rfl⟩, hoverlaid.find?_entry, hoverlaid⟩
      · cases hbuild
  | query conditions params | scan filter params =>
    obtain ⟨c, -, hcall⟩ := Outcome.bind_eq_ok.mp h
    cases hcall
  | execute c params obtained =>
    have hbuild := h
    cases hbuild
    refine sends_of_overlaid h ?_ ?_ (obtained.shaped.request none) <;>
      cases c.mode <;> simp [dataOperations, CursorMode.operation]
  | fetchNext c params obtained =>
    have hbuild := h
    unfold Operation.build at hbuild
    dsimp only at hbuild
    split at hbuild
    · cases hbuild
      refine sends_of_overlaid h ?_ ?_ (obtained.shaped.request c.continuationKey) <;>
        cases c.mode <;> simp [dataOperations, CursorMode.operation]
    · cases hbuild
  | reset => cases h

end Operation

/-! ## What an operation does -/

open Session

/-- A session that does what the building of a request tells: nothing but to raise its error,
nothing at all, or to dispatch the request. -/
def Performs (t : Table) (x : Session Unit) : Outcome (Option (String × Entries)) → Prop
  | .error e => ∀ h : Handle, h.table = t → x.run.run h = (.error e, h)
  | .ok none => ∀ h : Handle, h.table = t → x.run.run h = (.ok (), h)
  | .ok (some call) => Dispatches t call x

theorem Session.discard_eq {α : Type} (x : Session α) : discard x = x >>= fun _ => pure () := by
  rw [discard, map_const]
  exact map_eq_pure_bind _ _

namespace Performs

variable {t : Table} {α : Type}

theorem passAndCall (operation : String) (build : Table → Outcome Entries) {f : Value → Session α}
    (hf : ∀ v, Quiet (f v)) :
    Performs t (discard (Handle.passAndCall operation build >>= f))
      (do return some (operation, ← build t)) := by
  rw [discard_eq]
  cases hbuild : build t with
  | ok request =>
    exact ((Dispatches.passAndCall hbuild).bind hf).bind fun _ => quiet_pure ()
  | error e =>
    intro h ht
    have hrun : (Handle.passAndCall operation build).run.run h = (.error e, h) :=
      Handle.passAndCall_rejected (ht ▸ hbuild)
    exact run_bind_error (run_bind_error hrun)

theorem fetch {c : Cursor} {params : Params} (hc : c.Obtained t params) (start : Option Entries) :
    Performs t (discard (c.fetch start)) (.ok (some (c.mode.operation, c.request start))) := by
  rw [discard_eq]
  exact (Dispatches.fetch hc start).bind fun _ => quiet_pure ()

/-- Obtaining a cursor neither passes the gate nor calls anything. -/
theorem obtain {build : Table → Outcome α} :
    Performs t (do discard (Handle.lift (build (← Handle.getTable))))
      (do let _ ← build t; return none) := by
  cases hbuild : build t with
  | ok c | error e =>
    intro h ht
    subst ht
    show (discard (Handle.lift (build h.table))).run.run h = _
    rw [hbuild]
    rfl

end Performs

namespace Operation

variable {t : Table}

theorem performs (op : Operation t) (hop : op ≠ reset) : Performs t op.perform op.build := by
  cases op with
  | getItem key params | putItem item expected params | updateItem key updates expected params
  | deleteItem key expected params => exact .passAndCall _ _ (quiet_recordIn _)
  | batchGetItems keys consistentRead params =>
    unfold perform build Handle.batchGetItems
    cases keys with
    | null => exact fun _ _ => rfl
    | _ =>
      -- whatever else the keys are, only their truth decides whether there is a request
      dsimp only
      split
      · exact .passAndCall _ _ fun _ => quiet_getTable.bind fun _ => quiet_lift _
      · exact fun _ _ => rfl
  | query conditions params | scan filter params => exact .obtain
  | execute c params obtained => exact .fetch obtained none
  | fetchNext c params obtained =>
    unfold perform build Cursor.fetchNext
    dsimp only
    split
    · exact .fetch obtained c.continuationKey
    · exact fun _ _ => rfl
  | reset => exact absurd rfl hop

/-- Whether a handle is fresh after an operation: a reset makes it so, and it is not any more once
a request is built. -/
def leaves (fresh : Bool) : Operation t → Bool
  | reset => true
  | op => fresh && op.build.toOption.join.isNone

theorem leaves_of_ne {op : Operation t} (hop : op ≠ reset) (fresh : Bool) :
    op.leaves fresh = (fresh && op.build.toOption.join.isNone) := by
  cases op with
  | reset => exact absurd rfl hop
  | _ => rfl

/-- What an operation does to a handle that is fresh or not. -/
inductive Effect (op : Operation t) (fresh : Bool) (h : Handle) : Outcome Unit → Handle → Prop where
  /-- The arguments are rejected while the request is built, and nothing else happens. -/
  | rejected {e : Failure} (build : op.build = .error e) : Effect op fresh h (.error e) h
  /-- There is nothing to be called. -/
  | idle (build : op.build = .ok none) (other : op ≠ reset) : Effect op fresh h (.ok ()) h
  | reset {h' : Handle} (op_eq : op = reset) (state : h'.scene.gate.state = .unknown)
      (calls : h'.calls = h.calls) : Effect op fresh h (.ok ()) h'
  /-- The request is built: the operation passes the gate in order to send it. -/
  | passes {call : String × Entries} {r : Outcome Unit} {h' : Handle} (sends : op.Sends call)
      (passage : Handle.Passage fresh call h r h') : Effect op fresh h r h'

variable {fresh : Bool} {h : Handle}

/-- An operation on a standing handle has one of the effects, and the handle stands again. -/
theorem effect (hs : h.Stands t fresh) (op : Operation t) :
    op.Effect fresh h (op.run h).1 (op.run h).2 ∧ (op.run h).2.Stands t (op.leaves fresh) := by
  by_cases hop : op = reset
  · subst hop
    obtain ⟨h', hreset, ht, hrests, hcalls⟩ := hs.reset
    have hrun : run (t := t) reset h = (.ok (), h') := by
      rw [run, perform, discard_eq]
      exact run_bind_ok hreset
    rw [hrun]
    exact ⟨.reset rfl hrests.state hcalls, ht, none, hrests, rfl⟩
  · have hperforms := op.performs hop
    rw [leaves_of_ne hop]
    match hbuild : op.build with
    | .error e =>
      rw [hbuild] at hperforms
      have hrun : op.run h = (.error e, h) := hperforms h hs.table
      rw [hrun]
      exact ⟨.rejected hbuild, by simpa [Except.toOption] using hs⟩
    | .ok none =>
      rw [hbuild] at hperforms
      have hrun : op.run h = (.ok (), h) := hperforms h hs.table
      rw [hrun]
      exact ⟨.idle hbuild hop, by simpa [Except.toOption] using hs⟩
    | .ok (some call) =>
      rw [hbuild] at hperforms
      obtain ⟨hpassage, hstands⟩ := Dispatches.passage hperforms hs
      have hstands : (op.run h).2.Stands t false := hstands
      exact ⟨.passes (sends_of_build hbuild) hpassage, by simpa [Except.toOption] using hstands⟩

/-- Does operations one after the other. -/
def runAll (ops : List (Operation t)) (h : Handle) : Handle :=
  ops.foldl (fun h op => (op.run h).2) h

theorem stands_runAll (ops : List (Operation t)) (hs : h.Stands t fresh) :
    (runAll ops h).Stands t (ops.foldl leaves fresh) := by
  induction ops generalizing h fresh with
  | nil => exact hs
  | cons op ops ih => exact ih (effect hs op).2

end Operation

open Operation

/-- **Build, gate, one call.** Whatever was done with a handle since it was opened, an operation
that is rejected while its request is built does nothing else. Any other passes the gate, whose
checks make no calls unless the handle is fresh, and raises its error or makes exactly one call. A
handle is fresh until it passes its gate for the first time, and that may be while it is opened.
An empty batch gives an empty list. -/
theorem Handle.operations {schema : Schema} {options : TableOptions} {client : Client} {h : Handle}
    (hopen : openTable schema options client = .ok h)
    (hplain : options.readyAtOnce.truthy = true → client.Plain)
    (ops : List (Operation h.table)) (op : Operation h.table) :
    op.Effect (ops.foldl leaves (!options.readyAtOnce.truthy)) (runAll ops h)
        (op.run (runAll ops h)).1 (op.run (runAll ops h)).2 ∧
      ∀ consistentRead params, (batchGetItems (.list []) consistentRead params).run.run
        (runAll ops h) = (.ok (.list []), runAll ops h) :=
  ⟨(effect (stands_runAll ops (stands_openTable hopen hplain)) op).1, fun _ _ => rfl⟩

def Schema.byId : Schema where
  fields := [("id", { fieldName := "id", storedName := "id", type := "S" })]
  hashKey := { fieldName := "id", storedName := "id", type := "S" }

def Client.atOnce : Client where
  script := [activeTable (.text "orders"), { operation := "get_item" }]

def TableOptions.atOnce : TableOptions where
  tableName := .text "orders"
  pollInterval := .int 1
  readyAtOnce := .bool true

theorem operations_atOnce : ∃ h, Handle.openTable .byId .atOnce .atOnce = .ok h ∧
    (TableOptions.atOnce.readyAtOnce.truthy = true → Client.atOnce.Plain) ∧
    ∃ op : Operation h.table, op = .getItem (.map [(.text "id", .text "a")]) [] ∧
      op.Effect false h (op.run h).1 (op.run h).2 := by
  have hplain : Client.atOnce.Plain := by simp [Client.Plain, Client.atOnce, Client.activeTable]
  have hok : (Handle.openTable .byId .atOnce .atOnce).isOk = true := by with_unfolding_all rfl
  obtain ⟨h, hopen⟩ : ∃ h, Handle.openTable .byId .atOnce .atOnce = .ok h := by
    cases hopen : Handle.openTable .byId .atOnce .atOnce with
    | ok h => exact ⟨h, rfl⟩
    | error e => rw [hopen] at hok; cases hok
  exact ⟨h, hopen, fun _ => hplain, _, rfl,
    (Handle.operations hopen (fun _ => hplain) [] _).1⟩

/-- The table of a handle that is to be ready at once is described while the handle is opened, in
no operation, and the first operation that reaches the gate does not have it described. -/
theorem exists_early_check : ∃ h, Handle.openTable .byId .atOnce .atOnce = .ok h ∧
    h.calls.map (·.1) = ["describe_table"] ∧
    (run (t := h.table) (.getItem (.map [(.text "id", .text "a")]) []) h).2.calls.map (·.1) =
      ["describe_table", "get_item"] := by
  have hopened : (Handle.openTable .byId .atOnce .atOnce).toOption.map (fun h =>
      (h.calls.map (·.1),
        (run (t := h.table) (.getItem (.map [(.text "id", .text "a")]) []) h).2.calls.map (·.1))) =
      some (["describe_table"], ["describe_table", "get_item"]) := by
    with_unfolding_all rfl
  cases hopen : Handle.openTable .byId .atOnce .atOnce with
  | ok h =>
    rw [hopen] at hopened
    obtain ⟨hcalls, hrun⟩ := Prod.mk.inj (Option.some.inj hopened)
    exact ⟨h, rfl, hcalls, hrun⟩
  | error e =>
    rw [hopen] at hopened
    cases hopened

end DocTable
