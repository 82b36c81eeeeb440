import DocTable.Proofs.Table.Scripts

/-! Creating tables. A request to create a table identifies the table and its key. The capacity of
the handle is sent if the mode of billing is written as expected; written with blanks or left out,
it means capacity that is provisioned too, but the default one is sent. -/

namespace DocTable

open Outcome

theorem throughput_eq_ok {read write v : Value} (h : throughput read write = .ok v) :
    v = .map [(.text "ReadCapacityUnits", read), (.text "WriteCapacityUnits", write)] := by
  obtain ⟨_, -, h⟩ := bind_eq_ok.mp h
  obtain ⟨_, -, h⟩ := bind_eq_ok.mp h
  exact (Except.ok.inj h).symm

theorem throughputOr_eq (given byDefault : Value) :
    throughputOr given byDefault =
      (if given.truthy then given else byDefault).asMap.map .map := by
  unfold throughputOr
  cases (if given.truthy then given else byDefault).asMap <;> rfl

theorem BillingMode.code_inj {mode mode' : BillingMode} (h : mode.code = mode'.code) :
    mode = mode' := by
  cases mode <;> cases mode' <;> first | rfl | exact absurd h (by decide)

theorem BillingMode.same_provisioned {v : Value} :
    v.same (.text provisioned.code) = true ↔ v = .text provisioned.code :=
  Value.beq_text

theorem BillingMode.ofValue_provisioned :
    ofValue (.text provisioned.code) = .ok provisioned := by
  rfl

namespace Table

variable {t : Table} {billing given : Value} {others : Params} {request capacity : Entries}

/-- Whether a table has a name and a capacity, as every table that is opened. -/
structure Configured (t : Table) : Prop where
  name : t.name ≠ ""
  throughput : ∃ read write, DocTable.throughput read write = .ok t.throughput

/-- Whether a request names a table and declares its key. -/
structure Identifies (t : Table) (request : Entries) : Prop where
  name : request.find? (.text "TableName") = some (.text t.name)
  key : request.find? (.text "KeySchema") = some t.schema.keySchemaValue
  types : request.find? (.text "AttributeDefinitions") = some t.schema.attributeDefinitionsValue

/-- The capacity that a caller gives, else that of the table. -/
def capacityOr (t : Table) (given : Value) : Value :=
  if given.truthy then given else t.throughput

/-- How the capacity of a request should be: that of the caller or of the table if it is paid for,
or none at all. -/
inductive OwnCapacity (t : Table) (given : Value) (request : Entries) : Prop where
  | provisioned {capacity : Entries}
    (mode : request.find? (.text "BillingMode") = some (.text BillingMode.provisioned.code))
    (own : (t.capacityOr given).asMap = .ok capacity)
    (sent : request.find? (.text "ProvisionedThroughput") = some (.map capacity))
  | perRequest
    (mode : request.find? (.text "BillingMode") = some (.text BillingMode.perRequest.code))
    (sent : request.find? (.text "ProvisionedThroughput") = none)

/-- Why a table is not created: the mode is unknown, the capacity cannot be read, or there is one
that is not paid for. -/
inductive Refuses (billing given : Value) : Failure → Prop where
  | mode {f : Failure} (h : BillingMode.ofValue billing = .error f) : Refuses billing given f
  | capacity {f : Failure} (hmode : BillingMode.ofValue billing = .ok .provisioned)
    (hgiven : given.truthy = true) (h : given.asMap = .error f) : Refuses billing given f
  | notAllowed (hmode : BillingMode.ofValue billing = .ok .perRequest)
    (hgiven : given.truthy = true) : Refuses billing given (.request .throughputNotAllowed)

/-- What a request says about a table, but for the capacity. -/
def identity (t : Table) (mode : BillingMode) : Entries :=
  [(.text "TableName", .text t.name), (.text "KeySchema", t.schema.keySchemaValue),
    (.text "AttributeDefinitions", t.schema.attributeDefinitionsValue),
    (.text "BillingMode", .text mode.code)]

/-- The capacity that is sent for a mode that means provisioned capacity. -/
def sentCapacity (t : Table) (billing given : Value) : Value :=
  if given.truthy then given
  else if billing.same (.text BillingMode.provisioned.code) then t.throughput
  else defaultThroughput

theorem Configured.eq_map (h : t.Configured) : ∃ read write, t.throughput =
    .map [(.text "ReadCapacityUnits", read), (.text "WriteCapacityUnits", write)] := by
  obtain ⟨read, write, hthroughput⟩ := h.throughput
  exact ⟨read, write, throughput_eq_ok hthroughput⟩

theorem createRequest_of_mode {mode : BillingMode} (hc : t.Configured)
    (hmode : BillingMode.ofValue billing = .ok mode) :
    t.schema.createRequest (.text t.name) billing given others =
      match mode, given with
      | .provisioned, given => do
        return (others.entries.overlay (t.identity .provisioned)).put
          (.text "ProvisionedThroughput") (← throughputOr given defaultThroughput)
      | .perRequest, .null => .ok (others.entries.overlay (t.identity .perRequest))
      | .perRequest, _ => .error (.request .throughputNotAllowed) := by
  have hname : tableNameOr (.text t.name) t.schema.tableName = .ok (.text t.name) := by
    simp [tableNameOr, Value.truthy, hc.name]
  simp only [Schema.createRequest, hmode, hname]
  cases mode with
  | provisioned => rfl
  | perRequest => cases given <;> rfl

theorem creation_of_perRequest (hc : t.Configured)
    (hmode : BillingMode.ofValue billing = .ok .perRequest) (given : Value) (others : Params) :
    t.creation billing given others =
      if given.truthy then .error (.request .throughputNotAllowed)
      else .ok (others.entries.overlay (t.identity .perRequest)) := by
  have hne : billing.same (.text BillingMode.provisioned.code) = false := by
    rw [Bool.eq_false_iff]
    intro hsame
    rw [BillingMode.same_provisioned.mp hsame, BillingMode.ofValue_provisioned] at hmode
    cases hmode
  rw [creation, hne, createRequest_of_mode hc hmode]
  cases hgiven : given.truthy with
  | true => cases given <;> first | rfl | cases hgiven
  | false => rfl

/-- Where no capacity is asked for, the default one is sent. -/
theorem sentCapacity_eq (hc : t.Configured) (billing given : Value) :
    let asked := if given.truthy then given
      else if billing.same (.text BillingMode.provisioned.code) then t.throughput else .null
    (if asked.truthy then asked else defaultThroughput) = t.sentCapacity billing given := by
  obtain ⟨read, write, hown⟩ := hc.eq_map
  unfold sentCapacity
  split
  next hgiven => exact if_pos hgiven
  next =>
    split
    next => rw [hown]; rfl
    next => rfl

theorem creation_of_provisioned (hc : t.Configured)
    (hmode : BillingMode.ofValue billing = .ok .provisioned) (given : Value) (others : Params) :
    t.creation billing given others = (t.sentCapacity billing given).asMap.map fun capacity =>
      (others.entries.overlay (t.identity .provisioned)).put
        (.text "ProvisionedThroughput") (.map capacity) := by
  rw [creation, createRequest_of_mode hc hmode]
  simp only [throughputOr_eq, sentCapacity_eq hc]
  cases (t.sentCapacity billing given).asMap <;> rfl

/-! ## What is sent -/

theorem identifies_overlay (others : Params) (mode : BillingMode) :
    t.Identifies (others.entries.overlay (t.identity mode)) := by
  constructor <;> simp [identity, Entries.find?_put_self, Entries.find?_put_of_ne]

theorem find?_billingMode (others : Params) (mode : BillingMode) :
    (others.entries.overlay (t.identity mode)).find? (.text "BillingMode") =
      some (.text mode.code) := by
  simp [identity, Entries.find?_put_self]

theorem find?_throughput (others : Params) (mode : BillingMode) :
    (others.entries.overlay (t.identity mode)).find? (.text "ProvisionedThroughput") =
      others.find? "ProvisionedThroughput" := by
  simp [identity, Entries.find?_put_of_ne, Params.find?_entries]

theorem Identifies.put (h : t.Identifies request) (capacity : Value) :
    t.Identifies (request.put (.text "ProvisionedThroughput") capacity) := by
  constructor <;> rw [Entries.find?_put_of_ne (by decide)]
  exacts [h.name, h.key, h.types]

/-- The mode in a request decides which way its capacity should be. -/
theorem ownCapacity_iff {mode : BillingMode}
    (hmode : request.find? (.text "BillingMode") = some (.text mode.code)) :
    t.OwnCapacity given request ↔ match mode with
      | .provisioned => ∃ capacity, (t.capacityOr given).asMap = .ok capacity ∧
          request.find? (.text "ProvisionedThroughput") = some (.map capacity)
      | .perRequest => request.find? (.text "ProvisionedThroughput") = none := by
  have hcode : ∀ {mode' : BillingMode},
      request.find? (.text "BillingMode") = some (.text mode'.code) → mode = mode' := fun hmode' =>
    BillingMode.code_inj (Value.text_plain_inj (Option.some.inj (hmode.symm.trans hmode')))
  constructor
  · rintro (⟨hmode', hown, hsent⟩ | ⟨hmode', hsent⟩)
    · obtain rfl := hcode hmode'
      exact ⟨_, hown, hsent⟩
    · obtain rfl := hcode hmode'
      exact hsent
  · cases mode with
    | provisioned =>
      rintro ⟨capacity, hown, hsent⟩
      exact .provisioned hmode hown hsent
    | perRequest => exact .perRequest hmode

theorem ownCapacity_perRequest_iff :
    t.OwnCapacity given (others.entries.overlay (t.identity .perRequest)) ↔
      others.find? "ProvisionedThroughput" = none := by
  rw [ownCapacity_iff (find?_billingMode others .perRequest), find?_throughput]

theorem ownCapacity_provisioned_iff :
    t.OwnCapacity given ((others.entries.overlay (t.identity .provisioned)).put
        (.text "ProvisionedThroughput") (.map capacity)) ↔
      (t.capacityOr given).asMap = .ok capacity := by
  have hother : "ProvisionedThroughput" ≠ "BillingMode" := by decide
  rw [ownCapacity_iff ((Entries.find?_put_of_ne hother _ _).trans
    (find?_billingMode others .provisioned))]
  simp [Entries.find?_put_self]

/-- The capacity that is sent is the one that should be, or the default one happens to be that. -/
theorem capacityOr_iff (hc : t.Configured)
    (hsent : (t.sentCapacity billing given).asMap = .ok capacity) :
    (t.capacityOr given).asMap = .ok capacity ↔ given.truthy = true ∨
      billing = .text BillingMode.provisioned.code ∨ t.throughput = defaultThroughput := by
  obtain ⟨read, write, hown⟩ := hc.eq_map
  unfold sentCapacity at hsent
  unfold capacityOr
  cases hgiven : given.truthy with
  | true =>
    rw [hgiven, if_pos rfl] at hsent
    exact iff_of_true hsent (.inl rfl)
  | false =>
    rw [hgiven, if_neg Bool.false_ne_true] at hsent
    by_cases hbilling : billing = .text BillingMode.provisioned.code
    · rw [if_pos (BillingMode.same_provisioned.mpr hbilling)] at hsent
      exact iff_of_true hsent (.inr (.inl hbilling))
    · rw [if_neg fun hsame => hbilling (BillingMode.same_provisioned.mp hsame)] at hsent
      cases hsent
      simp [hbilling, hown, defaultThroughput]

theorem given_of_sentCapacity (hc : t.Configured) {f : Failure}
    (hsent : (t.sentCapacity billing given).asMap = .error f) :
    given.truthy = true ∧ given.asMap = .error f := by
  obtain ⟨read, write, hown⟩ := hc.eq_map
  unfold sentCapacity at hsent
  split at hsent
  next hgiven => exact ⟨hgiven, hsent⟩
  next =>
    split at hsent
    next => rw [hown] at hsent; cases hsent
    next => cases hsent

/-- The request to create a table, or why there is none. -/
theorem creation_cases (hc : t.Configured) (billing given : Value) (others : Params) :
    (∃ f, Refuses billing given f ∧ t.creation billing given others = .error f) ∨
    ∃ mode request, BillingMode.ofValue billing = .ok mode ∧
      t.creation billing given others = .ok request ∧ t.Identifies request ∧
      (t.OwnCapacity given request ↔ match mode with
        | .provisioned => given.truthy = true ∨ billing = .text BillingMode.provisioned.code ∨
            t.throughput = defaultThroughput
        | .perRequest => others.find? "ProvisionedThroughput" = none) := by
  cases hmode : BillingMode.ofValue billing with
  | error f =>
    refine .inl ⟨f, .mode hmode, ?_⟩
    simp only [creation, Schema.createRequest, hmode]
    rfl
  | ok mode =>
    cases mode with
    | perRequest =>
      have hcreation := creation_of_perRequest hc hmode given others
      cases hgiven : given.truthy with
      | true => exact .inl ⟨_, .notAllowed hmode hgiven, by rw [hcreation, hgiven]; rfl⟩
      | false =>
        rw [hgiven] at hcreation
        exact .inr ⟨_, _, rfl, hcreation, identifies_overlay others _, ownCapacity_perRequest_iff⟩
    | provisioned =>
      rw [creation_of_provisioned hc hmode]
      cases hsent : (t.sentCapacity billing given).asMap with
      | error f =>
        obtain ⟨hgiven, herror⟩ := given_of_sentCapacity hc hsent
        exact .inl ⟨f, .capacity hmode hgiven herror, rfl⟩
      | ok capacity =>
        exact .inr ⟨_, _, rfl, rfl, (identifies_overlay others _).put _,
          ownCapacity_provisioned_iff.trans (capacityOr_iff hc hsent)⟩

/-- A check that has to create the table does so with its own capacity. -/
theorem create_own (hc : t.Configured) (c : Client) : ∃ request,
    (t.create c).2.calls = c.calls ++ [("create_table", request)] ∧ t.Identifies request ∧
      t.OwnCapacity .null request := by
  have hmode := BillingMode.ofValue_provisioned
  obtain ⟨read, write, hown⟩ := hc.eq_map
  have hsent : (t.sentCapacity (.text BillingMode.provisioned.code) .null).asMap =
      .ok [(.text "ReadCapacityUnits", read), (.text "WriteCapacityUnits", write)] := by
    rw [sentCapacity, if_pos (BillingMode.same_provisioned.mpr rfl), hown]
    rfl
  have hcreation := creation_of_provisioned hc hmode .null []
  rw [hsent] at hcreation
  refine ⟨_, ?_, (identifies_overlay [] .provisioned).put _,
    ownCapacity_provisioned_iff.mpr ((capacityOr_iff hc hsent).mpr (.inr (.inl rfl)))⟩
  rw [create, hcreation]
  exact c.answer_calls "create_table" _

end Table

namespace Handle

open Table

theorem run_createTable (h : Handle) (billing given : Value) (others : Params) :
    (createTable billing given others).run.run h =
      match h.table.creation billing given others with
      | .error f => (.error f, h)
      | .ok request => (call "create_table" request).run.run h := by
  have hget : getTable.run.run h = (.ok h.table, h) := rfl
  unfold createTable
  rw [Session.run_bind_ok hget]
  cases hrequest : h.table.creation billing given others with
  | error f => exact Session.run_bind_error rfl
  | ok request => exact Session.run_bind_ok rfl

theorem calls_createTable {h : Handle} {billing given : Value} {others : Params} {request : Entries}
    (hrequest : h.table.creation billing given others = .ok request) :
    ((createTable billing given others).run.run h).2.calls =
      h.calls ++ [("create_table", request)] := by
  rw [run_createTable, hrequest]
  show ((call "create_table" request).run.run h).2.calls = _
  rw [run_call]
  exact h.scene.environ.answer_calls "create_table" request

/-- **A table is not created for a reason that is told, with no call, or it takes one call. The
request names the table and declares its key. It has the capacity that it should have if and only
if the caller gives one, the mode is written as expected or the table has the default capacity;
and for a mode that is paid by request, if and only if no capacity is passed on.** -/
theorem createTable_ownCapacity_iff {h : Handle} (hc : h.table.Configured) (billing given : Value)
    (others : Params) :
    (∃ f, Refuses billing given f ∧ (createTable billing given others).run.run h = (.error f, h)) ∨
    ∃ mode request, BillingMode.ofValue billing = .ok mode ∧
      ((createTable billing given others).run.run h).2.calls =
        h.calls ++ [("create_table", request)] ∧
      h.table.Identifies request ∧
      (h.table.OwnCapacity given request ↔ match mode with
        | .provisioned => given.truthy = true ∨ billing = .text BillingMode.provisioned.code ∨
            h.table.throughput = defaultThroughput
        | .perRequest => others.find? "ProvisionedThroughput" = none) := by
  rcases creation_cases hc billing given others with
    ⟨f, hrefuses, hcreation⟩ | ⟨mode, request, hmode, hcreation, hidentifies, hown⟩
  · exact .inl ⟨f, hrefuses, by rw [run_createTable, hcreation]⟩
  · exact .inr ⟨mode, request, hmode, calls_createTable hcreation, hidentifies, hown⟩

theorem configured_of_make {schema : Schema} {options : TableOptions} {client : Client} {h : Handle}
    (hmake : make schema options client = .ok h) : h.table.Configured := by
  obtain ⟨name, hname, heq⟩ := make_eq schema options client
  obtain ⟨name, hok, h₁⟩ := bind_eq_ok.mp (heq.symm.trans hmake)
  obtain ⟨own, hown, h₁⟩ := bind_eq_ok.mp h₁
  obtain ⟨gate, -, h₁⟩ := bind_eq_ok.mp h₁
  cases h₁
  exact ⟨hname name hok, _, _, hown⟩

theorem configured_openTable {schema : Schema} {options : TableOptions} {client : Client}
    {h : Handle} (hopen : openTable schema options client = .ok h) : h.table.Configured := by
  obtain ⟨h₀, hmake, hopen⟩ := bind_eq_ok.mp hopen
  split at hopen
  · cases hopen
    show ((gateAction _).run.run h₀).2.table.Configured
    rw [table_gateAction]
    exact configured_of_make hmake
  · cases hopen
    exact configured_of_make hmake

/-- A table of notes with little capacity. -/
def noteFields : OrderedMap Spelling Definition :=
  [("id", { fieldName := "id", storedName := "id", type := "S" })]

def noteOptions : TableOptions where
  tableName := .text "notes"
  readCapacity := .int 7
  writeCapacity := .int 3
  pollInterval := .int 1

theorem openTable_notes : ∃ s h, Schema.define [("id", "HASH")] noteFields = .ok s ∧
    openTable s noteOptions {} = .ok h ∧ h.calls = [] ∧
      h.table.throughput = .map [(.text "ReadCapacityUnits", .int 7),
        (.text "WriteCapacityUnits", .int 3)] := by
  have hrun : (Schema.define [("id", "HASH")] noteFields >>= fun s =>
      openTable s noteOptions {} >>= fun h => .ok (h.calls.map Prod.fst, h.table.throughput)) =
        (.ok ([], .map [(.text "ReadCapacityUnits", .int 7),
          (.text "WriteCapacityUnits", .int 3)]) : Outcome (List String × Value)) := by
    with_unfolding_all rfl
  obtain ⟨s, hs, hrun⟩ := bind_eq_ok.mp hrun
  obtain ⟨h, hopen, hrun⟩ := bind_eq_ok.mp hrun
  obtain ⟨hcalls, hown⟩ := Prod.ext_iff.mp (Except.ok.inj hrun)
  exact ⟨s, h, hs, hopen, List.map_eq_nil_iff.mp hcalls, hown⟩

theorem createTable_ownCapacity_notes : ∃ s h request,
    Schema.define [("id", "HASH")] noteFields = .ok s ∧ openTable s noteOptions {} = .ok h ∧
      h.table.Configured ∧
      ((createTable (.text BillingMode.provisioned.code) .null []).run.run h).2.calls =
        [("create_table", request)] ∧
      h.table.Identifies request ∧ h.table.OwnCapacity .null request := by
  obtain ⟨s, h, hs, hopen, hnone, -⟩ := openTable_notes
  have hc := configured_openTable hopen
  rcases createTable_ownCapacity_iff hc (.text BillingMode.provisioned.code) .null [] with
    ⟨f, hrefuses, -⟩ | ⟨mode, request, hmode, hcalls, hidentifies, hown⟩
  · cases hrefuses with
    | mode hmode => exact nomatch BillingMode.ofValue_provisioned.symm.trans hmode
    | capacity _ hgiven | notAllowed _ hgiven => cases hgiven
  · obtain rfl := Except.ok.inj (BillingMode.ofValue_provisioned.symm.trans hmode)
    rw [hnone] at hcalls
    exact ⟨s, h, request, hs, hopen, hc, hcalls, hidentifies, hown.mpr (.inr (.inl rfl))⟩

/-- So a table does not always get its own capacity: not if there are blanks around the mode. -/
theorem exists_default_capacity :
    ¬ ∀ (h : Handle), h.table.Configured → ∀ (billing given : Value) (others : Params),
      (∃ f, (createTable billing given others).run.run h = (.error f, h)) ∨
      ∃ request, ((createTable billing given others).run.run h).2.calls =
        h.calls ++ [("create_table", request)] ∧ h.table.OwnCapacity given request := by
  intro hall
  obtain ⟨s, h, -, hopen, hnone, hown⟩ := openTable_notes
  have hc := configured_openTable hopen
  have hmode : BillingMode.ofValue (.text " PROVISIONED ") = .ok .provisioned := by rfl
  have hsent : h.table.sentCapacity (.text " PROVISIONED ") .null = defaultThroughput := by
    with_unfolding_all rfl
  have hcreation := creation_of_provisioned hc hmode .null []
  rw [hsent] at hcreation
  have hcalls := calls_createTable hcreation
  rcases hall h hc (.text " PROVISIONED ") .null [] with ⟨f, herror⟩ | ⟨request, hrequest, hright⟩
  · rw [herror, hnone] at hcalls
    cases hcalls
  · rw [hcalls] at hrequest
    obtain rfl := congrArg Prod.snd (List.singleton_inj.mp (List.append_cancel_left hrequest))
    have hdefault := ownCapacity_provisioned_iff.mp hright
    have hcapacity : h.table.capacityOr .null = h.table.throughput := rfl
    rw [hcapacity, hown] at hdefault
    cases hdefault

end Handle

end DocTable
