import DocTable.Proofs.Schema.Keys
import DocTable.Proofs.Schema.Writing
import DocTable.Proofs.Table.Scripts

/-! Keys in requests. A key that is sent consists of the attributes that the schema declares for the
key, each of its declared type; an item that is put has them among its attributes. This holds of all
requests that are sent with a table, since every one of them is built from a key or an item that was
checked. -/

namespace DocTable

open Outcome

/-! ## Key attributes -/

namespace Definition

variable {d : Definition} {v : Value} {a : Attr}

/-- A field that can be a key writes values of its declared type. -/
theorem code_of_encode (hd : d.canBeKey = true) (h : d.encode v = .ok a) : a.tag.code = d.type := by
  have hjson : d.json = false := by
    unfold canBeKey at hd
    simpa using (Bool.and_eq_true_iff.mp hd).1
  rw [code_of_tag? (tag_of_encode h), heldType, hjson]
  rfl

end Definition

namespace Schema

variable {s : Schema} {record : Value} {item : Item}

/-- Whether the attributes of an item are those that are declared for the key, of the declared
types. -/
def ExactKey (s : Schema) (item : Item) : Prop :=
  (item.map fun r => (r.1, r.2.tag.code)).Perm s.attributeDefinitions

/-- Whether an item has the attributes that are declared for the key, of the declared types. -/
def HasKey (s : Schema) (item : Item) : Prop :=
  ∀ r ∈ s.attributeDefinitions, ∃ a, item.find? r.1 = some a ∧ a.tag.code = r.2

/-- The declared attributes are those of the layout of the key. -/
theorem names_attributeDefinitions (s : Schema) :
    s.attributeDefinitions.map (·.1) = s.keySchema.map (·.1) := by
  simp [attributeDefinitions, keySchema]

theorem nodup_keys_of_encode (h : s.encode record = .ok item) : item.keys.Nodup := by
  obtain ⟨values, -, hitem⟩ := exists_of_encode h
  have hkeys : item.keys = (s.written values).keys := by
    clear h
    generalize s.written values = written at hitem
    induction hitem with
    | nil => rfl
    | cons hr _ ih => exact congrArg₂ _ hr.1.symm ih
  exact hkeys ▸ OrderedMap.nodup_keys_ofList _

/-- An attribute under the name of a key field was written by this field, so it has its type. -/
theorem Built.code_of_mem (hs : s.Built) (h : s.encode record = .ok item) {r : Spelling × Attr}
    (hr : r ∈ item) {k : KeyRole × Definition} (hk : k ∈ s.keyFields)
    (hname : k.2.storedName = r.1) : r.2.tag.code = k.2.type := by
  obtain ⟨values, -, hitem⟩ := exists_of_encode h
  obtain ⟨w, hw, hkey, hencode⟩ := exists_of_mem_forall₂ hitem hr
  obtain ⟨name, -, -, hfind, hstored⟩ := exists_of_mem_written hw
  obtain ⟨name', hfind'⟩ := hs.exists_find? hk
  have heq := hs.sound.eq_of_storedName (OrderedMap.mem_of_find? hfind)
    (OrderedMap.mem_of_find? hfind') (hstored.trans (hkey.trans hname.symm))
  have hd : w.2.1 = k.2 := (Prod.mk.inj heq).2
  exact Definition.code_of_encode (hs.typed.keys k hk) (hd ▸ hencode)

end Schema

/-! ## Requests -/

namespace Table

variable {t : Table} {record key expected updates keys : Value} {item : Item} {params : Params}
  {request : Entries}

theorem encode_of_itemOf (h : t.itemOf record = .ok item) : t.schema.encode record = .ok item ∧
    ∀ k ∈ t.schema.keyFields, item.has k.2.storedName = true := by
  obtain ⟨item', hencode, h⟩ := bind_eq_ok.mp h
  obtain ⟨_, hkeys, h⟩ := bind_eq_ok.mp h
  obtain rfl := Except.ok.inj h
  exact ⟨hencode, fun k hk => check_eq_ok.mp (forM_eq_ok.mp hkeys k hk)⟩

theorem hasKey_of_itemOf (hs : t.schema.Built) (h : t.itemOf record = .ok item) :
    t.schema.HasKey item := by
  obtain ⟨hencode, hhas⟩ := encode_of_itemOf h
  intro r hr
  obtain ⟨k, hk, rfl⟩ := List.mem_map.mp hr
  obtain ⟨a, ha⟩ := Option.isSome_iff_exists.mp (hhas k hk)
  exact ⟨a, ha, hs.code_of_mem hencode (OrderedMap.mem_of_find? ha) hk rfl⟩

/-- A key that is accepted has the attributes of the key and no others. -/
theorem exactKey_of_keyOf (hs : t.schema.Built) (h : t.keyOf record = .ok item) :
    t.schema.ExactKey item := by
  obtain ⟨item', hitem, h⟩ := bind_eq_ok.mp (of_not_refused h)
  obtain ⟨hextra, rfl⟩ : t.extraAttributes item' = [] ∧ item' = item := by
    split at h
    next hextra => exact ⟨hextra, Except.ok.inj h⟩
    next => cases h
  obtain ⟨hencode, hhas⟩ := encode_of_itemOf hitem
  have hkey : ∀ r ∈ item', ∃ k ∈ t.schema.keyFields, k.2.storedName = r.1 := by
    intro r hr
    have hnone : r.1 ∉ item'.keys.filter fun name =>
        !t.schema.keyFields.any fun k => k.2.storedName = name := fun hmem =>
      absurd (List.mem_mergeSort.mpr hmem) (hextra ▸ List.not_mem_nil)
    simpa [List.mem_filter, OrderedMap.keys, List.mem_map_of_mem hr] using hnone
  have hnodup := Schema.nodup_keys_of_encode hencode
  refine (List.perm_ext_iff_of_nodup ?_ ?_).mpr fun p => ⟨fun hp => ?_, fun hp => ?_⟩
  · exact .of_map Prod.fst (by rw [List.map_map]; exact hnodup)
  · exact .of_map Prod.fst (by rw [Schema.attributeDefinitions, List.map_map]
                               exact hs.nodup_keyFields)
  · obtain ⟨r, hr, rfl⟩ := List.mem_map.mp hp
    obtain ⟨k, hk, hname⟩ := hkey r hr
    exact List.mem_map.mpr ⟨k, hk, Prod.ext hname (hs.code_of_mem hencode hr hk hname).symm⟩
  · obtain ⟨k, hk, rfl⟩ := List.mem_map.mp hp
    obtain ⟨a, ha⟩ := Option.isSome_iff_exists.mp (hhas k hk)
    have hr := OrderedMap.mem_of_find? ha
    exact List.mem_map.mpr ⟨_, hr, Prod.ext rfl (hs.code_of_mem hencode hr hk rfl)⟩

theorem find?_consistent {name : String} (hname : name ≠ "ConsistentRead") (wanted : Bool) :
    (consistent request wanted).find? (.text name) = request.find? (.text name) := by
  unfold consistent
  split
  · exact Entries.find?_put_of_ne hname.symm _ _
  · rfl

theorem find?_withExpected {name : String} (hname : name ≠ "Expected") {request' : Entries}
    (h : t.withExpected request expected = .ok request') :
    request'.find? (.text name) = request.find? (.text name) := by
  unfold withExpected at h
  split at h
  · exact Except.ok.inj h ▸ rfl
  · split at h
    · cases h
    · obtain ⟨conditions, -, h⟩ := bind_eq_ok.mp h
      exact Except.ok.inj h ▸ Entries.find?_put_of_ne hname.symm _ _

end Table

/-- What the keys in a request are. Operations on one item name it by its key, or put it whole;
a batch gives a list of keys. -/
structure Schema.ExactKeys (s : Schema) (call : String × Entries) : Prop where
  key : call.1 ∈ ["get_item", "update_item", "delete_item"] →
    ∃ item : Item, call.2.find? (.text "Key") = some item.toValue ∧ s.ExactKey item
  item : call.1 = "put_item" →
    ∃ item : Item, call.2.find? (.text "Item") = some item.toValue ∧ s.HasKey item
  keys : call.1 = "batch_get_item" → ∃ (name : Spelling) (wanted : Entries) (items : List Item),
    call.2.find? (.text "RequestItems") = some (.map [(.text name, .map wanted)]) ∧
      wanted.find? (.text "Keys") = some (.list (items.map Item.toValue)) ∧
      ∀ item ∈ items, s.ExactKey item

namespace Table

variable {t : Table} {record key expected updates keys : Value} {item : Item} {params : Params}
  {request : Entries}

theorem exactKeys_getRequest (hs : t.schema.Built) (h : t.getRequest key params = .ok request) :
    t.schema.ExactKeys ("get_item", request) := by
  obtain ⟨item, hitem, h⟩ := bind_eq_ok.mp h
  obtain rfl := Except.ok.inj h
  refine ⟨fun _ => ⟨item, ?_, exactKey_of_keyOf hs hitem⟩, by simp, by simp⟩
  rw [find?_consistent (by decide)]
  exact Entries.find?_put_self _ _ _

theorem exactKeys_putRequest (hs : t.schema.Built)
    (h : t.putRequest record expected params = .ok request) :
    t.schema.ExactKeys ("put_item", request) := by
  obtain ⟨item, hitem, h⟩ := bind_eq_ok.mp (of_not_refused h)
  refine ⟨by simp, fun _ => ⟨item, ?_, hasKey_of_itemOf hs hitem⟩, by simp⟩
  rw [find?_withExpected (by decide) h]
  exact Entries.find?_put_self _ _ _

theorem exactKeys_deleteRequest (hs : t.schema.Built)
    (h : t.deleteRequest key expected params = .ok request) :
    t.schema.ExactKeys ("delete_item", request) := by
  obtain ⟨item, hitem, h⟩ := bind_eq_ok.mp h
  refine ⟨fun _ => ⟨item, ?_, exactKey_of_keyOf hs hitem⟩, by simp, by simp⟩
  rw [find?_withExpected (by decide) h]
  exact Entries.find?_put_self _ _ _

theorem exactKeys_updateItemRequest (hs : t.schema.Built)
    (h : t.updateItemRequest key updates expected params = .ok request) :
    t.schema.ExactKeys ("update_item", request) := by
  obtain ⟨item, hitem, h⟩ := bind_eq_ok.mp (of_not_refused h)
  obtain ⟨out, -, h⟩ := bind_eq_ok.mp h
  refine ⟨fun _ => ⟨item, ?_, exactKey_of_keyOf hs hitem⟩, by simp, by simp⟩
  rw [find?_withExpected (by decide) h]
  exact (Entries.find?_put_of_ne (by decide) _ _).trans (Entries.find?_put_self _ _ _)

theorem exactKeys_batchRequest (hs : t.schema.Built) {consistentRead : Value}
    (h : t.batchRequest keys consistentRead params = .ok request) :
    t.schema.ExactKeys ("batch_get_item", request) := by
  obtain ⟨values, -, h⟩ := bind_eq_ok.mp h
  obtain ⟨items, hitems, h⟩ := bind_eq_ok.mp h
  obtain rfl := Except.ok.inj h
  refine ⟨by simp, by simp, fun _ => ⟨t.name, _, items, Entries.find?_put_self _ _ _, ?_, ?_⟩⟩
  · rw [find?_consistent (by decide)]
    exact Entries.find?_put_self [] "Keys" _
  · intro item hitem
    obtain ⟨v, -, hkey⟩ := exists_of_mem_forall₂ (mapM_eq_ok.mp hitems) hitem
    exact exactKey_of_keyOf hs hkey

end Table

/-! ## Sessions -/

open Session

/-- Whether a handle has become another by calls, none of them with other keys than those of the
schema of its table. -/
structure Schema.Sends (s : Schema) (h h' : Handle) : Prop where
  schema : h'.table.schema = s
  calls : ∃ made, h'.calls = h.calls ++ made ∧ ∀ call ∈ made, s.ExactKeys call

theorem Schema.Sends.refl {s : Schema} {h : Handle} (hs : h.table.schema = s) : s.Sends h h :=
  ⟨hs, [], (List.append_nil _).symm, fun _ hcall => nomatch hcall⟩

theorem Schema.Sends.trans {s : Schema} {h h' h'' : Handle} (hfirst : s.Sends h h')
    (hnext : s.Sends h' h'') : s.Sends h h'' := by
  obtain ⟨made, hcalls, hmade⟩ := hfirst.calls
  obtain ⟨made', hcalls', hmade'⟩ := hnext.calls
  refine ⟨hnext.schema, made ++ made', ?_, List.forall_mem_append.mpr ⟨hmade, hmade'⟩⟩
  rw [hcalls', hcalls, List.append_assoc]

/-- Sessions that send no other keys on handles of tables with a schema. -/
def Session.SendsKeys (s : Schema) {α : Type} (x : Session α) : Prop :=
  ∀ h : Handle, h.table.schema = s → s.Sends h (x.run.run h).2

namespace Session.SendsKeys

variable {s : Schema} {α β : Type} {x : Session α} {f : α → Session β}

theorem of_quiet (hx : Quiet x) : SendsKeys s x := by
  intro h ht
  rw [hx h]
  exact .refl ht

theorem lift (o : Outcome α) : SendsKeys s (Handle.lift o) :=
  of_quiet (quiet_lift o)

theorem getTable : SendsKeys s Handle.getTable :=
  of_quiet quiet_getTable

theorem bind (hx : SendsKeys s x) (hf : ∀ a, SendsKeys s (f a)) : SendsKeys s (x >>= f) := by
  intro h ht
  have hx := hx h ht
  rcases hr : x.run.run h with ⟨r | r, h'⟩ <;> rw [hr] at hx
  · rw [run_bind_error hr]
    exact hx
  · rw [run_bind_ok hr]
    exact hx.trans (hf r h' hx.schema)

/-- Operations that are not on items have no keys. -/
theorem exactKeys_of_ne {call : String × Entries}
    (hname : call.1 ∉ ["get_item", "update_item", "delete_item", "put_item", "batch_get_item"]) :
    s.ExactKeys call := by
  simp only [List.mem_cons, List.not_mem_nil, or_false, not_or] at hname
  refine ⟨fun h => ?_, fun h => ?_, fun h => ?_⟩ <;> simp_all

theorem gateAction (action : Action) : SendsKeys s (Handle.gateAction action) := by
  intro h ht
  obtain ⟨made, hcalls, hchecks⟩ := (Handle.checked_gateAction action h).calls
  refine ⟨by rw [Handle.table_gateAction, ht], made, hcalls, fun call hcall => ?_⟩
  refine exactKeys_of_ne ?_
  rcases hchecks call hcall with hname | hname <;> simp [hname]

theorem call {operation : String} {request : Entries} (hcall : s.ExactKeys (operation, request)) :
    SendsKeys s (Handle.call operation request) := by
  intro h ht
  rw [Handle.run_call]
  refine ⟨ht, [(operation, request)], h.scene.environ.answer_calls operation request, ?_⟩
  exact List.forall_mem_singleton.mpr hcall

theorem passAndCall {operation : String} {build : Table → Outcome Entries}
    (hbuild : ∀ t request, t.schema = s → build t = .ok request →
      s.ExactKeys (operation, request)) : SendsKeys s (Handle.passAndCall operation build) := by
  intro h ht
  cases hrequest : build h.table with
  | error e =>
    rw [Handle.passAndCall_rejected hrequest]
    exact .refl ht
  | ok request =>
    have hdispatches : Dispatches h.table (operation, request)
        (Handle.passAndCall operation build) := .passAndCall hrequest
    obtain ⟨k, hk, hrun⟩ := hdispatches
    rw [hrun h rfl]
    exact (gateAction _).bind (fun _ => (call (hbuild _ _ ht hrequest)).bind fun v =>
      of_quiet (hk v)) h ht

theorem recordIn (name : String) (response : Value) : SendsKeys s (Handle.recordIn name response) :=
  of_quiet (quiet_recordIn name response)

theorem batchGetItems (hs : s.Built) (keys consistentRead : Value) (params : Params) :
    SendsKeys s (Handle.batchGetItems keys consistentRead params) := by
  unfold Handle.batchGetItems
  split
  · exact lift (.error _)
  · split
    · exact (passAndCall fun t _ ht => ht ▸ Table.exactKeys_batchRequest (ht ▸ hs)).bind fun _ =>
        getTable.bind fun _ => lift _
    · exact lift (.ok _)

/-- No operation of a table sends other keys. -/
theorem invoke (hs : s.Built) (name : String) (values : List Value) (params : Params) :
    SendsKeys s (Handle.invoke name values params) := by
  unfold Handle.invoke
  split
  case h_1 =>
    exact (lift _).bind fun _ => (passAndCall fun t _ ht =>
      ht ▸ Table.exactKeys_getRequest (ht ▸ hs)).bind fun _ => recordIn _ _
  case h_2 =>
    exact (lift _).bind fun _ => (passAndCall fun t _ ht =>
      ht ▸ Table.exactKeys_putRequest (ht ▸ hs)).bind fun _ => recordIn _ _
  case h_3 =>
    exact (lift _).bind fun _ => (passAndCall fun t _ ht =>
      ht ▸ Table.exactKeys_updateItemRequest (ht ▸ hs)).bind fun _ => recordIn _ _
  case h_4 =>
    exact (lift _).bind fun _ => (passAndCall fun t _ ht =>
      ht ▸ Table.exactKeys_deleteRequest (ht ▸ hs)).bind fun _ => recordIn _ _
  case h_5 => exact (lift _).bind fun _ => batchGetItems hs _ _ _
  case h_6 | h_7 =>
    exact (lift _).bind fun _ => getTable.bind fun _ => call (exactKeys_of_ne (by simp))
  case h_8 | h_9 =>
    exact (lift _).bind fun _ => getTable.bind fun _ => (lift _).bind fun _ =>
      call (exactKeys_of_ne (by simp))
  case h_10 => exact (lift _).bind fun _ => gateAction _
  case h_11 => exact lift (.error _)

theorem invokeEnsureReady (callback : Option String) (values : List Value) (params : Params) :
    SendsKeys s (Handle.invokeEnsureReady callback values params) :=
  (lift _).bind fun _ => gateAction _

theorem fetch (c : Cursor) (start : Option Entries) : SendsKeys s (c.fetch start) := by
  refine (gateAction _).bind fun _ => (lift _).bind fun _ => (call ?_).bind fun _ =>
    getTable.bind fun _ => lift _
  exact exactKeys_of_ne (by cases c.mode <;> simp [CursorMode.operation])

theorem fetchNext (c : Cursor) : SendsKeys s c.fetchNext := by
  unfold Cursor.fetchNext
  split
  · exact fetch c _
  · exact lift (.error _)

theorem setConsistentRead (wanted : Bool) : SendsKeys s (Handle.setConsistentRead wanted) :=
  fun _ ht => ⟨ht, [], (List.append_nil _).symm, fun _ hcall => nomatch hcall⟩

end Session.SendsKeys

/-- A stream reads page by page; the induction is on the pages that are left. -/
theorem Cursor.sends_streamPages {s : Schema} (fuel wanted : Nat) (first : Bool) (c : Cursor)
    {h : Handle} (hs : h.table.schema = s) :
    s.Sends h (streamPages fuel wanted first c h).2 := by
  induction fuel generalizing wanted first c h with
  | zero => exact .refl hs
  | succ fuel ih =>
    have hfetch : SendsKeys s (if first = true then c.execute else c.fetchNext) := by
      split
      · exact .fetch c none
      · exact .fetchNext c
    have hpage := hfetch h hs
    rw [streamPages]
    split
    · exact .refl hs
    · split
      next hr =>
        rw [hr] at hpage
        exact hpage
      next hr =>
        rw [hr] at hpage
        exact hpage
      next hr =>
        rw [hr] at hpage
        dsimp only
        split
        · exact hpage.trans (ih _ _ _ hpage.schema)
        · exact hpage

namespace Handle

/-- What an application can do with a table: call its methods, read and stream with cursors, wait
for it to be ready and set whether it reads consistently. -/
inductive Use where
  | invoke (name : String) (values : List Value) (params : Params)
  | ensureReady (callback : Option String) (values : List Value) (params : Params)
  | execute (c : Cursor)
  | fetchNext (c : Cursor)
  | stream (c : Cursor) (wanted : Nat)
  | setConsistentRead (wanted : Bool)

/-- A handle after a use of its table. -/
def Use.after (h : Handle) : Use → Handle
  | invoke name values params => ((Handle.invoke name values params).run.run h).2
  | ensureReady callback values params =>
    ((Handle.invokeEnsureReady callback values params).run.run h).2
  | execute c => (c.execute.run.run h).2
  | fetchNext c => (c.fetchNext.run.run h).2
  | stream c wanted => (c.stream wanted h).2
  | setConsistentRead wanted => ((Handle.setConsistentRead wanted).run.run h).2

theorem Use.sends {s : Schema} (hs : s.Built) (use : Use) {h : Handle}
    (ht : h.table.schema = s) : s.Sends h (use.after h) := by
  cases use with
  | invoke name values params => exact SendsKeys.invoke hs name values params h ht
  | ensureReady callback values params => exact SendsKeys.invokeEnsureReady _ values params h ht
  | execute c => exact SendsKeys.fetch c none h ht
  | fetchNext c => exact SendsKeys.fetchNext c h ht
  | stream c wanted => exact c.sends_streamPages _ wanted true ht
  | setConsistentRead wanted => exact SendsKeys.setConsistentRead wanted h ht

theorem sends_uses {s : Schema} (hs : s.Built) (uses : List Use) {h : Handle}
    (ht : h.table.schema = s) : s.Sends h (uses.foldl Use.after h) := by
  induction uses generalizing h with
  | nil => exact .refl ht
  | cons use uses ih =>
    have hfirst := use.sends hs ht
    exact hfirst.trans (ih hfirst.schema)

theorem schema_of_make {s : Schema} {options : TableOptions} {client : Client} {h : Handle}
    (hmake : make s options client = .ok h) : h.table.schema = s := by
  obtain ⟨name, -, heq⟩ := make_eq s options client
  obtain ⟨name, -, h₁⟩ := bind_eq_ok.mp (heq.symm.trans hmake)
  obtain ⟨throughput, -, h₁⟩ := bind_eq_ok.mp h₁
  obtain ⟨gate, -, h₁⟩ := bind_eq_ok.mp h₁
  cases h₁
  rfl

/-- Opening a table makes no calls but those of a check. -/
theorem sends_openTable {s : Schema} {options : TableOptions} {client : Client} {h : Handle}
    (hopen : openTable s options client = .ok h) : h.table.schema = s ∧
      ∃ made, h.calls = client.calls ++ made ∧ ∀ call ∈ made, s.ExactKeys call := by
  obtain ⟨h₀, hmake, hopen⟩ := bind_eq_ok.mp hopen
  have hclient : h₀.calls = client.calls := congrArg Client.calls (make_rests hmake).2
  have hsends : s.Sends h₀ h := by
    split at hopen
    · exact Except.ok.inj hopen ▸ SendsKeys.gateAction _ h₀ (schema_of_make hmake)
    · exact Except.ok.inj hopen ▸ .refl (schema_of_make hmake)
  exact ⟨hsends.schema, hclient ▸ hsends.calls⟩

end Handle

/-- **Keys in requests are exact.** Whatever schema is built and whatever is done with a table of it
since it was opened: every key that is sent has the declared attributes of the key and no others,
each of its declared type, and every item that is put has them. -/
theorem Schema.Built.sends_exactKeys {s : Schema} (hs : s.Built) {options : TableOptions}
    {client : Client} {h : Handle} (hopen : Handle.openTable s options client = .ok h)
    (uses : List Handle.Use) :
    ∃ made, (uses.foldl Handle.Use.after h).calls = client.calls ++ made ∧
      ∀ call ∈ made, s.ExactKeys call := by
  obtain ⟨ht, made, hcalls, hmade⟩ := Handle.sends_openTable hopen
  obtain ⟨made', hcalls', hmade'⟩ := (Handle.sends_uses hs uses ht).calls
  refine ⟨made ++ made', ?_, List.forall_mem_append.mpr ⟨hmade, hmade'⟩⟩
  rw [hcalls', hcalls, List.append_assoc]

/-- Orders, by customer and number. -/
def orderFields : OrderedMap Spelling Definition :=
  [("customer", { fieldName := "customer", storedName := "c", type := "S" }),
    ("number", { fieldName := "number", storedName := "n", type := "N" }),
    ("open", { fieldName := "open", storedName := "o", type := "BOOL" })]

def orderOptions : TableOptions where
  tableName := .text "orders"
  pollInterval := .int 1

def orderClient : Client where
  script := [Client.activeTable (.text "orders"), { operation := "get_item" },
    { operation := "put_item" }]

def orderUses : List Handle.Use :=
  [.invoke "get_item" [.map [(.text "number", .int 7), (.text "customer", .text "ada")]] [],
    .invoke "put_item" [.map [(.text "open", .bool true), (.text "number", .int 8),
      (.text "customer", .text "ada")]] []]

theorem sends_exactKeys_orders : ∃ s h made,
    Schema.define [("number", "RANGE"), ("customer", "HASH")] orderFields = .ok s ∧ s.Built ∧
      Handle.openTable s orderOptions orderClient = .ok h ∧
      (orderUses.foldl Handle.Use.after h).calls = orderClient.calls ++ made ∧
      made.map (·.1) = ["describe_table", "get_item", "put_item"] ∧
      ∀ call ∈ made, s.ExactKeys call := by
  have hrun : (Schema.define [("number", "RANGE"), ("customer", "HASH")] orderFields >>= fun s =>
      Handle.openTable s orderOptions orderClient >>= fun h =>
        .ok ((orderUses.foldl Handle.Use.after h).calls.map Prod.fst)) =
      (.ok ["describe_table", "get_item", "put_item"] : Outcome (List String)) := by
    with_unfolding_all rfl
  obtain ⟨s, hs, hrun⟩ := bind_eq_ok.mp hrun
  obtain ⟨h, hopen, hrun⟩ := bind_eq_ok.mp hrun
  have hbuilt : s.Built := .defined (by decide) hs
  obtain ⟨made, hmade, hexact⟩ := hbuilt.sends_exactKeys hopen orderUses
  rw [hmade] at hrun
  exact ⟨s, h, made, hs, hbuilt, hopen, hmade, Except.ok.inj hrun, hexact⟩

end DocTable
