import DocTable.Proofs.Field.Refusals
import DocTable.Proofs.Schema.Keys
import DocTable.Proofs.Table.Scripts
import DocTable.Proofs.Update.Translation

/-! Updates and the key. An update is refused if it names a key field. Fields are named as the
schema has them, but the key fields are known by the names that they give themselves; so the key is
left alone, and nothing else is, exactly if these are the same names. -/

namespace DocTable

open Outcome

namespace Change

variable {fields : Fields} {keyFields : List Spelling} {d : Definition} {c : Change}
  {changes : List Change} {entries : List (Value × Value)} {done : StoredUpdates}

/-! ## Refusals -/

/-- Whether the converter of the field of a change refuses its operand with some failure. -/
def ConverterRefuses (fields : Fields) (f : Failure) (c : Change) : Prop :=
  c.operand ≠ .null ∧ ∃ d conv, c.target? fields = some d ∧ d.converter = some conv ∧
    conv.store c.operand = .error f

theorem exists_field_of_target? (h : c.target? fields = some d) :
    ∃ name, c.field = .text name ∧ fields.find? name = some d :=
  Condition.lookup_eq_ok.mp (target?_eq_some.mp h)

/-- How a change comes to be refused for being to a field that is known as one of the key. -/
def KeyRefused (fields : Fields) (keyFields : List Spelling) (f : Failure) (c : Change) : Prop :=
  ∃ name d, c.field = .text name ∧ fields.find? name = some d ∧ name ∈ keyFields ∧
    f = .request (.keyUpdate name.mended)

/-- Whether a failure that blames the request comes from one of some changes: because it is to the
key, or because its converter says so. -/
def Blames (fields : Fields) (keyFields : List Spelling) (changes : List Change) (f : Failure) :
    Prop :=
  (∀ fault, f ≠ .request fault) ∨
    ∃ c ∈ changes, c.KeyRefused fields keyFields f ∨ c.ConverterRefuses fields f

theorem fails_stored (htarget : c.target? fields = some d) :
    Fails (Blames fields keyFields [c]) (stored d c.kind c.operand) := by
  have hencode : Fails (Blames fields keyFields [c]) (d.encode c.operand) :=
    (d.fails_encode c.operand).mono fun f hf => hf.imp id fun ⟨hnull, conv, hconv, hstore⟩ =>
      ⟨c, List.mem_singleton_self c, .inr ⟨hnull, d, conv, htarget, hconv, hstore⟩⟩
  unfold stored
  refine .ite (fails_error.mpr (.inl (by simp))) (.ite ?_ (fails_ok _))
  exact hencode.bind fun _ _ => fails_ok _

theorem fails_apply (fields : Fields) (keyFields : List Spelling) (done : StoredUpdates)
    (c : Change) : Fails (Blames fields keyFields [c]) (apply fields keyFields done c) := by
  have hlookup : Fails (Blames fields keyFields [c]) (fields.lookup c.field) :=
    (Condition.fails_lookup c.field).mono fun f hf => .inl fun fault heq => by
      rcases hf with ⟨name, rfl⟩ | ⟨-, rfl⟩ <;> cases heq
  refine hlookup.bind fun d hlookup => ?_
  have htarget := target?_eq_some.mpr hlookup
  by_cases hkey : names keyFields c.field = true
  · obtain ⟨name, hmem, hfield⟩ := names_iff.mp hkey
    obtain ⟨name', hfield', hfind⟩ := exists_field_of_target? htarget
    obtain rfl := Value.text.inj (hfield.symm.trans hfield')
    have hplain : c.field.plain = name.mended := by rw [hfield, Value.plain_text]
    rw [if_pos hkey, hplain]
    exact fails_error.mpr
      (.inr ⟨c, List.mem_singleton_self c, .inl ⟨name, d, hfield, hfind, hmem, rfl⟩⟩)
  · have hstored : Fails (Blames fields keyFields [c]) (stored d c.kind c.operand) :=
      fails_stored htarget
    rw [if_neg hkey]
    exact Fails.ite (fails_error.mpr (.inl (by simp))) (hstored.bind fun _ _ => fails_ok _)

theorem fails_applyAll (fields : Fields) (keyFields : List Spelling) (done : StoredUpdates)
    (changes : List Change) :
    Fails (Blames fields keyFields changes) (applyAll fields keyFields done changes) := by
  induction changes generalizing done with
  | nil => exact fails_ok _
  | cons c changes ih =>
    refine ((fails_apply fields keyFields done c).mono fun f hf => ?_).bind fun done _ => ?_
    · exact hf.imp id fun ⟨c', hc', h⟩ =>
        ⟨c', List.mem_cons.mpr (.inl (List.mem_singleton.mp hc')), h⟩
    · exact (ih done).mono fun f hf => hf.imp id fun ⟨c', hc', h⟩ =>
        ⟨c', List.mem_cons_of_mem _ hc', h⟩

/-- An update that is refused for being to the key has a change that is, or one whose converter
refuses it so. -/
theorem refused_of_translate {updates : Value} {told : String}
    (h : translate fields keyFields updates = .error (.request (.keyUpdate told))) :
    ∃ entries changes, updates = .map entries ∧ Flattens entries changes ∧
      ∃ c ∈ changes, c.KeyRefused fields keyFields (.request (.keyUpdate told)) ∨
        c.ConverterRefuses fields (.request (.keyUpdate told)) := by
  cases updates with
  | map entries =>
    simp only [translate, bind, Except.bind] at h
    cases hflatten : flatten entries with
    | error f =>
      simp only [hflatten] at h
      rcases fails_flatten entries f hflatten with ⟨fault, rfl⟩ | ⟨rfl, -⟩ <;> cases h
    | ok changes =>
      refine ⟨entries, changes, rfl, flatten_eq_ok.mp hflatten, ?_⟩
      cases hall : applyAll fields keyFields [] changes with
      | error f =>
        simp only [hflatten, hall] at h
        obtain rfl := Except.error.inj h
        exact (fails_applyAll _ _ _ _ _ hall).resolve_left fun hno => hno _ rfl
      | ok done =>
        simp only [hflatten, hall] at h
        split at h <;> cases h
  | _ => cases h

end Change

namespace Schema

variable {s : Schema} {name : Spelling} {d : Definition}

/-- Whether a field with some name is held by an attribute of the key. -/
def KeyField (s : Schema) (name : Spelling) : Prop :=
  ∃ d, s.fields.find? name = some d ∧ ∃ k ∈ s.keyFields, d.storedName = k.2.storedName

/-- Whether the fields that the key is known by are the fields of the key. -/
def Guarded (s : Schema) : Prop :=
  ∀ name d, s.fields.find? name = some d → (name ∈ s.keys.keys ↔ s.KeyField name)

/-- Fields that give themselves the names that the schema has for them are known by these. -/
theorem Built.guarded (hs : s.Built) (hnames : ∀ f ∈ s.fields, f.2.fieldName = f.1) :
    s.Guarded := by
  intro name d hfind
  rw [mem_keys_keys]
  constructor
  · rintro ⟨k, hk, rfl⟩
    obtain ⟨name, hkey⟩ := hs.exists_find? hk
    obtain rfl : k.2.fieldName = name := hnames _ (OrderedMap.mem_of_find? hkey)
    exact ⟨k.2, hkey, k, hk, rfl⟩
  · rintro ⟨d', hfind', k, hk, hstored⟩
    obtain ⟨name', hkey⟩ := hs.exists_find? hk
    have heq := hs.sound.eq_of_storedName (OrderedMap.mem_of_find? hfind')
      (OrderedMap.mem_of_find? hkey) hstored
    obtain ⟨rfl, rfl⟩ := Prod.mk.inj heq
    exact ⟨k, hk, hnames _ (OrderedMap.mem_of_find? hkey)⟩

/-- Whether updates leave the key alone, and are refused for its sake only if they are to it. -/
structure SparesKey (s : Schema) : Prop where
  leaves : ∀ updates out, Change.translate s.fields s.keys.keys updates = .ok out →
    ∀ k ∈ s.keyFields, k.2.storedName ∉ out.keys
  admits : ∀ updates told,
    Change.translate s.fields s.keys.keys updates = .error (.request (.keyUpdate told)) →
      ∃ entries changes, updates = .map entries ∧ Change.Flattens entries changes ∧
        ∃ c ∈ changes,
          (∃ name, c.field = .text name ∧ name.mended = told ∧ s.KeyField name) ∨
            c.ConverterRefuses s.fields (.request (.keyUpdate told))

/-- The update that deletes one field. -/
def deletion (name : Spelling) : List (Value × Value) :=
  [(.text "$unset", .map [(.text name, .null)])]

theorem flattens_deletion (name : Spelling) :
    Change.Flattens (deletion name) [⟨.text name, .delete, .null⟩] := by
  have hkind : ("$unset", .delete) ∈ ChangeKind.tokens := by decide
  have hasks : Change.Asks (.text "$unset", .map [(.text name, .null)])
      [⟨.text name, .delete, .null⟩] := .token hkind (by simp [Value.hasText])
  exact ⟨[[⟨.text name, .delete, .null⟩]], .cons hasks .nil, rfl⟩

theorem translate_deletion_of_key {keyFields : List Spelling} (hfind : s.fields.find? name = some d)
    (hkey : name ∈ keyFields) : Change.translate s.fields keyFields (.map (deletion name)) =
      .error (.request (.keyUpdate name.mended)) := by
  have hflatten := Change.flatten_eq_ok.mpr (flattens_deletion name)
  have hlookup : Fields.lookup s.fields (.text name) = .ok d :=
    Condition.lookup_eq_ok.mpr ⟨name, rfl, hfind⟩
  simp [Change.translate, hflatten, Change.applyAll, Change.apply, hlookup, Change.names, hkey,
    bind, Except.bind, throw, throwThe, MonadExceptOf.throw, Value.plain_text]

theorem exists_translate_deletion {keyFields : List Spelling} (hfind : s.fields.find? name = some d)
    (hkey : name ∉ keyFields) : ∃ out, Change.translate s.fields keyFields (.map (deletion name)) =
      .ok out ∧ d.storedName ∈ out.keys := by
  have hbare : ¬ Change.Carries ⟨.text name, .delete, .null⟩ d := fun h => (h rfl).2 rfl
  have hmade : Change.MadeAs s.fields keyFields ⟨.text name, .delete, .null⟩
      (d.storedName, ⟨.delete, none⟩) := by
    refine ⟨d, ⟨hfind, fun key hmem heq => ?_, by simp, fun h => absurd h hbare⟩, rfl, .bare hbare⟩
    exact hkey (Value.text.inj heq ▸ hmem)
  exact ⟨[(d.storedName, ⟨.delete, none⟩)], Change.translate_eq_ok.mpr
    ⟨_, _, rfl, flattens_deletion name, by simp, .cons hmade .nil, List.pairwise_singleton _ _⟩,
    List.mem_singleton_self _⟩

theorem Guarded.sparesKey (hs : s.Guarded) : s.SparesKey where
  leaves updates out h k hk hmem := by
    obtain ⟨entries, changes, rfl, -, -, hmade, -⟩ := Change.translate_eq_ok.mp h
    obtain ⟨r, hr, hname⟩ := List.mem_map.mp hmem
    obtain ⟨c, -, d, hallowed, hstored, -⟩ := exists_of_mem_forall₂ hmade hr
    obtain ⟨name, hfield, hfind⟩ := Change.exists_field_of_target? hallowed.target
    have hkey : s.KeyField name := ⟨d, hfind, k, hk, hstored.symm.trans hname⟩
    exact hallowed.noKey name ((hs name d hfind).mpr hkey) hfield
  admits updates told h := by
    obtain ⟨entries, changes, rfl, hflattens, c, hc, hrefused⟩ := Change.refused_of_translate h
    refine ⟨entries, changes, rfl, hflattens, c, hc, hrefused.imp_left ?_⟩
    rintro ⟨field, d, hfield, hfind, hmem, hfault⟩
    cases hfault
    exact ⟨field, hfield, rfl, (hs field d hfind).mp hmem⟩

theorem guarded_iff_sparesKey : s.Guarded ↔ s.SparesKey := by
  refine ⟨Guarded.sparesKey, fun hspares name d hfind => ⟨fun hmem => ?_, fun hkey => ?_⟩⟩
  · by_contra hother
    obtain ⟨entries, changes, hentries, hflattens, c, hc, hrefused⟩ :=
      hspares.admits _ _ (translate_deletion_of_key hfind hmem)
    obtain rfl := Value.map.inj hentries
    have hflatten := Change.flatten_eq_ok.mpr (flattens_deletion name)
    obtain rfl := Except.ok.inj (hflatten.symm.trans (Change.flatten_eq_ok.mpr hflattens))
    obtain rfl := List.mem_singleton.mp hc
    rcases hrefused with ⟨name', hname, -, hkey⟩ | hconverter
    · exact hother (Value.text.inj hname ▸ hkey)
    · exact hconverter.1 rfl
  · by_contra hmem
    obtain ⟨out, hout, hdeleted⟩ := exists_translate_deletion hfind hmem
    obtain ⟨d', hfind', k, hk, hstored⟩ := hkey
    obtain rfl := Option.some.inj (hfind.symm.trans hfind')
    exact hspares.leaves _ out hout k hk (hstored ▸ hdeleted)

end Schema

/-! ## Requests -/

open Session

theorem Session.handle_bind_quiet {α β : Type} {x : Session α} {f : α → Session β}
    (hf : ∀ a, Quiet (f a)) (h : Handle) : ((x >>= f).run.run h).2 = (x.run.run h).2 := by
  rcases hx : x.run.run h with ⟨r | r, h'⟩
  · rw [run_bind_error hx]
  · rw [run_bind_ok hx]
    exact hf r h'

namespace Handle

/-- Whatever the state of a handle, an operation makes its call or none, besides those of a
check. -/
theorem calls_passAndCall (operation : String) (build : Table → Outcome Entries) (h : Handle) :
    ∃ made, ((passAndCall operation build).run.run h).2.calls = h.calls ++ made ∧
      ∀ call ∈ made, call.1 = "describe_table" ∨ call.1 = "create_table" ∨
        ∃ request, build h.table = .ok request ∧ call = (operation, request) := by
  cases hbuild : build h.table with
  | error e =>
    rw [passAndCall_rejected hbuild]
    exact ⟨[], (List.append_nil _).symm, fun _ hcall => absurd hcall List.not_mem_nil⟩
  | ok request =>
    obtain ⟨checks, hcalls, hchecks⟩ :=
      (checked_gateAction (.ensureReady none true none none) h).calls
    have hget : getTable.run.run h = (.ok h.table, h) := rfl
    have hlift : (lift (build h.table)).run.run h = (.ok request, h) := by
      rw [hbuild]
      rfl
    have hrun : (passAndCall operation build).run.run h =
        (ensureReady >>= fun _ => call operation request).run.run h :=
      (run_bind_ok hget).trans (run_bind_ok hlift)
    rw [hrun]
    obtain ⟨r, h', hready⟩ : ∃ r h', ensureReady.run.run h = (r, h') := ⟨_, _, rfl⟩
    have hcalls : h'.calls = h.calls ++ checks :=
      (congrArg (fun p => p.2.scene.environ.calls) hready).symm.trans hcalls
    cases r with
    | error e =>
      rw [run_bind_error hready]
      exact ⟨checks, hcalls, fun call hcall => (hchecks call hcall).imp id .inl⟩
    | ok v =>
      rw [run_bind_ok hready, run_call]
      refine ⟨checks ++ [(operation, request)], ?_, fun call hcall => ?_⟩
      · rw [← List.append_assoc, ← hcalls]
        exact h'.scene.environ.answer_calls operation request
      · rcases List.mem_append.mp hcall with hcheck | hcall
        · exact (hchecks call hcheck).imp id .inl
        · exact .inr (.inr ⟨request, rfl, List.mem_singleton.mp hcall⟩)

end Handle

namespace Table

variable {t : Table} {key updates expected : Value} {params : Params} {request : Entries}

/-- The request to update an item holds the translated updates. -/
theorem updates_of_updateItemRequest
    (h : t.updateItemRequest key updates expected params = .ok request) :
    ∃ out, t.updatesOf updates = .ok out ∧
      request.find? (.text "AttributeUpdates") = some out.toValue := by
  obtain ⟨item, -, h⟩ := bind_eq_ok.mp (of_not_refused h)
  obtain ⟨out, hout, h⟩ := bind_eq_ok.mp h
  refine ⟨out, hout, ?_⟩
  have hput : (t.request params
      [(.text "Key", item.toValue), (.text "AttributeUpdates", out.toValue)]).find?
        (.text "AttributeUpdates") = some out.toValue :=
    Entries.find?_put_self _ _ _
  unfold withExpected at h
  split at h
  · exact Except.ok.inj h ▸ hput
  · split at h
    · cases h
    · obtain ⟨conditions, -, h⟩ := bind_eq_ok.mp h
      rw [← Except.ok.inj h, Entries.find?_put_of_ne (by decide)]
      exact hput

end Table

namespace Schema

variable {s : Schema}

/-- Whether what is sent to update an item leaves the key alone, whatever has become of the handle
before. -/
def SendsNoKey (s : Schema) : Prop :=
  ∀ (h : Handle) (key updates expected : Value) (params : Params), h.table.schema = s →
    ∃ made, ((Handle.updateItem key updates expected params).run.run h).2.calls = h.calls ++ made ∧
      ∀ call ∈ made, call.1 = "update_item" →
        ∃ sent, call.2.find? (.text "AttributeUpdates") = some (.map sent) ∧
          ∀ k ∈ s.keyFields, ∀ e ∈ sent, e.1 ≠ .text k.2.storedName

theorem SparesKey.sendsNoKey (hs : s.SparesKey) : s.SendsNoKey := by
  rintro h key updates expected params rfl
  obtain ⟨made, hcalls, hmade⟩ :=
    Handle.calls_passAndCall "update_item" (·.updateItemRequest key updates expected params) h
  refine ⟨made, ?_, fun call hcall hname => ?_⟩
  · rw [← hcalls]
    exact congrArg Handle.calls (handle_bind_quiet (quiet_recordIn "Attributes") h)
  · rcases hmade call hcall with hcheck | hcheck | ⟨request, hrequest, rfl⟩
    · rw [hname] at hcheck
      exact absurd hcheck (by decide)
    · rw [hname] at hcheck
      exact absurd hcheck (by decide)
    · obtain ⟨out, hout, hfind⟩ := Table.updates_of_updateItemRequest hrequest
      refine ⟨_, hfind, fun k hk e he heq => hs.leaves updates out hout k hk ?_⟩
      obtain ⟨r, hr, rfl⟩ := List.mem_map.mp he
      exact Value.text.inj heq ▸ List.mem_map_of_mem hr

/-- **Updates spare the key** if and only if the key fields are known by the names of key fields:
then no update that is translated is to an attribute of the key, no update of other fields is
refused for the sake of the key, and no request touches it. Fields that give themselves the names
that the schema has for them are known so. -/
theorem updates_spare_key (hs : s.Built) :
    ((∀ f ∈ s.fields, f.2.fieldName = f.1) → s.Guarded) ∧ (s.Guarded ↔ s.SparesKey) ∧
      (s.Guarded → s.SendsNoKey) :=
  ⟨hs.guarded, guarded_iff_sparesKey, fun h => h.sparesKey.sendsNoKey⟩

/-- Visits, by visitor and day. -/
def visitFields : OrderedMap Spelling Definition :=
  [("visitor", { fieldName := "visitor", storedName := "v", type := "S" }),
    ("day", { fieldName := "day", storedName := "visitor", type := "N" }),
    ("pages", { fieldName := "pages", storedName := "p", type := "N" })]

theorem updates_spare_key_visits : ∃ s,
    define [("day", "RANGE"), ("visitor", "HASH")] visitFields = .ok s ∧ s.Built ∧
      (∀ f ∈ s.fields, f.2.fieldName = f.1) ∧ s.Guarded ∧ s.SparesKey ∧ s.SendsNoKey := by
  obtain ⟨s, hs, hfields⟩ : ∃ s,
      define [("day", "RANGE"), ("visitor", "HASH")] visitFields = .ok s ∧
        ∀ f ∈ s.fields, f.2.fieldName = f.1 := ⟨_, rfl, by decide⟩
  have hbuilt : s.Built := .defined (by decide) hs
  obtain ⟨hguarded, hspares, hsends⟩ := updates_spare_key hbuilt
  exact ⟨s, hs, hbuilt, hfields, hguarded hfields, hspares.mp (hguarded hfields),
    hsends (hguarded hfields)⟩

/-- A schema whose key field gives itself another name than the schema has for it. -/
def misnamed : Schema where
  fields := [("id", keyField)]
  hashKey := keyField
where
  keyField : Definition :=
    { fieldName := "ident", storedName := "id", type := "S", keyType := some "HASH" }

/-- A handle that has found its table usable. -/
def readyHandle (s : Schema) : Handle where
  table := ⟨s, "t", false, .null⟩
  scene := { gate := { table := "t", interval := .int 1, state := .ready }, environ := {} }

/-- An update of that field is translated, and sent, although it is to the key. -/
theorem not_spares_misnamed :
    define [("id", "HASH")] [("id", { fieldName := "ident", storedName := "id", type := "S" })] =
      .ok misnamed ∧
    (∃ out, Change.translate misnamed.fields misnamed.keys.keys (.map [(.text "id", .text "b")]) =
      .ok out ∧ misnamed.hashKey.storedName ∈ out.keys) ∧
    ¬ misnamed.SparesKey ∧ ¬ misnamed.SendsNoKey := by
  obtain ⟨out, hout, hmem⟩ : ∃ out, Change.translate misnamed.fields misnamed.keys.keys
      (.map [(.text "id", .text "b")]) = .ok out ∧ misnamed.hashKey.storedName ∈ out.keys :=
    ⟨_, rfl, by decide⟩
  refine ⟨rfl, ⟨out, hout, hmem⟩, fun hspares => ?_, fun hsends => ?_⟩
  · exact hspares.leaves _ out hout _ List.mem_cons_self hmem
  · obtain ⟨made, hmade, hall⟩ := hsends (readyHandle misnamed) (.map [(.text "id", .text "a")])
      (.map [(.text "id", .text "b")]) .null [] rfl
    let sent := [(Value.text "id", Value.map [(.text "Action", .text "PUT"),
      (.text "Value", .map [(.text "S", .text "b")])])]
    let request := [(Value.text "TableName", Value.text "t"),
      (.text "Key", .map [(.text "id", .map [(.text "S", .text "a")])]),
      (.text "AttributeUpdates", .map sent)]
    have hcalls : ((Handle.updateItem (.map [(.text "id", .text "a")])
        (.map [(.text "id", .text "b")]) .null []).run.run (readyHandle misnamed)).2.calls =
          [("update_item", request)] := by
      with_unfolding_all rfl
    have hrequest : OrderedMap.find? request (.text "AttributeUpdates") = some (.map sent) := by
      with_unfolding_all rfl
    obtain rfl := hcalls.symm.trans hmade
    obtain ⟨sent', hsent, hkey⟩ := hall _ List.mem_cons_self rfl
    obtain rfl := Value.map.inj (Option.some.inj (hrequest.symm.trans hsent))
    exact hkey _ List.mem_cons_self _ List.mem_cons_self rfl

end Schema

end DocTable
