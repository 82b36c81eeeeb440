import DocTable.Proofs.Schema.Presentable
import DocTable.Proofs.Value.Tree
import DocTable.Schema.DocumentText

/-! Documents of schemas. A document shows of a schema what a schema is made of: it leaves out what
is as it is by default, and the key types of fields, which the keys tell. So a schema that can be
shown is what its entry is read as, and each is found by its name among others. -/

namespace DocTable

open Outcome

/-! ## Fields -/

/-- A field before it is declared to be a key. -/
def Definition.undeclared (d : Definition) : Definition :=
  { d with keyType := none }

namespace Document

variable {name : Spelling} {d : Definition}

/-- The entry that shows a field declares it, under the name of the field if it has no stored
name. -/
theorem declares_fieldDocument (hfield : d.fieldName = name) (hconverter : d.converter = none)
    (hname : name ≠ "") (htype : d.type ≠ "") : Declares (Schema.fieldDocument name d)
      (name, { d.undeclared with
        storedName := if d.storedName = "" then name else d.storedName }) := by
  obtain ⟨fieldName, storedName, type, keyType, json, converter⟩ := d
  obtain rfl : fieldName = name := hfield
  obtain rfl : converter = none := hconverter
  unfold Schema.fieldDocument Definition.undeclared
  generalize hmembers : [(Value.text "field", Value.text fieldName), (.text "type", .text type)] ++
    (if storedName = fieldName then [] else [(.text "attribute", .text storedName)]) ++
    (if json then [(.text "json", .bool true)] else []) = members
  have hhead : Headed members fieldName type := by
    refine ⟨?_, hname, ?_, mt Spelling.plain.inj htype⟩ <;>
      simp [← hmembers, OrderedMap.find?, Value.text_beq_text]
  have hjson : (member members "json").truthy = json := by
    by_cases hsame : storedName = fieldName <;> cases json <;>
      simp [← hmembers, hsame, member, OrderedMap.find?, Value.text_beq_text, Value.truthy]
  have hstores : Stores members fieldName (if storedName = "" then fieldName else storedName) := by
    by_cases hsame : storedName = fieldName
    · have hnone : (member members "attribute").truthy = false := by
        cases json <;>
          simp [← hmembers, hsame, member, OrderedMap.find?, Value.text_beq_text, Value.truthy]
      rw [hsame, ite_self]
      exact .own hnone
    · have hgiven : member members "attribute" = .text storedName := by
        simp [← hmembers, hsame, member, OrderedMap.find?, Value.text_beq_text]
      by_cases hempty : storedName = ""
      · rw [if_pos hempty]
        exact .own (by simp [hgiven, hempty, Value.truthy])
      · have hsome : (member members "attribute").truthy = true := by
          simpa [hgiven, Value.truthy] using hempty
        have hstores := @Stores.given members fieldName hsome (by rw [hgiven]; rfl)
        rw [if_neg hempty]
        rwa [hgiven] at hstores
  exact hjson ▸ .intro hhead hstores

/-- So if it is presentable, it declares the field as it is. -/
theorem declares_of_presentable (h : d.Presentable name) (htype : d.type ≠ "") :
    Declares (Schema.fieldDocument name d) (name, d.undeclared) := by
  have hdeclares := declares_fieldDocument h.fieldName h.converter h.name htype
  rwa [if_neg h.storedName] at hdeclares

end Document

namespace Schema

variable {s : Schema} {schemas : List Schema}

/-! ## Keys -/

/-- The roles that the key fields have, by the names that these give themselves. -/
def roles (s : Schema) : List (Spelling × KeyRole) :=
  s.keyFields.map fun k => (k.2.fieldName, k.1)

theorem keyTypes_keyFields (s : Schema) :
    keyTypes s.keyFields = s.roles.map (Prod.map id KeyRole.code) := by
  rw [keyTypes, roles, List.map_map]
  rfl

/-- A field of which only the role was left out is marked with it again. -/
theorem inRole_undeclared {d : Definition} {role? : Option KeyRole}
    (h : d.keyType = role?.map KeyRole.code) : d.undeclared.inRole role? = d := by
  obtain ⟨fieldName, storedName, type, keyType, json, converter⟩ := d
  obtain rfl : keyType = _ := h
  cases role? <;> rfl

/-- What is shown of a schema with a name. -/
theorem toDocument_of_named {name : Spelling} (hname : s.tableName = some name) (hne : name ≠ "") :
    s.toDocument = .map [(.text "name", .text name),
      (.text "keys", .map (s.keys.map fun k => (.text k.1, .text k.2))),
      (.text "attributes", .list (s.fields.map fun f => fieldDocument f.1 f.2))] := by
  rw [toDocument, hname]
  simp [hne]

namespace Presentable

theorem nodup_roles (hs : s.Presentable) : (s.roles.map (·.1)).Nodup := by
  have hnames : (keyTypes s.keyFields).keys.Nodup := hs.keys ▸ OrderedMap.nodup_keys_ofList _
  simpa [keyTypes_keyFields, OrderedMap.keys, Function.comp_def] using hnames

/-- What is shown of the fields is marked as the fields are. -/
theorem mark_undeclared (hs : s.Presentable) :
    mark s.roles (s.fields.map (Prod.map id Definition.undeclared)) = s.fields := by
  rw [mark, List.map_map]
  refine (List.map_congr_left fun f hf => ?_).trans (List.map_id _)
  have hfind := OrderedMap.find?_of_mem (OrderedMap.distinct_iff_nodup.mpr hs.sound.names)
    (beq_self_eq_true _) hf
  have hroles : OrderedMap.ofList s.roles = s.roles :=
    OrderedMap.ofList_of_distinct (OrderedMap.distinct_iff_nodup.mpr hs.nodup_roles)
  refine Prod.ext rfl (inRole_undeclared ?_)
  rw [(hs.fields f.1 f.2 hfind).2, hs.keys, keyTypes_keyFields, OrderedMap.find?_map, hroles]
  rfl

/-- Declaring what the keys show makes the schema out of its undeclared fields. -/
theorem defineFrom_declarations (hs : s.Presentable) :
    defineFrom (declarations s.roles) (s.fields.map (Prod.map id Definition.undeclared))
      s.tableName = .ok s := by
  have hkeys : OrderedMap.keys (s.fields.map (Prod.map id Definition.undeclared)) =
      s.fields.keys := by
    simp [OrderedMap.keys]
  have hhash : namesOf s.roles .hash = [s.hashKey.fieldName] := by
    simp [namesOf, roles, keyFields, List.filter_map, Function.comp_def]
  have hrange : namesOf s.roles .range = s.rangeKey.toList.map (·.fieldName) := by
    simp [namesOf, roles, keyFields, List.filter_map, Function.comp_def]
  refine (defineFrom_eq_ok (hkeys ▸ hs.sound.names)).mpr ⟨s.roles, rfl, ?_, ?_⟩
  · refine List.forall_mem_map.mpr fun k hk => ?_
    rw [hkeys]
    exact List.mem_map_of_mem (OrderedMap.mem_of_find? (hs.found k hk))
  rw [hs.mark_undeclared, hhash, hrange]
  have hhashKey := hs.found (.hash, s.hashKey) List.mem_cons_self
  refine ⟨hs.sound.storedNames, ⟨_, rfl, ?_, hhashKey⟩, by cases s.rangeKey <;> simp, ?_, hs.typed⟩
  · simpa [roles, keyFields] using (List.nodup_cons.mp hs.nodup_roles).1
  · have hrangeKey : (s.rangeKey.toList.map (·.fieldName)).head?.bind s.fields.find? =
        s.rangeKey := by
      cases hkey : s.rangeKey with
      | none => rfl
      | some d => exact hs.found (.range, d) (mem_keyFields.mpr (.inr ⟨d, hkey, rfl⟩))
    rw [hrangeKey]

theorem toDocument_eq (hs : s.Presentable) {name : Spelling} (hname : s.tableName = some name)
    (hne : name ≠ "") : s.toDocument = .map [(.text "name", .text name),
      (.text "keys", .map (declarations s.roles)),
      (.text "attributes", .list (s.fields.map fun f => fieldDocument f.1 f.2))] := by
  have hkeys : declarations s.roles = s.keys.map fun k => (.text k.1, .text k.2) := by
    rw [hs.keys, keyTypes_keyFields, List.map_map]
    rfl
  rw [hkeys, toDocument_of_named hname hne]

/-- **What is shown of a schema is read as the schema.** -/
theorem ofDocument_toDocument (hs : s.Presentable) : ofDocument s.toDocument = .ok s := by
  obtain ⟨name, hname, hne⟩ := hs.tableName
  have hfields : ∀ f ∈ s.fields, f.2.Presentable f.1 ∧ f.2.type ≠ "" := by
    intro f hf
    have hfind := OrderedMap.find?_of_mem (OrderedMap.distinct_iff_nodup.mpr hs.sound.names)
      (beq_self_eq_true _) hf
    refine ⟨(hs.fields f.1 f.2 hfind).1, fun htype => ?_⟩
    have hdeclarable := hs.typed.fields f hf
    rw [htype] at hdeclarable
    exact absurd hdeclarable (by decide)
  have hdistinct : OrderedMap.Distinct (s.fields.map (Prod.map id Definition.undeclared)) := by
    refine OrderedMap.distinct_iff_nodup.mpr ?_
    simpa [OrderedMap.keys, Function.comp_def] using hs.sound.names
  have hnonempty : s.fields ≠ [] := fun hnil => by
    have hfind := hs.found (.hash, s.hashKey) List.mem_cons_self
    rw [hnil] at hfind
    cases hfind
  have hentries : List.Forall₂ Document.Declares (s.fields.map fun f => fieldDocument f.1 f.2)
      (s.fields.map (Prod.map id Definition.undeclared)) := by
    rw [List.forall₂_map_left_iff, List.forall₂_map_right_iff, List.forall₂_same]
    exact fun f hf => Document.declares_of_presentable (hfields f hf).1 (hfields f hf).2
  rw [hs.toDocument_eq hname hne, ofDocument_eq_ok]
  refine ⟨_, name, declarations s.roles, _, _, rfl,
    ⟨?_, hne, ?_, List.cons_ne_nil _ _, ?_, by simpa using hnonempty⟩, hentries, ?_⟩
  · simp [OrderedMap.find?, Value.text_beq_text]
  · simp [OrderedMap.find?, Value.text_beq_text]
  · simp [OrderedMap.find?, Value.text_beq_text]
  · rw [OrderedMap.ofList_of_distinct hdistinct, ← hname]
    exact hs.defineFrom_declarations

end Presentable

/-! ## Documents -/

/-- What a schema that is shown comes from: the entry of a table, or a type of records. -/
inductive Described : Schema → Prop where
  | ofDocument {doc : Value} {s : Schema} (legible : Legible doc)
      (h : Schema.ofDocument doc = .ok s) : Described s
  | ofType {t : RecordType} {tableName : Option Spelling} {s : Schema} (plain : t.Plain)
      (h : t.schema tableName = .ok s) : Described s

/-- Schemas whose tables have names of their own. -/
structure Named (schemas : List Schema) : Prop where
  named : ∀ s ∈ schemas, ∃ name, s.tableName = some name ∧ name ≠ ""
  distinct : (schemas.map (·.tableName)).Nodup

theorem Described.presentable (h : s.Described)
    (hname : ∃ name, s.tableName = some name ∧ name ≠ "") : s.Presentable := by
  cases h with
  | ofDocument legible h => exact presentable_of_ofDocument legible h
  | ofType plain h => exact RecordType.presentable_of_schema plain hname h

theorem Named.eq_of_tableName (h : Named schemas) {s' : Schema} (hs : s ∈ schemas)
    (hs' : s' ∈ schemas) (hname : s.tableName = s'.tableName) : s = s' :=
  List.inj_on_of_nodup_map h.distinct hs hs' hname

/-- Each schema is found by its name. -/
theorem table_ofSchemas (hnamed : Named schemas) (hpresentable : ∀ s ∈ schemas, s.Presentable)
    (hs : s ∈ schemas) {name : Spelling} (hname : s.tableName = some name) :
    Document.table (Document.ofSchemas schemas) name = .ok s.toDocument := by
  have hisNamed : ∀ s' ∈ schemas,
      (Document.table.isNamed name s'.toDocument = true ↔ s'.tableName = some name) := by
    intro s' hs'
    obtain ⟨name', hname', hne⟩ := hnamed.named s' hs'
    rw [(hpresentable s' hs').toDocument_eq hname' hne, hname']
    simp [Document.table.isNamed, OrderedMap.find?, Value.text_beq_text, Value.text_same_text]
  have hfound : (schemas.map (·.toDocument)).find? (Document.table.isNamed name) =
      some s.toDocument := by
    rw [List.find?_map]
    cases hfind : schemas.find? (Document.table.isNamed name ∘ toDocument) with
    | none =>
      have hnone := List.find?_eq_none.mp hfind s hs
      exact absurd ((hisNamed s hs).mpr hname) hnone
    | some s' =>
      have hs' := List.mem_of_find?_eq_some hfind
      have hname' := (hisNamed s' hs').mp (by simpa using List.find?_some hfind)
      rw [hnamed.eq_of_tableName hs' hs (hname'.trans hname.symm)]
      rfl
  refine bind_eq_ok.mpr ⟨some (.list (schemas.map (·.toDocument))), ?_, ?_⟩
  · simp [Document.ofSchemas, Value.get?, OrderedMap.find?, Value.text_beq_text]
  · dsimp only
    rw [hfound]

end Schema

/-! ## Texts -/

namespace Document

/-- Whether a value is a tree of the JSON format wherever it stands. -/
def Compatible (v : Value) : Prop :=
  ∀ path, checkTree path v = .ok ()

theorem compatible_text (s : Spelling) : Compatible (.text s) :=
  fun _ => rfl

theorem compatible_bool (b : Bool) : Compatible (.bool b) :=
  fun _ => rfl

theorem compatible_list {items : List Value} (h : ∀ v ∈ items, Compatible v) :
    Compatible (.list items) := by
  have hitems : ∀ path index, checkItems path index items = .ok () := by
    induction items with
    | nil => exact fun _ _ => rfl
    | cons v items ih =>
      intro path index
      obtain ⟨hfirst, hrest⟩ := List.forall_mem_cons.mp h
      rw [checkItems, hfirst]
      exact ih hrest path (index + 1)
  exact fun path => hitems path 0

theorem compatible_map {entries : List (Value × Value)}
    (h : ∀ e ∈ entries, e.1.isText = true ∧ Compatible e.2) : Compatible (.map entries) := by
  intro path
  rw [checkTree]
  induction entries with
  | nil => rfl
  | cons e entries ih =>
    obtain ⟨⟨hname, hfirst⟩, hrest⟩ := List.forall_mem_cons.mp h
    obtain ⟨k, v⟩ := e
    cases k with
    | text name =>
      rw [checkEntries]
      show (checkTree _ v >>= _) = _
      rw [hfirst]
      exact ih hrest
    | _ => cases hname

theorem compatible_fieldDocument (name : Spelling) (d : Definition) :
    Compatible (Schema.fieldDocument name d) := by
  refine compatible_map (List.forall_mem_append.mpr ⟨List.forall_mem_append.mpr ⟨?_, ?_⟩, ?_⟩)
  · simp [Value.isText, compatible_text]
  · split <;> simp [Value.isText, compatible_text]
  · split <;> simp [Value.isText, compatible_bool]

theorem compatible_toDocument (s : Schema) : Compatible s.toDocument := by
  have hkeys : Compatible (.map (s.keys.map fun k => (.text k.1, .text k.2))) :=
    compatible_map (List.forall_mem_map.mpr fun _ _ => ⟨rfl, compatible_text _⟩)
  have hfields : Compatible (.list (s.fields.map fun f => Schema.fieldDocument f.1 f.2)) :=
    compatible_list (List.forall_mem_map.mpr fun _ _ => compatible_fieldDocument _ _)
  refine compatible_map (List.forall_mem_append.mpr ⟨?_, ?_⟩)
  · split <;> simp [Value.isText, compatible_text]
  · exact List.forall_mem_cons.mpr ⟨⟨rfl, hkeys⟩, List.forall_mem_singleton.mpr ⟨rfl, hfields⟩⟩

/-- The document of some schemas has the outer form of documents. -/
theorem check_ofSchemas {schemas : List Schema} (hne : schemas ≠ []) :
    check (ofSchemas schemas) = .ok (ofSchemas schemas) := by
  have htables : Compatible (.list (schemas.map (·.toDocument))) :=
    compatible_list (List.forall_mem_map.mpr fun _ _ => compatible_toDocument _)
  have htree : Compatible (ofSchemas schemas) := compatible_map (List.forall_mem_cons.mpr
    ⟨⟨rfl, compatible_text _⟩, List.forall_mem_singleton.mpr ⟨rfl, htables⟩⟩)
  obtain ⟨s, schemas, rfl⟩ := List.exists_cons_of_ne_nil hne
  refine bind_eq_ok.mpr ⟨(), htree "document", ?_⟩
  simp [OrderedMap.find?, Value.text_beq_text, Value.text_same_text]

/-- Whether a value passes for a tree of the JSON format where it stands. -/
def Checked (v : Value) : Prop :=
  ∃ path, checkTree path v = .ok ()

namespace Checked

variable {v : Value} {entries : List (Value × Value)}

theorem visible (h : Checked v) : v.Visible := by
  obtain ⟨path, h⟩ := h
  rintro kind rfl
  cases h

theorem of_mem_list {items : List Value} (h : Checked (.list items)) (hv : v ∈ items) :
    Checked v := by
  obtain ⟨path, h⟩ := h
  have hitems : ∃ index, checkItems path index items = .ok () := ⟨0, h⟩
  clear h
  induction items with
  | nil => cases hv
  | cons first rest ih =>
    obtain ⟨index, h⟩ := hitems
    rw [checkItems] at h
    obtain ⟨_, hfirst, hrest⟩ := bind_eq_ok.mp h
    cases hv with
    | head => exact ⟨_, hfirst⟩
    | tail _ hv => exact ih hv ⟨_, hrest⟩

theorem of_mem_map {e : Value × Value} (h : Checked (.map entries)) (he : e ∈ entries) :
    (∃ name, e.1 = .text name) ∧ Checked e.2 := by
  obtain ⟨path, h⟩ := h
  rw [checkTree] at h
  induction entries with
  | nil => cases he
  | cons first rest ih =>
    obtain ⟨k, v⟩ := first
    cases k with
    | text name =>
      rw [checkEntries] at h
      obtain ⟨_, hfirst, hrest⟩ := bind_eq_ok.mp h
      cases he with
      | head => exact ⟨⟨name, rfl⟩, _, hfirst⟩
      | tail _ he => exact ih he hrest
    | _ =>
      rw [checkEntries] at h
      · exact absurd h (bind_ne_ok fun _ => nofun)
      · exact nofun

theorem of_find? {k : Value} (h : Checked (.map entries))
    (hfind : OrderedMap.find? entries k = some v) : Checked v := by
  obtain ⟨k', -, he⟩ := OrderedMap.exists_mem_of_find? hfind
  exact (h.of_mem_map he).2

/-- Nothing that cannot be seen stands in a tree of the JSON format. -/
theorem legible (h : Checked v) : Schema.Legible v := by
  rintro entries attributes members stored rfl hattributes hmembers hstored
  exact (((h.of_find? hattributes).of_mem_list hmembers).of_find? hstored).visible

theorem of_check {doc : Value} (h : check doc = .ok v) : Checked v := by
  cases doc with
  | map entries =>
    obtain ⟨_, htree, h⟩ := bind_eq_ok.mp h
    dsimp only at h
    split at h
    next =>
      split at h
      next => exact Except.ok.inj h ▸ ⟨_, htree⟩
      next => cases h
    next => exact absurd h (bind_ne_ok fun _ => nofun)
  | _ => cases h

theorem of_table {doc : Value} {name : Spelling} (hdoc : Checked doc)
    (h : Document.table doc name = .ok v) : Checked v := by
  obtain ⟨tables?, hget, h⟩ := bind_eq_ok.mp h
  split at h
  next tables =>
    split at h
    next t hfind =>
      obtain rfl := Except.ok.inj h
      cases doc with
      | map entries =>
        exact (hdoc.of_find? (Except.ok.inj hget)).of_mem_list (List.mem_of_find?_eq_some hfind)
      | _ => cases hget
    next => cases h
  next => cases h

end Checked

end Document

namespace Value

mutual

/-- Whether two trees of texts, truth values, lists and maps are the same, entry by entry. -/
def identical : Value → Value → Bool
  | text s, text s' => s == s'
  | bool b, bool b' => b == b'
  | list items, list items' => identicalItems items items'
  | map entries, map entries' => identicalEntries entries entries'
  | _, _ => false

def identicalItems : List Value → List Value → Bool
  | [], [] => true
  | v :: rest, v' :: rest' => identical v v' && identicalItems rest rest'
  | _, _ => false

def identicalEntries : List (Value × Value) → List (Value × Value) → Bool
  | [], [] => true
  | (k, v) :: rest, (k', v') :: rest' =>
    identical k k' && identical v v' && identicalEntries rest rest'
  | _, _ => false

end

mutual

theorem eq_of_identical {v v' : Value} (h : identical v v' = true) : v = v' := by
  unfold identical at h
  split at h
  · exact congrArg text (eq_of_beq h)
  · exact congrArg bool (eq_of_beq h)
  · exact congrArg list (eq_of_identicalItems h)
  · exact congrArg map (eq_of_identicalEntries h)
  · cases h

theorem eq_of_identicalItems {vs vs' : List Value} (h : identicalItems vs vs' = true) :
    vs = vs' := by
  unfold identicalItems at h
  split at h
  · rfl
  · obtain ⟨hfirst, hrest⟩ := Bool.and_eq_true_iff.mp h
    rw [eq_of_identical hfirst, eq_of_identicalItems hrest]
  · cases h

theorem eq_of_identicalEntries {es es' : List (Value × Value)}
    (h : identicalEntries es es' = true) : es = es' := by
  unfold identicalEntries at h
  split at h
  · rfl
  · obtain ⟨hfirst, hrest⟩ := Bool.and_eq_true_iff.mp h
    obtain ⟨hk, hv⟩ := Bool.and_eq_true_iff.mp hfirst
    rw [eq_of_identical hk, eq_of_identical hv, eq_of_identicalEntries hrest]
  · cases h

end

end Value

namespace Schema

variable {s : Schema} {schemas : List Schema}

/-- A schema that is loaded from a text is described there. -/
theorem described_of_load {text : String} {name : Spelling} (h : Schema.load text name = .ok s) :
    s.Described := by
  obtain ⟨doc, hparse, h⟩ := bind_eq_ok.mp h
  obtain ⟨entry, htable, hentry⟩ := bind_eq_ok.mp h
  obtain ⟨_, -, hcheck⟩ := bind_eq_ok.mp hparse
  exact .ofDocument ((Document.Checked.of_check hcheck).of_table htable).legible hentry

/-- **Schemas come back from documents.** In the document of some schemas with names of their own,
each is found by its name and read as it is; and so it is loaded from the text of the document, if
that is read as the document. -/
theorem load_render (hdescribed : ∀ s ∈ schemas, s.Described) (hnamed : Named schemas)
    (hs : s ∈ schemas) : ∃ name, s.tableName = some name ∧
      (Document.table (Document.ofSchemas schemas) name >>= Schema.ofDocument) = .ok s ∧
      (Markup.read (Document.render schemas) = .ok (Document.ofSchemas schemas) →
        Schema.load (Document.render schemas) name = .ok s) := by
  have hpresentable : ∀ s ∈ schemas, s.Presentable := fun s hs =>
    (hdescribed s hs).presentable (hnamed.named s hs)
  obtain ⟨name, hname, -⟩ := hnamed.named s hs
  have htable : (Document.table (Document.ofSchemas schemas) name >>= Schema.ofDocument) = .ok s :=
    bind_eq_ok.mpr ⟨_, table_ofSchemas hnamed hpresentable hs hname,
      (hpresentable s hs).ofDocument_toDocument⟩
  refine ⟨name, hname, htable, fun hread => ?_⟩
  have hparse : Document.parse (Document.render schemas) = .ok (Document.ofSchemas schemas) :=
    bind_eq_ok.mpr ⟨_, hread, Document.check_ofSchemas (List.ne_nil_of_mem hs)⟩
  exact bind_eq_ok.mpr ⟨_, hparse, htable⟩

/-- The entry of a table of orders. -/
def ordersDocument : Value :=
  .map [(.text "name", .text "orders"), (.text "keys", .map [(.text "id", .text "HASH")]),
    (.text "attributes", .list [.map [(.text "field", .text "id"), (.text "type", .text "N"),
      (.text "attribute", .text "no")]])]

def orders : Schema where
  fields := [("id", id)]
  hashKey := id
  tableName := some "orders"
where
  id : Definition := { fieldName := "id", storedName := "no", type := "N", keyType := some "HASH" }

/-- A type of records of users. -/
def userType : RecordType where
  fields := [{ name := "mail", typeText := "str", roles := ["pk"] },
    { name := "session", typeText := "Any", ignored := true }]

def users : Schema where
  fields := [("mail", mail)]
  hashKey := mail
  tableName := some "users"
where
  mail : Definition :=
    { fieldName := "mail", storedName := "mail", type := "S", keyType := some "HASH" }

theorem load_render_orders : (∀ s ∈ [orders, users], s.Described) ∧ Named [orders, users] ∧
    orders ∈ [orders, users] ∧
    (Document.table (Document.ofSchemas [orders, users]) "orders" >>= Schema.ofDocument) =
      .ok orders ∧
    Markup.read (Document.render [orders, users]) = .ok (Document.ofSchemas [orders, users]) ∧
    Schema.load (Document.render [orders, users]) "orders" = .ok orders := by
  have horders : orders.Described := by
    have hdoc : Schema.ofDocument ordersDocument = .ok orders := by with_unfolding_all rfl
    exact .ofDocument (Document.Checked.legible ⟨"document", rfl⟩) hdoc
  have husers : users.Described := by
    have htype : userType.schema (some "users") = .ok users := rfl
    exact .ofType ⟨by decide, by decide, by decide, by decide⟩ htype
  have hdescribed : ∀ s ∈ [orders, users], s.Described :=
    List.forall_mem_cons.mpr ⟨horders, List.forall_mem_singleton.mpr husers⟩
  have hnamed : Named [orders, users] :=
    ⟨List.forall_mem_cons.mpr ⟨⟨_, rfl, by decide⟩,
      List.forall_mem_singleton.mpr ⟨_, rfl, by decide⟩⟩, by decide⟩
  have hidentical : ((Markup.read (Document.render [orders, users])).toOption.any
      (·.identical (Document.ofSchemas [orders, users]))) = true := by decide +kernel
  have hread : Markup.read (Document.render [orders, users]) =
      .ok (Document.ofSchemas [orders, users]) := by
    cases hresult : Markup.read (Document.render [orders, users]) with
    | ok v =>
      rw [hresult] at hidentical
      rw [Value.eq_of_identical hidentical]
    | error f =>
      rw [hresult] at hidentical
      cases hidentical
  obtain ⟨name, hname, htable, hload⟩ := load_render hdescribed hnamed List.mem_cons_self
  obtain rfl : "orders" = name := Option.some.inj hname
  exact ⟨hdescribed, hnamed, List.mem_cons_self, htable, hread, hload hread⟩

end Schema

end DocTable
