import DocTable.Proofs.Schema.Declarations
import DocTable.Proofs.Schema.Entries
import DocTable.Proofs.Value.Shown

/-! Schemas that documents can show: the fields give themselves the names that the schema has for
them, none has a converter, and the key types that they have are those of the key. Schemas that are
read from documents are so, and schemas of types of records without converters. -/

namespace DocTable

open Outcome

/-- A field that a document can show under some name. -/
structure Definition.Presentable (name : Spelling) (d : Definition) : Prop where
  fieldName : d.fieldName = name
  name : name ≠ ""
  storedName : d.storedName ≠ ""
  converter : d.converter = none

theorem Definition.Presentable.inRole {name : Spelling} {d : Definition} (h : d.Presentable name)
    (role? : Option KeyRole) : (d.inRole role?).Presentable name := by
  cases role? with
  | none => exact h
  | some role => exact ⟨h.fieldName, h.name, h.storedName, h.converter⟩

namespace Schema

variable {s : Schema} {fields : OrderedMap Spelling Definition}
  {hashFields rangeFields : List Spelling} {tableName : Option Spelling} {name : Spelling}
  {d : Definition} {roles : List (Spelling × KeyRole)}

/-- Fields that documents can show, those that are declared as keys among them and marked. -/
structure Declared (fields : OrderedMap Spelling Definition)
    (hashFields rangeFields : List Spelling) :
    Prop where
  presentable : ∀ name d, fields.find? name = some d → d.Presentable name
  marked : ∀ name d, fields.find? name = some d → Marked hashFields rangeFields name d.keyType
  found : ∀ name ∈ hashFields ++ rangeFields, ∃ d, fields.find? name = some d

theorem declared_mark (hdeclared : ∀ r ∈ roles, r.1 ∈ fields.keys)
    (hfields : ∀ name d, fields.find? name = some d → d.Presentable name ∧ d.keyType = none) :
    Declared (mark roles fields) (namesOf roles .hash) (namesOf roles .range) := by
  refine ⟨fun name d hfind => ?_, fun name d hfind => ?_,
    fun name => exists_find?_mark hdeclared⟩ <;>
    obtain ⟨d, hd, rfl⟩ := Option.map_eq_some_iff.mp ((find?_mark ..).symm.trans hfind)
  · exact (hfields name d hd).1.inRole _
  · exact marked_inRole (.inl (hfields name d hd).2)

/-! ## Schemas -/

/-- The key types that some key fields give, by their names. -/
def keyTypes (keys : List (KeyRole × Definition)) : OrderedMap Spelling String :=
  keys.map fun k => (k.2.fieldName, k.1.code)

/-- A schema that a document can show. -/
structure Presentable (s : Schema) : Prop where
  tableName : ∃ name, s.tableName = some name ∧ name ≠ ""
  sound : s.Sound
  typed : s.Typed
  fields : ∀ name d, s.fields.find? name = some d →
    d.Presentable name ∧ d.keyType = s.keys.find? name
  keys : s.keys = keyTypes s.keyFields
  found : ∀ k ∈ s.keyFields, s.fields.find? k.2.fieldName = some k.2

/-- The key fields are those that are declared as keys, under the names by which they are. -/
theorem Laid.keyFields_eq (h : Laid fields hashFields rangeFields tableName s)
    (hnamed : ∀ name d, fields.find? name = some d → d.fieldName = name)
    (hfound : ∀ name ∈ hashFields ++ rangeFields, ∃ d, fields.find? name = some d) :
    ∃ hash, hashFields = [hash] ∧ hash ∉ rangeFields ∧
      keyTypes s.keyFields =
        (hash, KeyRole.hash.code) :: rangeFields.map (·, KeyRole.range.code) ∧
      ∀ k ∈ s.keyFields, fields.find? k.2.fieldName = some k.2 := by
  obtain ⟨hash, rfl, hother, hhash⟩ := h.hash
  have hhashName := hnamed _ _ hhash
  have hrange : s.rangeKey = rangeFields.head?.bind fields.find? := by rw [h.eq]
  match rangeFields, h.range with
  | [], _ =>
    have hrange : s.rangeKey = none := hrange
    refine ⟨hash, rfl, hother, by simp [keyTypes, keyFields, hrange, hhashName], ?_⟩
    simpa [keyFields, hrange, hhashName] using hhash
  | [range], _ =>
    obtain ⟨d, hd⟩ := hfound range (by simp)
    have hrange : s.rangeKey = some d := hrange.trans hd
    have hname := hnamed _ _ hd
    refine ⟨hash, rfl, hother, by simp [keyTypes, keyFields, hrange, hhashName, hname], ?_⟩
    simpa [keyFields, hrange, hhashName, hname] using And.intro hhash hd

/-- The key is shown by the names that are declared as keys. -/
theorem Laid.keys_eq (h : Laid fields hashFields rangeFields tableName s)
    (hnamed : ∀ name d, fields.find? name = some d → d.fieldName = name)
    (hfound : ∀ name ∈ hashFields ++ rangeFields, ∃ d, fields.find? name = some d) :
    s.keys = hashFields.map (·, KeyRole.hash.code) ++ rangeFields.map (·, KeyRole.range.code) := by
  obtain ⟨hash, rfl, hother, hshown, -⟩ := h.keyFields_eq hnamed hfound
  have hdistinct : OrderedMap.Distinct
      ((hash, KeyRole.hash.code) :: rangeFields.map (·, KeyRole.range.code)) := by
    refine OrderedMap.distinct_iff_nodup.mpr (List.nodup_cons.mpr ⟨by simpa using hother, ?_⟩)
    match rangeFields, h.range with
    | [], _ => exact .nil
    | [_], _ => exact List.pairwise_singleton _ _
  exact (congrArg OrderedMap.ofList hshown).trans (OrderedMap.ofList_of_distinct hdistinct)

theorem Laid.presentable (h : Laid fields hashFields rangeFields tableName s)
    (hname : ∃ name, s.tableName = some name ∧ name ≠ "") (hnames : fields.keys.Nodup)
    (hdeclared : Declared fields hashFields rangeFields) : s.Presentable := by
  have hnamed : ∀ name d, fields.find? name = some d → d.fieldName = name :=
    fun name d hfind => (hdeclared.presentable name d hfind).fieldName
  obtain ⟨hash, rfl, -, hshown, hfound⟩ := h.keyFields_eq hnamed hdeclared.found
  have hfields : s.fields = fields := by rw [h.eq]
  have hkeys : s.keys = (hash, KeyRole.hash.code) :: rangeFields.map (·, KeyRole.range.code) :=
    h.keys_eq hnamed hdeclared.found
  have hdistinct : OrderedMap.Distinct
      ((hash, KeyRole.hash.code) :: rangeFields.map (·, KeyRole.range.code)) :=
    OrderedMap.distinct_iff_nodup.mpr (hkeys ▸ OrderedMap.nodup_keys_ofList _)
  refine ⟨hname, ⟨hfields ▸ hnames, hfields ▸ h.storedNames⟩, h.typed,
    fun name d hfind => ?_, hkeys.trans hshown.symm, hfields ▸ hfound⟩
  rw [hfields] at hfind
  refine ⟨hdeclared.presentable name d hfind, ?_⟩
  have hmarked := hdeclared.marked name d hfind
  rw [hkeys]
  generalize d.keyType = keyType at hmarked
  cases hmarked with
  | plain hnoHash hnoRange =>
    refine (OrderedMap.find?_eq_none.mpr ?_).symm
    simpa [OrderedMap.keys] using And.intro (by simpa using hnoHash) hnoRange
  | hash hmem =>
    obtain rfl := List.mem_singleton.mp hmem
    exact (OrderedMap.find?_of_mem hdistinct (beq_self_eq_true _) List.mem_cons_self).symm
  | range hmem =>
    exact (OrderedMap.find?_of_mem hdistinct (beq_self_eq_true _)
      (List.mem_cons_of_mem _ (List.mem_map_of_mem hmem))).symm

/-! ## From documents -/

/-- An entry of a table in which every stored name that is given can be seen. -/
def Legible (doc : Value) : Prop :=
  ∀ entries attributes members v, doc = .map entries →
    OrderedMap.find? entries (.text "attributes") = some (.list attributes) →
    .map members ∈ attributes →
      OrderedMap.find? members (.text "attribute") = some v → v.Visible

theorem presentable_of_declares {entry : Value}
    (hvisible : ∀ members v, entry = .map members →
      OrderedMap.find? members (.text "attribute") = some v → v.Visible)
    (h : Document.Declares entry (name, d)) : d.Presentable name ∧ d.keyType = none := by
  cases h with
  | @intro members _ type stored head stores =>
    refine ⟨⟨rfl, head.named_ne, ?_, rfl⟩, rfl⟩
    cases stores with
    | own => exact head.named_ne
    | given some =>
      refine Value.spelling_ne_empty some fun kind hother => ?_
      unfold Document.member at hother
      cases hfind : OrderedMap.find? members (.text "attribute") with
      | none => rw [hfind] at hother; cases hother
      | some v => exact hvisible members v rfl hfind kind (by rwa [hfind] at hother)

theorem presentable_of_defineFrom {keys : Entries} (hname : name ≠ "")
    (hnames : fields.keys.Nodup)
    (hfields : ∀ name d, fields.find? name = some d → d.Presentable name ∧ d.keyType = none)
    (h : defineFrom keys fields (some name) = .ok s) : s.Presentable := by
  obtain ⟨roles, -, hdeclared, hlaid⟩ := (defineFrom_eq_ok hnames).mp h
  exact hlaid.presentable ⟨name, by rw [hlaid.eq], hname⟩ (by rwa [keys_mark])
    (declared_mark hdeclared hfields)

theorem presentable_of_ofDocument {doc : Value} (hlegible : Legible doc)
    (h : ofDocument doc = .ok s) : s.Presentable := by
  obtain ⟨members, name, keys, entries, fields, hdoc, hformed, hfields, h⟩ := ofDocument_eq_ok.mp h
  refine presentable_of_defineFrom hformed.named_ne (OrderedMap.nodup_keys_ofList fields)
    (fun field d hfind => ?_) h
  obtain ⟨entry, hentry, hdeclares⟩ :=
    exists_of_mem_forall₂ hfields (OrderedMap.mem_of_find?_ofList hfind)
  refine presentable_of_declares (fun own v hown hv => ?_) hdeclares
  exact hlegible members entries own v hdoc hformed.listed (hown ▸ hentry) hv

end Schema

/-! ## From types of records -/

namespace RecordType

/-- A type of records as the language has it, whose fields have no converters and can be seen in the
store. -/
structure Plain (t : RecordType) : Prop where
  names : (t.fields.map (·.name)).Nodup
  nonempty : ∀ f ∈ t.fields, f.name ≠ ""
  converters : ∀ f ∈ t.fields, f.ignored = false → f.converter = none
  storedNames : ∀ f ∈ t.fields, f.ignored = false → f.storedName ≠ some ""

variable {t : RecordType} {f : RecordField} {d : Definition} {fields : List RecordField}

theorem definition_eq_ok (h : t.definition f = .ok d) : ∃ type, d =
    { fieldName := f.name, storedName := f.storedName.getD f.name, type, keyType := keyType? f,
      json := f.json, converter := f.converter } := by
  obtain ⟨type, -, h⟩ := bind_eq_ok.mp h
  exact ⟨type, (Except.ok.inj h).symm⟩

theorem mem_namesWithRole {role : String} {name : Spelling} :
    name ∈ namesWithRole fields role ↔ ∃ f ∈ fields, role ∈ f.roles ∧ f.name = name := by
  simp [namesWithRole, and_assoc]

/-- The key type of a field tells its roles. -/
theorem marked_keyType? (hnames : (fields.map (·.name)).Nodup) (hf : f ∈ fields) :
    Schema.Marked (namesWithRole fields "pk") (namesWithRole fields "sk") f.name (keyType? f) := by
  have hrole : ∀ role, .plain f.name ∈ namesWithRole fields role → role ∈ f.roles := by
    intro role h
    obtain ⟨f', hf', hmem, heq⟩ := mem_namesWithRole.mp h
    exact List.inj_on_of_nodup_map hnames hf' hf (Spelling.plain.inj heq) ▸ hmem
  unfold keyType?
  split
  next hsk => exact .range (mem_namesWithRole.mpr ⟨f, hf, by simpa using hsk, rfl⟩)
  next hsk =>
    split
    next hpk => exact .hash (mem_namesWithRole.mpr ⟨f, hf, by simpa using hpk, rfl⟩)
    next hpk =>
      exact .plain (fun h => hpk (by simpa using hrole _ h)) fun h => hsk (by simpa using hrole _ h)

/-- The fields of a type of records that its schema has. -/
def stored (t : RecordType) : List RecordField :=
  t.fields.filter (!·.ignored)

/-- Whether entries are the definitions of some fields by their names. -/
def Defines (t : RecordType) : List RecordField → List (Spelling × Definition) → Prop :=
  List.Forall₂ fun f e => e.1 = f.name ∧ t.definition f = .ok e.2

/-- The schema of a type of records is assembled from the definitions of its fields. -/
theorem exists_laid_of_schema {s : Schema} {tableName : Option Spelling}
    (h : t.schema tableName = .ok s) : ∃ definitions, t.Defines t.stored definitions ∧
      Schema.Laid (OrderedMap.ofList definitions) (namesWithRole t.stored "pk")
        (namesWithRole t.stored "sk") tableName s := by
  obtain ⟨_, -, h⟩ := bind_eq_ok.mp h
  obtain ⟨_, -, h⟩ := bind_eq_ok.mp h
  obtain ⟨definitions, hdefinitions, h⟩ := bind_eq_ok.mp h
  refine ⟨definitions, (mapM_eq_ok.mp hdefinitions).imp fun f e he => ?_,
    Schema.assemble_eq_ok.mp h⟩
  obtain ⟨d, hd, he⟩ := bind_eq_ok.mp he
  cases he
  exact ⟨rfl, hd⟩

namespace Defines

variable {definitions : List (Spelling × Definition)} {name : Spelling}

theorem exists_definition (h : t.Defines fields definitions)
    (hfind : (OrderedMap.ofList definitions).find? name = some d) :
    ∃ f ∈ fields, name = f.name ∧ t.definition f = .ok d :=
  exists_of_mem_forall₂ h (OrderedMap.mem_of_find?_ofList hfind)

theorem marked (h : t.Defines fields definitions) (hnames : (fields.map (·.name)).Nodup)
    (hfind : (OrderedMap.ofList definitions).find? name = some d) :
    Schema.Marked (namesWithRole fields "pk") (namesWithRole fields "sk") name d.keyType := by
  obtain ⟨f, hf, rfl, hd⟩ := h.exists_definition hfind
  obtain ⟨type, rfl⟩ := definition_eq_ok hd
  exact marked_keyType? hnames hf

/-- The fields that have roles are found. -/
theorem exists_find? (h : t.Defines fields definitions)
    (hmem : name ∈ namesWithRole fields "pk" ++ namesWithRole fields "sk") :
    ∃ d, (OrderedMap.ofList definitions).find? name = some d := by
  obtain ⟨f, hf, rfl⟩ : ∃ f ∈ fields, .plain f.name = name := by
    rcases List.mem_append.mp hmem with hmem | hmem <;>
      obtain ⟨f, hf, -, heq⟩ := mem_namesWithRole.mp hmem <;> exact ⟨f, hf, heq⟩
  obtain ⟨e, he, heq, -⟩ := exists_of_mem_forall₂ h.flip hf
  have hkey : .plain f.name ∈ (OrderedMap.ofList definitions).keys :=
    OrderedMap.mem_keys_ofList.mpr (heq ▸ List.mem_map_of_mem he)
  exact OrderedMap.exists_find? hkey

end Defines

theorem nodup_stored (h : (t.fields.map (·.name)).Nodup) : (t.stored.map (·.name)).Nodup :=
  h.sublist (List.filter_sublist.map _)

theorem presentable_of_schema {s : Schema} {tableName : Option Spelling} (ht : t.Plain)
    (hname : ∃ name, s.tableName = some name ∧ name ≠ "") (h : t.schema tableName = .ok s) :
    s.Presentable := by
  obtain ⟨definitions, hdefines, hlaid⟩ := exists_laid_of_schema h
  refine hlaid.presentable hname (OrderedMap.nodup_keys_ofList definitions)
    ⟨fun name d hfind => ?_, fun name d => hdefines.marked (nodup_stored ht.names),
      fun name => hdefines.exists_find?⟩
  obtain ⟨f, hf, rfl, hd⟩ := hdefines.exists_definition hfind
  obtain ⟨type, rfl⟩ := definition_eq_ok hd
  obtain ⟨hmem, hignored⟩ : f ∈ t.fields ∧ f.ignored = false := by simpa [stored] using hf
  have hnonempty : Spelling.plain f.name ≠ "" := mt Spelling.plain.inj (ht.nonempty f hmem)
  refine ⟨rfl, hnonempty, ?_, ht.converters f hmem hignored⟩
  have hne := ht.storedNames f hmem hignored
  dsimp only
  cases hname : f.storedName with
  | none => exact hnonempty
  | some name => exact fun heq => hne (hname.trans (congrArg some heq))

end RecordType

end DocTable
