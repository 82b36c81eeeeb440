import DocTable.Proofs.Schema.Presentable

/-! The key fields of schemas. Whatever a schema is made of, they are fields of its own, marked with
their roles, and they are what is shown as its key. -/

namespace DocTable

open Outcome

namespace Schema

variable {s : Schema} {fields : OrderedMap Spelling Definition}
  {hashFields rangeFields : List Spelling}
  {tableName : Option Spelling} {roles : List (Spelling × KeyRole)}

/-- A schema whose key fields are different ones of its own, each marked with its role, and shown in
this order as the key. -/
structure Keyed (s : Schema) : Prop where
  sound : s.Sound
  key : ∃ hash, s.fields.find? hash = some s.hashKey ∧ s.hashKey.keyType = some "HASH" ∧
    ∀ d, s.rangeKey = some d →
      ∃ range, range ≠ hash ∧ s.fields.find? range = some d ∧ d.keyType = some "RANGE"
  keySchema : s.keySchema.map (·.1) =
    s.hashKey.storedName :: s.rangeKey.toList.map (·.storedName)
  attributeDefinitions : s.attributeDefinitions.map (·.1) = s.keySchema.map (·.1)

/-- Every name of a key is that of a field which is marked so. -/
def KeysMarked (fields : OrderedMap Spelling Definition) (hashFields rangeFields : List Spelling) :
    Prop :=
  ∀ name ∈ hashFields ++ rangeFields, ∃ d, fields.find? name = some d ∧
    Marked hashFields rangeFields name d.keyType

theorem Laid.keyed (h : Laid fields hashFields rangeFields tableName s)
    (hnames : fields.keys.Nodup) (hmarked : KeysMarked fields hashFields rangeFields) :
    s.Keyed := by
  obtain ⟨hash, rfl, hother, hhash⟩ := h.hash
  have hfields : s.fields = fields := by rw [h.eq]
  have hrangeKey : s.rangeKey = rangeFields.head?.bind fields.find? := by rw [h.eq]
  have hfind : ∀ {name d}, name ∈ [hash] ++ rangeFields → fields.find? name = some d →
      Marked [hash] rangeFields name d.keyType := by
    intro name d hmem hd
    obtain ⟨d', hd', hmark⟩ := hmarked name hmem
    obtain rfl := Option.some.inj (hd'.symm.trans hd)
    exact hmark
  refine ⟨⟨hfields ▸ hnames, hfields ▸ h.storedNames⟩, ⟨hash, hfields ▸ hhash, ?_, ?_⟩, ?_, ?_⟩
  · have hmark := hfind List.mem_cons_self hhash
    generalize s.hashKey.keyType = keyType at hmark
    cases hmark with
    | plain hnoHash => exact absurd (List.mem_singleton_self hash) hnoHash
    | hash => rfl
    | range hrange => exact absurd hrange hother
  · intro d hd
    obtain ⟨range, hrange, hd⟩ := Option.bind_eq_some_iff.mp (hrangeKey.symm.trans hd)
    have hmem : range ∈ rangeFields := List.mem_of_head? hrange
    have hne : range ≠ hash := fun heq => hother (heq ▸ hmem)
    refine ⟨range, hne, hfields ▸ hd, ?_⟩
    have hmark := hfind (List.mem_cons_of_mem _ hmem) hd
    generalize d.keyType = keyType at hmark
    cases hmark with
    | plain _ hnoRange => exact absurd hmem hnoRange
    | hash hhash => exact absurd (List.mem_singleton.mp hhash) hne
    | range => rfl
  · simp [keySchema, keyFields, Function.comp_def]
  · simp [keySchema, attributeDefinitions, Function.comp_def]

/-- The fields that are declared in roles are marked with them. -/
theorem keysMarked_mark (hdeclared : ∀ r ∈ roles, r.1 ∈ fields.keys) :
    KeysMarked (mark roles fields) (namesOf roles .hash) (namesOf roles .range) := by
  intro name hname
  obtain ⟨d, hd⟩ := exists_find?_mark hdeclared hname
  obtain ⟨d₀, -, rfl⟩ := Option.map_eq_some_iff.mp ((find?_mark ..).symm.trans hd)
  exact ⟨_, hd, marked_inRole (.inr (mem_namesOf_append.mp hname))⟩

theorem keyed_of_defineFrom {entries : Entries} (hnames : fields.keys.Nodup)
    (h : defineFrom entries fields tableName = .ok s) : s.Keyed := by
  obtain ⟨roles, -, hdeclared, hlaid⟩ := (defineFrom_eq_ok hnames).mp h
  exact hlaid.keyed (by rwa [keys_mark]) (keysMarked_mark hdeclared)

theorem keyed_of_ofDocument {doc : Value} (h : ofDocument doc = .ok s) : s.Keyed := by
  obtain ⟨members, name, keys, entries, fields, -, -, -, h⟩ := ofDocument_eq_ok.mp h
  exact keyed_of_defineFrom (OrderedMap.nodup_keys_ofList fields) h

end Schema

namespace RecordType

theorem keyed_of_schema {t : RecordType} {tableName : Option Spelling} {s : Schema}
    (hnames : (t.fields.map (·.name)).Nodup) (h : t.schema tableName = .ok s) : s.Keyed := by
  obtain ⟨definitions, hdefines, hlaid⟩ := exists_laid_of_schema h
  refine hlaid.keyed (OrderedMap.nodup_keys_ofList definitions) fun name hmem => ?_
  obtain ⟨d, hd⟩ := hdefines.exists_find? hmem
  exact ⟨d, hd, hdefines.marked (nodup_stored hnames) hd⟩

end RecordType

namespace Schema

/-- **Exactly the valid layouts make schemas**, and all else is refused as a bad layout. However a
schema is made, from declarations, from a type of records or from the entry of a document, its key
fields are its own and marked as keys, and its key is shown with these, the hash key first. -/
theorem declares_validLayouts :
    (∀ (keys : OrderedMap Spelling Spelling) (declared : OrderedMap Spelling FieldDeclaration)
        tableName,
      keys.keys.Nodup → declared.keys.Nodup →
        ((∃ s, declare keys declared tableName = .ok s) ↔ ValidLayout keys (resolve declared)) ∧
        (∀ f, declare keys declared tableName = .error f → f.kind = "SchemaDefinitionError") ∧
        ∀ s, declare keys declared tableName = .ok s → s.Keyed) ∧
    (∀ (t : RecordType) tableName s, (t.fields.map (·.name)).Nodup →
      t.schema tableName = .ok s → s.Keyed) ∧
    ∀ doc s, ofDocument doc = .ok s → s.Keyed := by
  refine ⟨fun keys declared tableName hkeys hdeclared => ?_,
    fun t tableName s hnames => RecordType.keyed_of_schema hnames, fun doc s => keyed_of_ofDocument⟩
  have hnames : (resolve declared).keys.Nodup := by
    simpa [resolve, OrderedMap.keys, Function.comp_def] using hdeclared
  refine ⟨exists_define_iff hkeys hnames, fun f hf => ?_, fun s => keyed_of_defineFrom hnames⟩
  obtain ⟨fault, rfl⟩ := fails_define keys f hf
  rfl

/-- The fields of a table of guests. -/
def guestFields : OrderedMap Spelling FieldDeclaration :=
  [("room", .code "N"),
    ("night", .definition { fieldName := "night", storedName := "n", type := "S" }),
    ("names", .code "SS")]

def guestType : RecordType where
  fields := [{ name := "room", typeText := "int", roles := ["pk"] },
    { name := "night", typeText := "str", roles := ["sk"] }]

def guestDocument : Value :=
  .map [(.text "name", .text "guests"), (.text "keys", .map [(.text "room", .text "HASH")]),
    (.text "attributes", .list [.map [(.text "field", .text "room"), (.text "type", .text "N")]])]

theorem declares_validLayouts_guests :
    (∃ s, declare [("night", "RANGE"), ("room", "HASH")] guestFields (some "guests") = .ok s ∧
      s.Keyed) ∧
    (∃ f, declare [("names", "HASH")] guestFields = .error f ∧
      f.kind = "SchemaDefinitionError") ∧
    (∃ s, guestType.schema (some "guests") = .ok s ∧ s.Keyed) ∧
    ∃ s, ofDocument guestDocument = .ok s ∧ s.Keyed := by
  obtain ⟨hdeclare, htype, hdocument⟩ := declares_validLayouts
  have hvalid : ValidLayout [("night", "RANGE"), ("room", "HASH")] (resolve guestFields) := by
    refine ⟨by decide, by decide, by decide, by decide, by decide, by decide, ?_⟩
    simp [resolve, guestFields, FieldDeclaration.resolve, OrderedMap.find?]
  obtain ⟨hiff, -, hkeyed⟩ := hdeclare [("night", "RANGE"), ("room", "HASH")] guestFields
    (some "guests") (by decide) (by decide)
  obtain ⟨-, hkind, -⟩ := hdeclare [("names", "HASH")] guestFields none (by decide) (by decide)
  obtain ⟨s, hs⟩ := hiff.mpr hvalid
  obtain ⟨f, hf⟩ : ∃ f, declare [("names", "HASH")] guestFields = .error f := ⟨_, rfl⟩
  obtain ⟨t, ht⟩ : ∃ t, guestType.schema (some "guests") = .ok t := exists_of_isOk rfl
  obtain ⟨u, hu⟩ : ∃ u, ofDocument guestDocument = .ok u :=
    exists_of_isOk (by with_unfolding_all rfl)
  exact ⟨⟨s, hs, hkeyed s hs⟩, ⟨f, hf, hkind f hf⟩, ⟨t, ht, htype _ _ t (by decide) ht⟩,
    u, hu, hdocument _ u hu⟩

end Schema

end DocTable
