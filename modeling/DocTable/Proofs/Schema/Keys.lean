import DocTable.Proofs.Schema.RoundTrip

/-! Keys of schemas. What a schema is assembled from makes a valid layout; its key fields are among
its fields, under the names that were declared as keys. -/

namespace DocTable

open Outcome

namespace Schema

variable {s : Schema} {fields : OrderedMap Spelling Definition}
  {hashFields rangeFields : List Spelling}
  {tableName : Option Spelling} {name : Spelling} {d : Definition}

theorem checkStoredNames_eq_ok {seen : OrderedMap Spelling Spelling} :
    checkStoredNames seen fields = .ok () ↔
      (fields.map (·.2.storedName)).Nodup ∧ ∀ f ∈ fields, seen.find? f.2.storedName = none := by
  refine ⟨nodup_of_checkStoredNames, ?_⟩
  rintro ⟨hnodup, hnew⟩
  induction fields generalizing seen with
  | nil => rfl
  | cons f fields ih =>
    obtain ⟨hfirst, hrest⟩ := List.forall_mem_cons.mp hnew
    obtain ⟨hother, hnodup⟩ := List.nodup_cons.mp hnodup
    rw [checkStoredNames, hfirst]
    refine ih hnodup fun f' hf' => ?_
    have hne : f.2.storedName ≠ f'.2.storedName := fun heq =>
      hother (List.mem_map.mpr ⟨f', hf', heq.symm⟩)
    rw [OrderedMap.find?_put, if_neg (by simpa using hne)]
    exact hrest f' hf'

/-- Types that fields, and those of keys that keys, can have. -/
structure Typed (s : Schema) : Prop where
  fields : ∀ f ∈ s.fields, Tag.isDeclarable f.2.type = true
  keys : ∀ k ∈ s.keyFields, k.2.canBeKey = true

theorem checkTypes_eq_ok : s.checkTypes = .ok () ↔ s.Typed := by
  unfold checkTypes
  constructor
  · intro h
    obtain ⟨_, hfields, hkeys⟩ := bind_eq_ok.mp h
    exact ⟨fun f hf => check_eq_ok.mp (forM_eq_ok.mp hfields f hf),
      fun k hk => check_eq_ok.mp (forM_eq_ok.mp hkeys k hk)⟩
  · rintro ⟨hfields, hkeys⟩
    exact bind_eq_ok.mpr ⟨(), forM_eq_ok.mpr fun f hf => check_eq_ok.mpr (hfields f hf),
      forM_eq_ok.mpr fun k hk => check_eq_ok.mpr (hkeys k hk)⟩

theorem ofParts_eq_ok {hashKey : Definition} {rangeKey : Option Definition} :
    ofParts fields hashKey rangeKey tableName = .ok s ↔
      s = ⟨fields, hashKey, rangeKey, tableName⟩ ∧ s.Typed := by
  rw [ofParts, bind_eq_ok]
  constructor
  · rintro ⟨_, hparts, h⟩
    obtain rfl := Except.ok.inj h
    exact ⟨rfl, checkTypes_eq_ok.mp hparts⟩
  · rintro ⟨rfl, htyped⟩
    exact ⟨(), checkTypes_eq_ok.mpr htyped, rfl⟩

/-- What makes a valid layout: fields whose stored names differ, one hash key among them and at most
one range key that is not the same. -/
structure Laid (fields : OrderedMap Spelling Definition) (hashFields rangeFields : List Spelling)
    (tableName : Option Spelling) (s : Schema) : Prop where
  storedNames : (fields.map (·.2.storedName)).Nodup
  hash : ∃ hash, hashFields = [hash] ∧ hash ∉ rangeFields ∧ fields.find? hash = some s.hashKey
  range : rangeFields.length ≤ 1
  eq : s = ⟨fields, s.hashKey, rangeFields.head?.bind fields.find?, tableName⟩
  typed : s.Typed

theorem assemble_eq_ok :
    assemble fields hashFields rangeFields tableName = .ok s ↔
      Laid fields hashFields rangeFields tableName s := by
  unfold assemble
  constructor
  · intro h
    split at h
    next hash =>
      obtain ⟨hrange, h⟩ := unless_eq_ok.mp h
      obtain ⟨hother, h⟩ := unless_eq_ok.mp h
      obtain ⟨_, hstored, h⟩ := bind_eq_ok.mp h
      split at h
      next hashKey hfind =>
        obtain ⟨rfl, htyped⟩ := ofParts_eq_ok.mp h
        exact ⟨(checkStoredNames_eq_ok.mp hstored).1, ⟨hash, rfl, by simpa using hother, hfind⟩,
          by omega, rfl, htyped⟩
      next => cases h
    next => cases h
  · rintro ⟨hstored, ⟨hash, rfl, hother, hfind⟩, hrange, heq, htyped⟩
    refine unless_eq_ok.mpr ⟨by omega, unless_eq_ok.mpr ⟨by simpa using hother, ?_⟩⟩
    refine bind_eq_ok.mpr ⟨(), checkStoredNames_eq_ok.mpr ⟨hstored, fun _ _ => rfl⟩, ?_⟩
    rw [hfind]
    exact ofParts_eq_ok.mpr ⟨heq, htyped⟩

theorem mem_keyFields {k : KeyRole × Definition} :
    k ∈ s.keyFields ↔ k = (.hash, s.hashKey) ∨ ∃ d, s.rangeKey = some d ∧ k = (.range, d) := by
  simp [keyFields, eq_comm]

/-- A key field is among the fields. -/
theorem Laid.exists_find? (h : Laid fields hashFields rangeFields tableName s)
    {k : KeyRole × Definition} (hk : k ∈ s.keyFields) : ∃ name, s.fields.find? name = some k.2 := by
  obtain ⟨hash, -, -, hfind⟩ := h.hash
  have hfields : s.fields = fields := by rw [h.eq]
  have hrange : s.rangeKey = rangeFields.head?.bind fields.find? := by rw [h.eq]
  rcases mem_keyFields.mp hk with rfl | ⟨d, hd, rfl⟩
  · exact ⟨hash, hfields ▸ hfind⟩
  · obtain ⟨name, -, hfind⟩ := Option.bind_eq_some_iff.mp (hrange.symm.trans hd)
    exact ⟨name, hfields ▸ hfind⟩

theorem Built.exists_find? (h : s.Built) {k : KeyRole × Definition} (hk : k ∈ s.keyFields) :
    ∃ name, s.fields.find? name = some k.2 := by
  obtain ⟨fields, hashFields, rangeFields, tableName, -, h⟩ := h.exists_assemble
  exact (assemble_eq_ok.mp h).exists_find? hk

theorem Built.typed (h : s.Built) : s.Typed := by
  obtain ⟨fields, hashFields, rangeFields, tableName, -, h⟩ := h.exists_assemble
  exact (assemble_eq_ok.mp h).typed

/-- The key fields are held by attributes with names of their own. -/
theorem Built.nodup_keyFields (h : s.Built) : (s.keyFields.map (·.2.storedName)).Nodup := by
  obtain ⟨fields, hashFields, rangeFields, tableName, -, hassemble⟩ := h.exists_assemble
  have hlaid := assemble_eq_ok.mp hassemble
  obtain ⟨hash, -, hother, hfindHash⟩ := hlaid.hash
  have hfields : s.fields = fields := by rw [hlaid.eq]
  have hrange : s.rangeKey = rangeFields.head?.bind fields.find? := by rw [hlaid.eq]
  refine List.nodup_cons.mpr ⟨fun hmem => ?_, ?_⟩
  · obtain ⟨k, hk, hstored⟩ := List.mem_map.mp hmem
    obtain ⟨d, hd, rfl⟩ := List.mem_map.mp hk
    obtain ⟨name, hname, hfind⟩ :=
      Option.bind_eq_some_iff.mp (hrange.symm.trans (Option.mem_toList.mp hd))
    have heq := h.sound.eq_of_storedName (OrderedMap.mem_of_find? (hfields ▸ hfind))
      (OrderedMap.mem_of_find? (hfields ▸ hfindHash)) hstored
    exact hother ((Prod.mk.inj heq).1 ▸ List.mem_of_head? hname)
  · cases s.rangeKey <;> simp

/-- The names by which the key is shown are those that its fields give themselves. -/
theorem mem_keys_keys : name ∈ s.keys.keys ↔ ∃ k ∈ s.keyFields, k.2.fieldName = name := by
  rw [keys, OrderedMap.mem_keys_ofList]
  simp

end Schema

end DocTable
