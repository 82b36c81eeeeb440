import DocTable.Proofs.OrderedMap
import DocTable.Proofs.Outcome
import DocTable.Schema.Document
import DocTable.Schema.RecordType

/-! The layout of schemas: however a schema is built, no two of its fields share a name, and no two
are held by attributes of one name. -/

namespace DocTable

open Outcome

namespace Schema

/-- The schemas that can be built: from declarations of distinct fields, from a type of records, or
from the entry of a document. -/
inductive Built : Schema → Prop where
  | defined {keys : OrderedMap Spelling Spelling} {fields : OrderedMap Spelling Definition}
      {tableName : Option Spelling} {s : Schema} (names : fields.keys.Nodup)
      (h : define keys fields tableName = .ok s) : Built s
  | ofType {t : RecordType} {tableName : Option Spelling} {s : Schema}
      (h : t.schema tableName = .ok s) : Built s
  | ofDocument {doc : Value} {s : Schema} (h : Schema.ofDocument doc = .ok s) : Built s

/-- Fields with names of their own, held by attributes with names of their own. -/
structure Sound (s : Schema) : Prop where
  names : s.fields.keys.Nodup
  storedNames : (s.fields.map (·.2.storedName)).Nodup

variable {s : Schema} {fields : OrderedMap Spelling Definition}

theorem nodup_of_checkStoredNames {seen : OrderedMap Spelling Spelling}
    (h : checkStoredNames seen fields = .ok ()) :
    (fields.map (·.2.storedName)).Nodup ∧ ∀ f ∈ fields, seen.find? f.2.storedName = none := by
  induction fields generalizing seen with
  | nil => exact ⟨.nil, fun _ h => absurd h List.not_mem_nil⟩
  | cons f fields ih =>
    rw [checkStoredNames] at h
    split at h
    next => cases h
    next hnew =>
      obtain ⟨hnodup, hrest⟩ := ih h
      have hrest' : ∀ f' ∈ fields,
          f.2.storedName ≠ f'.2.storedName ∧ seen.find? f'.2.storedName = none := by
        intro f' hf'
        have hfind := hrest f' hf'
        rw [OrderedMap.find?_put] at hfind
        split at hfind
        next => cases hfind
        next hne => exact ⟨by simpa using hne, hfind⟩
      refine ⟨List.nodup_cons.mpr ⟨fun hmem => ?_, hnodup⟩,
        List.forall_mem_cons.mpr ⟨hnew, fun f' hf' => (hrest' f' hf').2⟩⟩
      obtain ⟨f', hf', heq⟩ := List.mem_map.mp hmem
      exact (hrest' f' hf').1 heq.symm

theorem sound_of_assemble {hashFields rangeFields : List Spelling} {tableName : Option Spelling}
    (hnames : fields.keys.Nodup)
    (h : assemble fields hashFields rangeFields tableName = .ok s) : s.Sound := by
  unfold assemble at h
  split at h
  next hash =>
    have h := of_not_refused (of_not_refused h)
    obtain ⟨u, hchecked, h⟩ := bind_eq_ok.mp h
    split at h
    next hashKey _ =>
      obtain ⟨_, -, h⟩ := bind_eq_ok.mp h
      obtain rfl := Except.ok.inj h
      exact ⟨hnames, (nodup_of_checkStoredNames hchecked).1⟩
    next => cases h
  next => cases h

theorem keys_of_add {done done' : KeyDeclarations} {name keyType : Value}
    (h : done.add name keyType = .ok done') : done'.fields.keys = done.fields.keys := by
  obtain ⟨role, -, h⟩ := bind_eq_ok.mp h
  split at h
  next => exact absurd h (bind_ne_ok fun _ => bind_ne_ok fun _ => nofun)
  next role =>
    split at h
    next field =>
      split at h
      next => cases h
      next d hd =>
        dsimp only at h
        split at h <;> exact Except.ok.inj h ▸ OrderedMap.keys_put_of_find? hd _
    next => exact absurd h (bind_ne_ok fun _ => nofun)

/-- What comes of going through the declarations of keys is assembled. -/
theorem exists_assemble_of_defineFrom {keys : Entries} {tableName : Option Spelling}
    (hnames : fields.keys.Nodup) (h : defineFrom keys fields tableName = .ok s) :
    ∃ fields' hashFields rangeFields, fields'.keys.Nodup ∧
      assemble fields' hashFields rangeFields tableName = .ok s := by
  obtain ⟨done, hdone, h⟩ := bind_eq_ok.mp h
  have hkeys : done.fields.keys = fields.keys :=
    of_foldlM (p := fun done => done.fields.keys = fields.keys) rfl
      (fun hb hadd => (keys_of_add hadd).trans hb) hdone
  exact ⟨done.fields, _, _, hkeys ▸ hnames, h⟩

/-- Whatever a schema is built from, it is assembled from distinct fields in the end. -/
theorem Built.exists_assemble (h : s.Built) : ∃ fields hashFields rangeFields tableName,
    fields.keys.Nodup ∧ assemble fields hashFields rangeFields tableName = .ok s := by
  cases h with
  | defined names h =>
    obtain ⟨fields, hashFields, rangeFields, hnames, h⟩ := exists_assemble_of_defineFrom names h
    exact ⟨fields, hashFields, rangeFields, _, hnames, h⟩
  | ofType h =>
    obtain ⟨_, -, h⟩ := bind_eq_ok.mp h
    obtain ⟨_, -, h⟩ := bind_eq_ok.mp h
    obtain ⟨definitions, -, h⟩ := bind_eq_ok.mp h
    exact ⟨_, _, _, _, OrderedMap.nodup_keys_ofList definitions, h⟩
  | ofDocument h =>
    obtain ⟨name, -, h⟩ := bind_eq_ok.mp h
    split at h
    next name =>
      obtain ⟨keys, -, h⟩ := bind_eq_ok.mp (of_not_refused h)
      split at h
      next =>
        obtain ⟨attributes, -, h⟩ := bind_eq_ok.mp h
        split at h
        next =>
          obtain ⟨definitions, -, h⟩ := bind_eq_ok.mp h
          obtain ⟨fields, hashFields, rangeFields, hnames, h⟩ :=
            exists_assemble_of_defineFrom (OrderedMap.nodup_keys_ofList definitions) h
          exact ⟨fields, hashFields, rangeFields, _, hnames, h⟩
        next => cases h
      next => cases h
    next => cases h

/-- **Every schema** that is built is sound. -/
theorem Built.sound (h : s.Built) : s.Sound := by
  obtain ⟨fields, hashFields, rangeFields, tableName, hnames, h⟩ := h.exists_assemble
  exact sound_of_assemble hnames h

end Schema

end DocTable
