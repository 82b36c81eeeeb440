import DocTable.Proofs.Field.Writing
import DocTable.Schema.Records

/-! What an item is written of: the values of the fields that have one, under the names by which
the fields are held. Of two values under one name the last one is held. -/

namespace DocTable.Schema

open Outcome

/-- A value of a record, by the name that its key stands for. -/
def namedValue (e : Value × Value) : Outcome (Spelling × Value) := do
  return (← e.1.spelled, e.2)

/-- The values of a record, by name. -/
def valuesOf (s : Schema) (record : Value) : Outcome (List (Spelling × Value)) := do
  (← s.entriesOf record).mapM namedValue

/-- What a value of a record is written as: under the name that its field is held by, by that field;
not at all if it is absent. -/
def slot? (s : Schema) (e : Spelling × Value) : Option (Spelling × Definition × Value) :=
  if e.2.isAbsent then none
  else (s.fields.find? e.1).map fun d => (d.storedName, d, e.2)

/-- The values that are written, with their fields, by the names under which they are held. -/
def written (s : Schema) (values : List (Spelling × Value)) :
    OrderedMap Spelling (Definition × Value) :=
  .ofList (values.filterMap s.slot?)

variable {s : Schema} {values : List (Spelling × Value)} {item : Item} {record : Value}

theorem exists_of_mem_written {r : Spelling × Definition × Value} (h : r ∈ s.written values) :
    ∃ name, (name, r.2.2) ∈ values ∧ r.2.2.isAbsent = false ∧
      s.fields.find? name = some r.2.1 ∧ r.2.1.storedName = r.1 := by
  obtain ⟨e, he, hslot⟩ := List.mem_filterMap.mp (OrderedMap.mem_of_mem_ofList h)
  unfold slot? at hslot
  split at hslot
  next => cases hslot
  next habsent =>
    obtain ⟨d, hd, hr⟩ := Option.map_eq_some_iff.mp hslot
    obtain rfl : (d.storedName, d, e.2) = r := hr
    exact ⟨e.1, he, by simpa using habsent, hd, rfl⟩

theorem writeField_eq_ok {e : Spelling × Value} {item' : Item} :
    s.writeField item e.1 e.2 = .ok item' ↔ ∃ d, s.fields.find? e.1 = some d ∧
      (e.2.isAbsent = true ∧ item' = item ∨
        e.2.isAbsent = false ∧ ∃ a, d.encode e.2 = .ok a ∧ item' = item.put d.storedName a) := by
  rw [writeField, field]
  cases s.fields.find? e.1 with
  | none => exact ⟨nofun, nofun⟩
  | some d =>
    simp only [Option.some.injEq, exists_eq_left']
    show (if e.2.isAbsent = true then _ else d.encode e.2 >>= _) = _ ↔ _
    cases e.2.isAbsent with
    | true => simp [eq_comm]
    | false =>
      rw [if_neg Bool.false_ne_true, bind_eq_ok]
      simp [pure, Except.pure, eq_comm]

/-- Each attribute of an item is what the field that is held under its name writes. -/
theorem forall₂_of_foldlM_writeField {before : OrderedMap Spelling (Definition × Value)}
    (hbefore : List.Forall₂ (OrderedMap.Alike fun p a => p.1.encode p.2 = .ok a) before item)
    {item' : Item}
    (h : values.foldlM (fun item (name, v) => s.writeField item name v) item = .ok item') :
    List.Forall₂ (OrderedMap.Alike fun p a => p.1.encode p.2 = .ok a)
      (before.overlay (values.filterMap s.slot?)) item' := by
  induction values generalizing before item with
  | nil => exact Except.ok.inj h ▸ hbefore
  | cons e values ih =>
    rw [List.foldlM_cons, bind_eq_ok] at h
    obtain ⟨next, hnext, h⟩ := h
    rw [List.filterMap_cons, slot?]
    obtain ⟨d, hd, ⟨habsent, rfl⟩ | ⟨habsent, a, ha, rfl⟩⟩ := writeField_eq_ok.mp hnext
    · rw [if_pos habsent]
      exact ih hbefore h
    · rw [if_neg (by simp [habsent]), hd]
      exact ih (OrderedMap.forall₂_put hbefore ha d.storedName) h

/-- **Items** hold what the fields of the record write. -/
theorem exists_of_encode (h : s.encode record = .ok item) :
    ∃ values, s.valuesOf record = .ok values ∧
      List.Forall₂ (OrderedMap.Alike fun p a => p.1.encode p.2 = .ok a)
        (s.written values) item := by
  obtain ⟨entries, hentries, h⟩ := bind_eq_ok.mp h
  have hstep : (fun item (e : Value × Value) => do s.writeField item (← e.1.spelled) e.2) =
      fun item e => namedValue e >>= fun e => s.writeField item e.1 e.2 := by
    funext item e
    unfold namedValue
    cases e.1.spelled <;> rfl
  obtain ⟨values, hvalues, h⟩ := foldlM_bind_eq_ok.mp ((congrArg (entries.foldlM · []) hstep) ▸ h)
  exact ⟨values, bind_eq_ok.mpr ⟨entries, hentries, hvalues⟩, forall₂_of_foldlM_writeField .nil h⟩

end DocTable.Schema
