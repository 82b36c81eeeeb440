import DocTable.Proofs.Schema.Documents

/-! What becomes of the entries of a table. The fields that they declare are put under their names,
so of entries for one field only the last one counts: a schema has a field for each entry, and shows
each, if no two are for the same field. The name of the table and its keys come back in any case. -/

namespace DocTable

open Outcome

namespace Document

/-- Entries that declare the same field. -/
def Equivalent (entry entry' : Value) : Prop :=
  ∃ field, Declares entry field ∧ Declares entry' field

variable {entry : Value} {field field' : Spelling × Definition} {entries shown : List Value}
  {fields : List (Spelling × Definition)} {name : Spelling} {d : Definition}

theorem Declares.unique (h : Declares entry field) (h' : Declares entry field') :
    field = field' := by
  have hread : definition "" 0 entry = .ok field := definition_eq_ok.mpr h
  exact Except.ok.inj (hread.symm.trans (definition_eq_ok.mpr h'))

/-- Entries that declare some fields are equivalent to those that declare the same ones. -/
theorem forall₂_equivalent_iff (h : List.Forall₂ Declares entries fields) :
    List.Forall₂ Equivalent entries shown ↔ List.Forall₂ Declares shown fields := by
  constructor
  · intro hequivalent
    refine forall₂_trans hequivalent.flip h ?_
    rintro shown entry field ⟨field', hentry, hshown⟩ hfield
    exact hentry.unique hfield ▸ hshown
  · intro hshown
    exact forall₂_trans h hshown.flip fun _ field _ hentry hshown => ⟨field, hentry, hshown⟩

/-- A field that is declared, which has not been declared to be a key yet. -/
structure Fresh (name : Spelling) (d : Definition) : Prop where
  fieldName : d.fieldName = name
  name : name ≠ ""
  type : d.type ≠ ""
  keyType : d.keyType = none
  converter : d.converter = none

theorem Declares.fresh (h : Declares entry (name, d)) : Fresh name d := by
  cases h with
  | intro head stores => exact ⟨rfl, head.named_ne, head.type_ne, rfl, rfl⟩

/-- What shows a field declares it as far as it has a stored name. -/
theorem declares_fieldDocument_iff (h : Fresh name d.undeclared) :
    Declares (Schema.fieldDocument name d) (name, d.undeclared) ↔ d.storedName ≠ "" := by
  have hdeclares := declares_fieldDocument (d := d) h.fieldName h.converter h.name h.type
  constructor
  · intro hsame hempty
    have hname := congrArg (·.2.storedName) (hdeclares.unique hsame)
    rw [if_pos hempty] at hname
    exact h.name (hname.trans hempty)
  · intro hsome
    rwa [if_neg hsome] at hdeclares

end Document

namespace Schema

/-- Whether a schema has one field for each of some entries, in their order, as it is declared
there. -/
def Holds (s : Schema) (entries : List Value) : Prop :=
  List.Forall₂ (fun entry f => Document.Declares entry (f.1, f.2.undeclared)) entries s.fields

variable {s : Schema} {entries : List Value} {fields : List (Spelling × Definition)}
  {name : Spelling}
  {roles : List (Spelling × KeyRole)}

/-! ## Fields -/

/-- Of a field that was not declared to be a key, only the role is left out again. -/
theorem undeclared_inRole {d : Definition} (h : d.keyType = none) (role? : Option KeyRole) :
    (d.inRole role?).undeclared = d := by
  obtain ⟨fieldName, storedName, type, keyType, json, converter⟩ := d
  obtain rfl : keyType = none := h
  cases role? <;> rfl

theorem undeclared_mark {fields : OrderedMap Spelling Definition}
    (h : ∀ f ∈ fields, f.2.keyType = none) :
    (mark roles fields).map (Prod.map id Definition.undeclared) = fields := by
  rw [mark, List.map_map]
  refine (List.map_congr_left fun f hf => ?_).trans (List.map_id _)
  exact Prod.ext rfl (undeclared_inRole (h f hf) _)

/-- A schema holds some entries if no two of them are for the same field. -/
theorem holds_iff (hentries : List.Forall₂ Document.Declares entries fields)
    (hfields : s.fields.map (Prod.map id Definition.undeclared) = OrderedMap.ofList fields) :
    s.Holds entries ↔ (fields.map (·.1)).Nodup := by
  have hholds : s.Holds entries ↔
      List.Forall₂ Document.Declares entries (OrderedMap.ofList fields) := by
    rw [← hfields, List.forall₂_map_right_iff]
    rfl
  rw [hholds]
  constructor
  · intro h
    have heq : fields = OrderedMap.ofList fields :=
      List.right_unique_forall₂' (R := Document.Declares) (fun _ _ _ h h' => h.unique h') hentries h
    rw [heq]
    exact OrderedMap.nodup_keys_ofList fields
  · intro hnames
    rwa [OrderedMap.ofList_of_distinct (OrderedMap.distinct_iff_nodup.mpr hnames)]

/-! ## Keys -/

/-- Roles, those of hash keys first. -/
theorem perm_roles (roles : List (Spelling × KeyRole)) : roles.Perm
    ((namesOf roles .hash).map (·, KeyRole.hash) ++ (namesOf roles .range).map (·, .range)) := by
  have hrole : ∀ role, (namesOf roles role).map (·, role) = roles.filter (·.2 = role) := by
    intro role
    rw [namesOf, List.map_map]
    refine (List.map_congr_left fun r hr => ?_).trans (List.map_id _)
    exact Prod.ext rfl (of_decide_eq_true (List.mem_filter.mp hr).2).symm
  have hrange : roles.filter (·.2 = .range) = roles.filter fun r => !decide (r.2 = .hash) := by
    refine List.filter_congr fun r _ => ?_
    cases r.2 <;> rfl
  rw [hrole, hrole, hrange]
  exact (List.filter_append_perm _ roles).symm

/-- The key that is shown of a layout has the declarations of the roles, in some order. -/
theorem Laid.perm_keys {fields : OrderedMap Spelling Definition} {tableName : Option Spelling}
    (h : Laid (mark roles fields) (namesOf roles .hash) (namesOf roles .range) tableName s)
    (hnamed : ∀ f ∈ s.fields, f.2.fieldName = f.1) (hdeclared : ∀ r ∈ roles, r.1 ∈ fields.keys) :
    (declarations roles).Perm (s.keys.map fun k => (.text k.1, .text k.2)) := by
  have hfields : s.fields = mark roles fields := by rw [h.eq]
  rw [h.keys_eq (fun name d hfind => hnamed _ (hfields ▸ OrderedMap.mem_of_find? hfind)) fun name =>
    exists_find?_mark hdeclared]
  refine ((perm_roles roles).map fun r => (Value.text r.1, Value.text r.2.code)).trans (.of_eq ?_)
  simp only [List.map_append, List.map_map]
  rfl

/-! ## Entries of tables -/

/-- **What comes back of an entry of a table**: its name and its keys; and each of the entries of
its fields, one for one, as far as these are for different fields. -/
theorem ofDocument_shows {doc : Value} (h : ofDocument doc = .ok s) :
    ∃ members name keys entries fields shownKeys shownEntries, doc = .map members ∧
      Document.Formed members name keys entries ∧
      List.Forall₂ Document.Declares entries fields ∧
      s.toDocument = .map [(.text "name", .text name), (.text "keys", .map shownKeys),
        (.text "attributes", .list shownEntries)] ∧
      keys.Perm shownKeys ∧
      (s.Holds entries ∧ List.Forall₂ Document.Equivalent entries shownEntries ↔
        (fields.map (·.1)).Nodup ∧ ∀ f ∈ fields, f.2.storedName ≠ "") := by
  obtain ⟨members, name, keys, entries, fields, rfl, hformed, hentries, h⟩ := ofDocument_eq_ok.mp h
  obtain ⟨roles, rfl, hdeclared, hlaid⟩ :=
    (defineFrom_eq_ok (OrderedMap.nodup_keys_ofList fields)).mp h
  have hfresh : ∀ f ∈ OrderedMap.ofList fields, Document.Fresh f.1 f.2 := by
    intro f hf
    have hmem : f ∈ fields := OrderedMap.mem_of_find?_ofList (OrderedMap.find?_of_mem
      (OrderedMap.distinct_iff_nodup.mpr (OrderedMap.nodup_keys_ofList fields))
      (beq_self_eq_true _) hf)
    obtain ⟨entry, -, hentry⟩ := exists_of_mem_forall₂ hentries hmem
    exact hentry.fresh
  have hfields : s.fields.map (Prod.map id Definition.undeclared) = OrderedMap.ofList fields := by
    rw [hlaid.eq]
    exact undeclared_mark fun f hf => (hfresh f hf).keyType
  have hfresh' : ∀ f ∈ s.fields, Document.Fresh f.1 f.2.undeclared := fun f hf =>
    hfresh _ (hfields ▸ List.mem_map_of_mem hf)
  refine ⟨members, name, _, entries, fields, _, _, rfl, hformed, hentries,
    toDocument_of_named (by rw [hlaid.eq]) hformed.named_ne,
    hlaid.perm_keys (fun f hf => (hfresh' f hf).fieldName) hdeclared, ?_⟩
  rw [holds_iff hentries hfields, Document.forall₂_equivalent_iff hentries]
  refine and_congr_right fun hnames => ?_
  have heq : s.fields.map (Prod.map id Definition.undeclared) = fields :=
    hfields.trans (OrderedMap.ofList_of_distinct (OrderedMap.distinct_iff_nodup.mpr hnames))
  rw [← heq, List.forall₂_map_left_iff, List.forall₂_map_right_iff, List.forall₂_same,
    List.forall_mem_map]
  exact forall₂_congr fun f hf => Document.declares_fieldDocument_iff (hfresh' f hf)

/-- The entry of a table of players with the entries of some fields. -/
def playersEntry (entries : List Value) : Entries :=
  [(.text "name", .text "players"), (.text "keys", .map [(.text "id", .text "HASH")]),
    (.text "attributes", .list entries)]

/-- The entries for the key of players and for their number. -/
def playersFields (type : String) : List Value :=
  [.map [(.text "field", .text "id"), (.text "type", .text "S"), (.text "attribute", .text "pk")],
    .map [(.text "field", .text "number"), (.text "type", .text type)]]

theorem formed_playersEntry {entries : List Value} (h : entries ≠ []) :
    Document.Formed (playersEntry entries) "players" [(.text "id", .text "HASH")] entries :=
  ⟨by with_unfolding_all rfl, by decide, by with_unfolding_all rfl, List.cons_ne_nil _ _,
    by with_unfolding_all rfl, h⟩

theorem players_shows : ∃ s shownKeys shownEntries,
    ofDocument (.map (playersEntry (playersFields "N"))) = .ok s ∧
      s.Holds (playersFields "N") ∧
      s.toDocument = .map [(.text "name", .text "players"), (.text "keys", .map shownKeys),
        (.text "attributes", .list shownEntries)] ∧
      [(.text "id", .text "HASH")].Perm shownKeys ∧
      List.Forall₂ Document.Equivalent (playersFields "N") shownEntries := by
  obtain ⟨s, hs⟩ : ∃ s, ofDocument (.map (playersEntry (playersFields "N"))) = .ok s :=
    exists_of_isOk (by decide +kernel)
  obtain ⟨members, name, keys, entries, fields, shownKeys, shownEntries, hdoc, hformed, hentries,
    hshown, hkeys, hiff⟩ := ofDocument_shows hs
  obtain rfl := Value.map.inj hdoc
  obtain ⟨rfl, rfl, rfl⟩ := (formed_playersEntry (List.cons_ne_nil _ _)).unique hformed
  have hread : Document.definitions "players" 0 (playersFields "N") = .ok [
      ("id", { fieldName := "id", storedName := "pk", type := "S" }),
      ("number", { fieldName := "number", storedName := "number", type := "N" })] := by
    with_unfolding_all rfl
  obtain rfl := List.right_unique_forall₂' (R := Document.Declares) (fun _ _ _ h h' => h.unique h')
    (Document.definitions_eq_ok.mp hread) hentries
  obtain ⟨hholds, hequivalent⟩ := hiff.mpr ⟨by decide, by decide⟩
  exact ⟨s, shownKeys, shownEntries, hs, hholds, hshown, hkeys, hequivalent⟩

/-- So a schema does not have a field for each entry: not if two of them are for the number. -/
theorem exists_lost_entry : ¬ ∀ doc s, ofDocument doc = .ok s →
    ∃ members name keys entries, doc = .map members ∧
      Document.Formed members name keys entries ∧ s.Holds entries := by
  intro h
  let entries := playersFields "N" ++ (playersFields "S").tail
  have hcount : (ofDocument (.map (playersEntry entries))).map (·.fields.length) = .ok 2 := by
    with_unfolding_all rfl
  obtain ⟨s, hs, hlength⟩ := map_eq_ok.mp hcount
  obtain ⟨members, name, keys, entries', hdoc, hformed, hholds⟩ := h _ s hs
  obtain rfl := Value.map.inj hdoc
  obtain ⟨-, -, rfl⟩ := (formed_playersEntry (List.cons_ne_nil _ _)).unique hformed
  exact absurd (hholds.length_eq.trans hlength) (by decide)

end Schema

end DocTable
