import DocTable.Proofs.Condition.Translation
import DocTable.Proofs.Update.Flattening
import DocTable.Update.Translation

/-! Translation of updates. A document is translated by translating what it flattens to, change by
change: each becomes the update of the attribute of its field. A change is refused because of its
field, because of its operand, or because another one is to the same attribute. -/

namespace DocTable

/-- The types under which sets are held. -/
def setTypes : List String :=
  ["SS", "NS", "BS"]

theorem Definition.holdsSet_iff {d : Definition} : d.holdsSet = true ↔ d.heldType ∈ setTypes := by
  simp [holdsSet, setTypes, or_assoc]

theorem Definition.addable_iff {d : Definition} :
    d.addable = true ↔ d.heldType ∈ "N" :: setTypes := by
  rw [addable, Bool.or_eq_true, holdsSet_iff, decide_eq_true_eq, List.mem_cons, or_comm]

namespace Change

variable {fields : Fields} {keyFields : List Spelling} {d : Definition} {c : Change}
  {r : Spelling × StoredUpdate} {u : StoredUpdate} {changes : List Change}
  {done out : StoredUpdates}

/-! ## One change -/

/-- Whether an operand goes with a change. One goes with every change but a deletion; with that, if
members are deleted from a set and the operand tells which. -/
def Carries (c : Change) (d : Definition) : Prop :=
  c.kind = .delete → d.heldType ∈ setTypes ∧ c.operand ≠ .null

/-- The field that a change is to. -/
def target? (fields : Fields) (c : Change) : Option Definition :=
  match c.field with
  | .text name => fields.find? name
  | _ => none

/-- A change that can be made by itself, to a field. -/
structure Allowed (fields : Fields) (keyFields : List Spelling) (c : Change) (d : Definition) :
    Prop where
  target : c.target? fields = some d
  noKey : ∀ name ∈ keyFields, c.field ≠ .text name
  addable : c.kind = .add → d.heldType ∈ "N" :: setTypes
  operand : c.Carries d → ∃ a, d.encode c.operand = .ok a

/-- What a change to a field is stored as: its kind, with the attribute value of the operand if one
goes with it. -/
inductive StoredAs (d : Definition) (c : Change) : StoredUpdate → Prop where
  | carrying {a : Attr} (carries : c.Carries d) (encode : d.encode c.operand = .ok a) :
    StoredAs d c ⟨c.kind, some a⟩
  | bare (bare : ¬ c.Carries d) : StoredAs d c ⟨c.kind, none⟩

theorem target?_eq_some : c.target? fields = some d ↔ fields.lookup c.field = .ok d := by
  rw [Condition.lookup_eq_ok, target?]
  cases c.field <;> simp

theorem names_iff {field : Value} :
    names keyFields field = true ↔ ∃ name ∈ keyFields, field = .text name := by
  cases field <;> simp [names]

theorem usesOperand_iff : usesOperand d c.kind c.operand = true ↔ c.Carries d := by
  obtain ⟨field, kind, operand⟩ := c
  cases kind with
  | delete => cases operand <;> simp [usesOperand, Carries, Definition.holdsSet_iff]
  | put | add => simp [usesOperand, Carries]

theorem stored_eq_ok : stored d c.kind c.operand = .ok u ↔
    (c.kind = .add → d.heldType ∈ "N" :: setTypes) ∧ StoredAs d c u := by
  have hrefused : ¬ (c.kind = .add && !d.addable) = true ↔
      (c.kind = .add → d.heldType ∈ "N" :: setTypes) := by
    rw [← Definition.addable_iff]
    simp
  refine Outcome.unless_eq_ok.trans (and_congr hrefused ?_)
  cases huses : usesOperand d c.kind c.operand with
  | true =>
    have hcarries := usesOperand_iff.mp huses
    rw [if_pos rfl, Outcome.bind_eq_ok]
    constructor
    · rintro ⟨a, hencode, h⟩
      exact Except.ok.inj h ▸ .carrying hcarries hencode
    · intro h
      cases h with
      | carrying _ hencode => exact ⟨_, hencode, rfl⟩
      | bare hbare => exact absurd hcarries hbare
  | false =>
    have hbare : ¬ c.Carries d := fun h => by simp [usesOperand_iff.mpr h] at huses
    rw [if_neg Bool.false_ne_true]
    constructor
    · intro h
      exact Except.ok.inj h ▸ .bare hbare
    · intro h
      cases h with
      | carrying hcarries => exact absurd hcarries hbare
      | bare => rfl

/-- Whether a change can be made, and is then stored in a given way under the name of its field. -/
def MadeAs (fields : Fields) (keyFields : List Spelling) (c : Change)
    (r : Spelling × StoredUpdate) : Prop :=
  ∃ d, c.Allowed fields keyFields d ∧ r.1 = d.storedName ∧ StoredAs d c r.2

theorem apply_eq_ok : apply fields keyFields done c = .ok out ↔
    ∃ r, c.MadeAs fields keyFields r ∧ r.1 ∉ done.keys ∧ out = done ++ [r] := by
  rw [apply, Outcome.bind_eq_ok]
  constructor
  · rintro ⟨d, hlookup, h⟩
    obtain ⟨hnoKey, h⟩ := Outcome.unless_eq_ok.mp h
    obtain ⟨hnew, h⟩ := Outcome.unless_eq_ok.mp h
    obtain ⟨u, hstored, h⟩ := Outcome.bind_eq_ok.mp h
    obtain ⟨haddable, hstored⟩ := stored_eq_ok.mp hstored
    have hallowed : c.Allowed fields keyFields d := {
      target := target?_eq_some.mpr hlookup
      noKey := fun name hmem hfield => hnoKey (names_iff.mpr ⟨name, hmem, hfield⟩)
      addable := haddable
      operand := fun hcarries => by
        cases hstored with
        | carrying _ hencode => exact ⟨_, hencode⟩
        | bare hbare => exact absurd hcarries hbare }
    have hnew : d.storedName ∉ done.keys := OrderedMap.has_eq_false.mp (by simpa using hnew)
    exact ⟨(d.storedName, u), ⟨d, hallowed, rfl, hstored⟩, hnew,
      (Except.ok.inj h).symm.trans (OrderedMap.put_of_notMem hnew)⟩
  · rintro ⟨⟨name, u⟩, ⟨d, hallowed, rfl, hstored⟩, hnew, rfl⟩
    have hnoKey : ¬ names keyFields c.field = true := fun h => by
      obtain ⟨name, hmem, hfield⟩ := names_iff.mp h
      exact hallowed.noKey name hmem hfield
    have hhas : ¬ done.has d.storedName = true := by
      simpa using OrderedMap.has_eq_false.mpr hnew
    have hstored := stored_eq_ok.mpr ⟨hallowed.addable, hstored⟩
    refine ⟨d, target?_eq_some.mp hallowed.target, Outcome.unless_eq_ok.mpr ⟨hnoKey, ?_⟩⟩
    refine Outcome.unless_eq_ok.mpr ⟨hhas, Outcome.bind_eq_ok.mpr ⟨u, hstored, ?_⟩⟩
    exact congrArg Except.ok (OrderedMap.put_of_notMem hnew)

/-! ## All changes -/

/-- Changes are made one after the other; no two of them may be to the same attribute. -/
theorem applyAll_eq_ok (hdone : done.keys.Nodup) :
    applyAll fields keyFields done changes = .ok out ↔
      ∃ made, List.Forall₂ (MadeAs fields keyFields) changes made ∧
        (OrderedMap.keys (done ++ made)).Nodup ∧ out = done ++ made := by
  induction changes generalizing done with
  | nil =>
    simp only [applyAll, List.forall₂_nil_left_iff, Except.ok.injEq]
    constructor
    · rintro rfl
      exact ⟨[], rfl, by simpa using hdone, by simp⟩
    · rintro ⟨_, rfl, -, rfl⟩
      simp
  | cons c changes ih =>
    rw [applyAll, Outcome.bind_eq_ok]
    constructor
    · rintro ⟨next, hfirst, hrest⟩
      obtain ⟨r, hmade, hnew, rfl⟩ := apply_eq_ok.mp hfirst
      obtain ⟨made, hmades, hnodup, rfl⟩ :=
        (ih (OrderedMap.nodup_keys_concat hdone hnew)).mp hrest
      rw [List.append_assoc] at hnodup ⊢
      exact ⟨r :: made, .cons hmade hmades, hnodup, rfl⟩
    · rintro ⟨_, hmades, hnodup, rfl⟩
      cases hmades with
      | @cons _ r _ made hmade hmades =>
        have hnew := OrderedMap.notMem_keys_of_nodup hnodup
        have hnext := OrderedMap.nodup_keys_concat (v := r.2) hdone hnew
        have hsame := List.append_cons done r made
        exact ⟨done ++ [r], apply_eq_ok.mpr ⟨r, hmade, hnew, rfl⟩,
          (ih hnext).mpr ⟨made, hmades, hsame ▸ hnodup, hsame⟩⟩

theorem nodup_nil : (OrderedMap.keys ([] : StoredUpdates)).Nodup :=
  .nil

/-- Translating a document is making the changes that it flattens to, at least one. -/
theorem translate_eq_ok {updates : Value} : translate fields keyFields updates = .ok out ↔
    ∃ entries changes, updates = .map entries ∧ Flattens entries changes ∧ changes ≠ [] ∧
      List.Forall₂ (MadeAs fields keyFields) changes out ∧ out.keys.Nodup := by
  have hempty : ∀ {changes : List Change},
      List.Forall₂ (MadeAs fields keyFields) changes out → (changes = [] ↔ out = []) :=
    fun h => by rw [← List.length_eq_zero_iff, h.length_eq, List.length_eq_zero_iff]
  constructor
  · intro h
    cases updates with
    | map entries =>
      obtain ⟨changes, hchanges, h⟩ := Outcome.bind_eq_ok.mp h
      obtain ⟨done, hdone, h⟩ := Outcome.bind_eq_ok.mp h
      obtain ⟨made, hmade, hnodup, rfl⟩ := (applyAll_eq_ok nodup_nil).mp hdone
      split at h
      next => cases h
      next hne =>
        obtain rfl := Except.ok.inj h
        exact ⟨entries, changes, rfl, flatten_eq_ok.mp hchanges,
          fun hnil => hne ((hempty hmade).mp hnil), hmade, hnodup⟩
    | _ => cases h
  · rintro ⟨entries, changes, rfl, hflattens, hne, hmade, hnodup⟩
    have hdone := (applyAll_eq_ok nodup_nil).mpr ⟨out, hmade, hnodup, rfl⟩
    refine Outcome.bind_eq_ok.mpr ⟨changes, flatten_eq_ok.mpr hflattens, ?_⟩
    refine Outcome.bind_eq_ok.mpr ⟨out, hdone, ?_⟩
    split
    next => exact absurd ((hempty hmade).mpr rfl) hne
    next => rfl

/-- Whether changes can be made together: there are some, each can be made by itself, and no two are
to the same attribute. -/
structure Admissible (fields : Fields) (keyFields : List Spelling) (changes : List Change) :
    Prop where
  nonempty : changes ≠ []
  each : ∀ c ∈ changes, ∃ d, c.Allowed fields keyFields d
  names : (changes.map fun c => (c.target? fields).map (·.storedName)).Nodup

/-- What a change is sent as: its kind under the stored name of its field, with the attribute value
of its operand if that goes with it. -/
inductive SentAs (fields : Fields) (c : Change) : Value × Value → Prop where
  | carrying {d : Definition} {a : Attr} (target : c.target? fields = some d)
      (carries : c.Carries d) (encode : d.encode c.operand = .ok a) :
    SentAs fields c (.text d.storedName,
      .map [(.text "Action", .text c.kind.code), (.text "Value", a.toValue)])
  | bare {d : Definition} (target : c.target? fields = some d) (bare : ¬ c.Carries d) :
    SentAs fields c (.text d.storedName, .map [(.text "Action", .text c.kind.code)])

theorem SentAs.of_madeAs (h : c.MadeAs fields keyFields r) :
    SentAs fields c (.text r.1, r.2.toValue) := by
  obtain ⟨name, u⟩ := r
  obtain ⟨d, hallowed, rfl, hstored⟩ := h
  cases hstored with
  | carrying hcarries hencode => exact .carrying hallowed.target hcarries hencode
  | bare hbare => exact .bare hallowed.target hbare

theorem exists_madeAs_iff : (∃ r, c.MadeAs fields keyFields r) ↔
    ∃ d, c.Allowed fields keyFields d := by
  constructor
  · rintro ⟨_, d, hallowed, -⟩
    exact ⟨d, hallowed⟩
  · rintro ⟨d, hallowed⟩
    by_cases hcarries : c.Carries d
    · obtain ⟨a, hencode⟩ := hallowed.operand hcarries
      exact ⟨(d.storedName, _), d, hallowed, rfl, .carrying hcarries hencode⟩
    · exact ⟨(d.storedName, _), d, hallowed, rfl, .bare hcarries⟩

theorem target_storedName (h : List.Forall₂ (MadeAs fields keyFields) changes out) :
    (changes.map fun c => (c.target? fields).map (·.storedName)) = out.keys.map some := by
  induction h with
  | nil => rfl
  | cons hmade _ ih =>
    obtain ⟨d, hallowed, hname, -⟩ := hmade
    rw [List.map_cons, ih, hallowed.target, Option.map_some, ← hname]
    rfl

/-- **Updates are translated change by change.** A document can be translated if and only if it
flattens to changes that can be made together. For each of them there is then one entry in the
request, under the stored name of its field, and the names of these entries are distinct. -/
theorem translate_flattened (fields : Fields) (keyFields : List Spelling) (updates : Value) :
    ((∃ out, translate fields keyFields updates = .ok out) ↔
      ∃ entries changes, updates = .map entries ∧ Flattens entries changes ∧
        Admissible fields keyFields changes) ∧
    ∀ entries changes out, updates = .map entries → Flattens entries changes →
      translate fields keyFields updates = .ok out →
        ∃ sent, out.toValue = .map sent ∧ List.Forall₂ (SentAs fields) changes sent ∧
          (sent.map (·.1.spelling)).Nodup := by
  refine ⟨⟨?_, ?_⟩, ?_⟩
  · rintro ⟨out, h⟩
    obtain ⟨entries, changes, rfl, hflattens, hne, hmade, hnodup⟩ := translate_eq_ok.mp h
    refine ⟨entries, changes, rfl, hflattens, hne, fun c hc => ?_, ?_⟩
    · obtain ⟨r, -, hr⟩ := Outcome.exists_of_mem_forall₂ hmade.flip hc
      exact exists_madeAs_iff.mp ⟨r, hr⟩
    · rw [target_storedName hmade]
      exact hnodup.map fun _ _ => Option.some.inj
  · rintro ⟨entries, changes, rfl, hflattens, hne, heach, hnames⟩
    obtain ⟨out, hmade⟩ := Outcome.exists_forall₂ fun c hc => exists_madeAs_iff.mpr (heach c hc)
    rw [target_storedName hmade] at hnames
    exact ⟨out, translate_eq_ok.mpr
      ⟨entries, changes, rfl, hflattens, hne, hmade, List.Nodup.of_map _ hnames⟩⟩
  · rintro entries changes out rfl hflattens h
    obtain ⟨_, changes', hentries, hflattens', -, hmade, hnodup⟩ := translate_eq_ok.mp h
    obtain rfl := Value.map.inj hentries
    obtain rfl := hflattens.unique hflattens'
    refine ⟨_, rfl, ?_, ?_⟩
    · rw [List.forall₂_map_right_iff]
      exact hmade.imp fun c r hr => .of_madeAs hr
    · rw [List.map_map]
      exact hnodup

/-- Updates of scores: a score rises, a note is taken back, and the description is deleted. -/
def scoreUpdates : List (Value × Value) :=
  [(.text "$inc", .map [(.text "score", .int 5)]),
    (.text "notes", .map [(.text "Delete", .set false [.text "late"])]),
    (.text "extra", .map [(.text "$unset", .null)])]

def scoreChanges : List Change :=
  [⟨.text "score", .add, .int 5⟩, ⟨.text "notes", .delete, .set false [.text "late"]⟩,
    ⟨.text "extra", .delete, .null⟩]

theorem translate_flattened_scores : Flattens scoreUpdates scoreChanges ∧
    ∃ out, translate Condition.scoreFields ["player"] (.map scoreUpdates) = .ok out ∧
      ∃ sent, out.toValue = .map sent ∧
        List.Forall₂ (SentAs Condition.scoreFields) scoreChanges sent ∧
        (sent.map (·.1.spelling)).Nodup := by
  have hflattens : Flattens scoreUpdates scoreChanges := flatten_eq_ok.mp rfl
  have hok : (translate Condition.scoreFields ["player"] (.map scoreUpdates)).isOk = true := by
    decide +kernel
  obtain ⟨out, hout⟩ := Outcome.exists_of_isOk hok
  exact ⟨hflattens, out, hout, (translate_flattened _ _ _).2 _ _ out rfl hflattens hout⟩

end Change

end DocTable
