import DocTable.Proofs.Outcome
import DocTable.Proofs.Text.Spelling
import DocTable.Schema.Document

/-! The entries of documents. The entry of a table has its name, its keys and the entries of its
fields. An entry that names a field and its type declares one, held under the name that it gives or
else under that of the field; unless the given name has too many digits to be written, which is not
refused like all else that is wrong with an entry. -/

namespace DocTable

open Outcome

namespace Document

/-- What stands under a name among the members of an entry. -/
def member (members : Entries) (name : String) : Value :=
  (OrderedMap.find? members (.text name)).getD .null

/-- Members that name a field and its type. -/
structure Headed (members : Entries) (name type : Spelling) : Prop where
  named : OrderedMap.find? members (.text "field") = some (.text name)
  named_ne : name ≠ ""
  typed : OrderedMap.find? members (.text "type") = some (.text type)
  typed_ne : type ≠ ""

/-- The stored name that some members give to a field. What counts as nothing gives none. -/
inductive Stores (members : Entries) (name : Spelling) : Spelling → Prop where
  | own (empty : (member members "attribute").truthy = false) : Stores members name name
  | given (some : (member members "attribute").truthy = true)
      (text : (member members "attribute").hasText = true) :
    Stores members name (member members "attribute").spelling

/-- The field that an entry declares, with its definition. -/
inductive Declares : Value → Spelling × Definition → Prop where
  | intro {members : Entries} {name type stored : Spelling} (head : Headed members name type)
      (stores : Stores members name stored) :
    Declares (.map members) (name, {
      fieldName := name
      storedName := stored
      type := type.mended
      json := (member members "json").truthy })

/-- An entry that names a field and its type, but gives a stored name that has no text. -/
inductive Overlong : Value → Prop where
  | intro {members : Entries} {name type : Spelling} (head : Headed members name type)
      (some : (member members "attribute").truthy = true)
      (long : (member members "attribute").hasText = false) : Overlong (.map members)

variable {table : String} {name type : Spelling} {index : Nat} {members : Entries} {entry : Value}
  {field : Spelling × Definition} {entries : List Value} {fields : List (Spelling × Definition)}

theorem Headed.unique (h : Headed members name type) {name' type' : Spelling}
    (h' : Headed members name' type') : name = name' ∧ type = type' :=
  ⟨Value.text.inj (Option.some.inj (h.named.symm.trans h'.named)),
    Value.text.inj (Option.some.inj (h.typed.symm.trans h'.typed))⟩

theorem Headed.type_ne (h : Headed members name type) : type.mended ≠ "" :=
  mt Spelling.mended_eq_empty_iff.mp h.typed_ne

theorem member_eq_text {name : String} {s : Spelling} : member members name = .text s ↔
    OrderedMap.find? members (.text name) = some (.text s) := by
  unfold member
  cases OrderedMap.find? members (.text name) <;> simp

/-- Members that name a field and its type are read as its definition, as far as the stored name has
a text. -/
theorem definition_of_headed (h : Headed members name type) (table : String) (index : Nat) :
    definition table index (.map members) =
      (if (member members "attribute").truthy then (member members "attribute").spelled
        else .ok name) >>= fun stored => .ok (name, {
          fieldName := name
          storedName := stored
          type := type.mended
          json := (member members "json").truthy }) := by
  simp only [definition, h.named, h.typed, Option.getD_some, if_neg h.named_ne, if_neg h.typed_ne]
  cases hsome : (member members "attribute").truthy with
  | false => rw [member] at hsome; simp only [hsome]; rfl
  | true => rw [member] at hsome; simp only [hsome]; rfl

/-- Other entries are refused. -/
theorem definition_of_not_headed (h : ∀ members name type, entry = .map members →
    ¬ Headed members name type) (table : String) (index : Nat) :
    ∃ fault, definition table index entry = .error (.document fault) := by
  unfold definition
  split
  next members =>
    dsimp only
    split
    next name hname =>
      split
      next => exact ⟨_, rfl⟩
      next hne =>
        split
        next type htype =>
          split
          next => exact ⟨_, rfl⟩
          next hne' =>
            exact absurd ⟨member_eq_text.mp hname, hne, member_eq_text.mp htype, hne'⟩
              (h members name type rfl)
        next => exact ⟨_, rfl⟩
    next => exact ⟨_, rfl⟩
  next => exact ⟨_, rfl⟩

theorem Overlong.definition_eq (h : Overlong entry) (table : String) (index : Nat) :
    definition table index entry = .error .badText := by
  cases h with
  | intro head some long =>
    rw [definition_of_headed head, some, if_pos rfl, Value.spelled, long]
    rfl

/-- **An entry** is refused for what it is, or declares a field, or gives a name that is too
long. -/
theorem definition_cases (table : String) (index : Nat) (entry : Value) :
    (∃ fault, definition table index entry = .error (.document fault)) ∨
      (∃ field, definition table index entry = .ok field ∧ Declares entry field) ∨
      definition table index entry = .error .badText ∧ Overlong entry := by
  by_cases hheaded : ∃ members name type, entry = .map members ∧ Headed members name type
  · obtain ⟨members, name, type, rfl, h⟩ := hheaded
    right
    cases hempty : (member members "attribute").truthy with
    | false =>
      rw [definition_of_headed h, hempty]
      exact .inl ⟨_, rfl, .intro h (.own hempty)⟩
    | true =>
      cases htext : (member members "attribute").hasText with
      | true =>
        rw [definition_of_headed h, hempty, if_pos rfl, Value.spelled, if_pos htext]
        exact .inl ⟨_, rfl, .intro h (.given hempty htext)⟩
      | false =>
        have hlong := Overlong.intro h hempty htext
        exact .inr ⟨hlong.definition_eq table index, hlong⟩
  · left
    apply definition_of_not_headed
    intro members name type heq h
    exact hheaded ⟨members, name, type, heq, h⟩

theorem definition_eq_ok : definition table index entry = .ok field ↔ Declares entry field := by
  constructor
  · intro h
    rcases definition_cases table index entry with
      ⟨fault, hfault⟩ | ⟨field', hfield, hdeclares⟩ | hlong
    · cases hfault.symm.trans h
    · exact Except.ok.inj (hfield.symm.trans h) ▸ hdeclares
    · cases hlong.1.symm.trans h
  · intro h
    cases h with
    | intro head stores =>
      rw [definition_of_headed head]
      cases stores with
      | own empty => rw [empty]; rfl
      | given some text => rw [some, if_pos rfl, Value.spelled, if_pos text]; rfl

theorem definitions_eq_ok :
    definitions table index entries = .ok fields ↔ List.Forall₂ Declares entries fields := by
  induction entries generalizing index fields with
  | nil =>
    rw [List.forall₂_nil_left_iff]
    exact ⟨fun h => (Except.ok.inj h).symm, fun h => h ▸ rfl⟩
  | cons entry entries ih =>
    rw [definitions, bind_eq_ok]
    constructor
    · rintro ⟨field, hfield, h⟩
      obtain ⟨rest, hrest, h⟩ := bind_eq_ok.mp h
      exact Except.ok.inj h ▸ .cons (definition_eq_ok.mp hfield) (ih.mp hrest)
    · intro h
      cases h with
      | cons hfield hrest =>
        exact ⟨_, definition_eq_ok.mpr hfield, bind_eq_ok.mpr ⟨_, ih.mpr hrest, rfl⟩⟩

/-- What the entry of a table has under its three names: its own name, its keys and the entries of
its fields, all of which are something. -/
structure Formed (members : Entries) (name : Spelling) (keys : Entries) (entries : List Value) :
    Prop where
  named : OrderedMap.find? members (.text "name") = some (.text name)
  named_ne : name ≠ ""
  keyed : OrderedMap.find? members (.text "keys") = some (.map keys)
  keyed_ne : keys ≠ []
  listed : OrderedMap.find? members (.text "attributes") = some (.list entries)
  listed_ne : entries ≠ []

theorem Formed.unique {keys keys' : Entries} {name' : Spelling} {entries' : List Value}
    (h : Formed members name keys entries) (h' : Formed members name' keys' entries') :
    name = name' ∧ keys = keys' ∧ entries = entries' :=
  ⟨Value.text.inj (Option.some.inj (h.named.symm.trans h'.named)),
    Value.map.inj (Option.some.inj (h.keyed.symm.trans h'.keyed)),
    Value.list.inj (Option.some.inj (h.listed.symm.trans h'.listed))⟩

end Document

namespace Schema

variable {name : Spelling} {members keys : Entries} {entries : List Value} {s : Schema}

/-- The entry of a table is read by going through its fields, then through its keys. -/
theorem ofDocument_of_formed (h : Document.Formed members name keys entries) :
    ofDocument (.map members) = Document.definitions name.mended 0 entries >>= fun fields =>
      defineFrom keys (OrderedMap.ofList fields) (some name) := by
  obtain ⟨hname, hne, hkeys, hkeysNe, hentries, hentriesNe⟩ := h
  obtain ⟨k, keys, rfl⟩ := List.exists_cons_of_ne_nil hkeysNe
  obtain ⟨e, entries, rfl⟩ := List.exists_cons_of_ne_nil hentriesNe
  simp only [ofDocument, Value.get?, hname, hkeys, hentries, bind, Except.bind, if_neg hne]

/-- Other entries of tables are refused. -/
theorem ofDocument_of_not_formed
    (h : ∀ name keys entries, ¬ Document.Formed members name keys entries) :
    ∃ fault, ofDocument (.map members) = .error (.document fault) := by
  simp only [ofDocument, Value.get?, bind, Except.bind]
  split
  next name hname =>
    split
    next => exact ⟨_, rfl⟩
    next hne =>
      split
      next k keys hkeys =>
        split
        next e entries hentries =>
          exact absurd ⟨hname, hne, hkeys, List.cons_ne_nil _ _, hentries, List.cons_ne_nil _ _⟩
            (h name (k :: keys) (e :: entries))
        next => exact ⟨_, rfl⟩
      next => exact ⟨_, rfl⟩
  next => exact ⟨_, rfl⟩

/-- **An entry of a table** is read as the schema that its fields and keys make. -/
theorem ofDocument_eq_ok {doc : Value} : ofDocument doc = .ok s ↔
    ∃ members name keys entries fields, doc = .map members ∧
      Document.Formed members name keys entries ∧
      List.Forall₂ Document.Declares entries fields ∧
      defineFrom keys (OrderedMap.ofList fields) (some name) = .ok s := by
  constructor
  · intro h
    cases doc with
    | map members =>
      by_cases hformed : ∃ name keys entries, Document.Formed members name keys entries
      · obtain ⟨name, keys, entries, hformed⟩ := hformed
        rw [ofDocument_of_formed hformed] at h
        obtain ⟨fields, hfields, h⟩ := bind_eq_ok.mp h
        exact ⟨members, name, keys, entries, fields, rfl, hformed,
          Document.definitions_eq_ok.mp hfields, h⟩
      · obtain ⟨fault, hfault⟩ := ofDocument_of_not_formed fun name keys entries h =>
          hformed ⟨name, keys, entries, h⟩
        cases hfault.symm.trans h
    | _ => cases h
  · rintro ⟨members, name, keys, entries, fields, rfl, hformed, hfields, h⟩
    rw [ofDocument_of_formed hformed]
    exact bind_eq_ok.mpr ⟨fields, Document.definitions_eq_ok.mpr hfields, h⟩

end Schema

end DocTable
