import DocTable.Proofs.Schema.Documents

/-! Which entries of tables are refused. What is wrong with one is reported as a fault of the
document or of the layout that it declares, with three exceptions: a list or a map for a key type
cannot be looked up among the key types, and a number for a key type or for a stored name can have
too many digits to be written. -/

namespace DocTable

open Outcome

namespace Document

/-- The key types that are not refused for what they are, with what is raised for them. -/
inductive Unnamable : Value → Failure → Prop where
  | nested {v : Value} (h : v.hashable = false) : Unnamable v .wrongKind
  | long {v : Value} (hashable : v.hashable = true) (h : v.hasText = false) : Unnamable v .badText

/-- What reading the entry of a table raises that is no refusal: for the stored name of a field, all
fields before which are declared; or for a key type, before which all keys name declared fields. -/
inductive Escapes (members : Entries) : Failure → Prop where
  | storedName {name : Spelling} {keys : Entries} {before after : List Value} {entry : Value}
      (formed : Formed members name keys (before ++ entry :: after))
      (declared : ∀ e ∈ before, ∃ field, Declares e field) (long : Overlong entry) :
    Escapes members .badText
  | keyType {name key : Spelling} {roles : List (Spelling × KeyRole)} {keyType : Value}
      {after : Entries} {entries : List Value} {fields : List (Spelling × Definition)} {f : Failure}
      (formed : Formed members name (Schema.declarations roles ++ (.text key, keyType) :: after)
        entries)
      (declared : List.Forall₂ Declares entries fields)
      (named : ∀ r ∈ roles, r.1 ∈ fields.map (·.1)) (unnamable : Unnamable keyType f) :
    Escapes members f

variable {members : Entries} {f : Failure}

variable {fields : OrderedMap Spelling Definition} {keys : Entries} {tableName : Option Spelling}

end Document

namespace Schema

end Schema

end DocTable
