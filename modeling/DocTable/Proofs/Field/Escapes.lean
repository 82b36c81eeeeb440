import DocTable.Proofs.Field.Reading
import DocTable.Proofs.Field.Refusals
import DocTable.Proofs.Json.Writable
import DocTable.Proofs.Stored.Limits

/-! What keeps a field without a converter from writing a value is reported as a refusal of the
value, with three exceptions. A JSON field lets through why a value has no text; a list field lets
through why something looked for within it has no storable form; and every other field lets through
the signal that a number beyond the limits of the store raises. -/

namespace DocTable

open Outcome

section

variable {α β : Type} {o : Outcome α} {f : α → Outcome β}

end

/-- Whether a signal is raised when a value is written. -/
def Value.Signals (v : Value) : Prop :=
  ∃ u, v.toStorable = .ok u ∧ u.Overruns

namespace Definition

/-- The values of a field for which something else than a refusal is raised: those that have no
text, if the field holds texts in the JSON format; else those of its type for which a signal is. -/
inductive Escapes (d : Definition) : Value → Prop where
  | text {v : Value} (json : d.json = true) (some : v ≠ .null) (h : ¬ Json.Writable v) :
    Escapes d v
  | number {v : Value} {t : Tag} (plain : d.json = false) (type : d.tag? = some t)
      (accepts : t.accepts v = true) (h : v.Signals) : Escapes d v

/-- What may be contained in a value of a field, for which something else than a refusal is
raised. -/
inductive EscapesWithin (d : Definition) : Value → Prop where
  | item {v : Value} (list : d.tag? = some .list) (h : ¬ v.Storable ∨ v.Signals) : EscapesWithin d v
  | member {v : Value} {t m : Tag} (type : d.tag? = some t) (member : t.member? = some m)
      (accepts : m.accepts v = true) (h : v.Signals) : EscapesWithin d v
  | whole {v : Value} (type : ∀ t, d.tag? = some t → t ≠ .list ∧ t.member? = none)
      (h : d.Escapes v) : EscapesWithin d v

variable {d : Definition} {v w : Value} {t m : Tag} {o : Outcome Attr}

end Definition

end DocTable
