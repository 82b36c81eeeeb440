import DocTable.Proofs.Field.Escapes
import DocTable.Proofs.Table.Operations
import DocTable.Proofs.Update.Guard

/-! What is reported of translations and operations. Whatever else is wrong with what is asked for
is refused; so a translation or the building of a request ends with something else than a refusal
only if a field does for one of the values that it is given to write, or if a key has no text. -/

namespace DocTable

open Outcome

/-- What is given to write: to a field a value, or what may be contained in a value; or the key of
an entry, which is to name a field or say what is asked of it. -/
inductive Part where
  | whole (d : Definition) (v : Value)
  | within (d : Definition) (v : Value)
  | key (k : Value)

namespace Part

def encode : Part → Outcome Attr
  | whole d v => d.encode v
  | within d v => d.encodeElement v
  | key k => do return .text (← k.spelled)

/-- Whether something else than a refusal is raised for a part. -/
def Escapes : Part → Prop
  | whole d v => d.Escapes v
  | within d v => d.EscapesWithin v
  | key k => k.hasText = false

end Part

namespace Condition

/-- The operands of a condition on a field, as far as the comparison lets them be written. -/
inductive HasPart (d : Definition) : Condition → Part → Prop where
  | bound {operand v : Value} {bounds : List Value} (array : operand.array? = some bounds)
      (two : bounds.length = 2) (mem : v ∈ bounds) : HasPart d ⟨.between, operand⟩ (.whole d v)
  | alternative {operand v : Value} {alternatives : List Value}
      (array : operand.array? = some alternatives) (mem : v ∈ alternatives) :
    HasPart d ⟨.oneOf, operand⟩ (.whole d v)
  | inside {comparison : Comparison} {operand : Value} (inside : comparison.LooksInside)
      (noArray : operand.isArray = false) : HasPart d ⟨comparison, operand⟩ (.within d operand)
  | one {comparison : Comparison} {operand : Value} (single : comparison.arity? = some 1)
      (outside : ¬ comparison.LooksInside) (noArray : operand.isArray = false) :
    HasPart d ⟨comparison, operand⟩ (.whole d operand)

/-- What stands in an entry of a map of conditions: its key, and the operands of the condition. -/
inductive EntryPart (fields : Fields) : Value × Value → Part → Prop where
  | key (k value : Value) : EntryPart fields (k, value) (.key k)
  | operand {name : Spelling} {value : Value} {d : Definition} {c : Condition} {p : Part}
      (field : fields.find? name = some d) (reads : Reads d value c) (has : HasPart d c p) :
    EntryPart fields (.text name, value) p

/-- The keys and the operands of conditions on fields. -/
def parts (fields : Fields) (conditions : Value) : Set Part :=
  {p | ∃ entries e, conditions = .map entries ∧ e ∈ entries ∧ EntryPart fields e p}

variable {fields : Fields} {d : Definition} {c : Condition}

end Condition

namespace Change

/-- The keys in an entry of an update document: its own, and those of its map. -/
inductive EntryKey : Value × Value → Value → Prop where
  | own (k value : Value) : EntryKey (k, value) k
  | inner {key : Value} {operands : Entries} {e : Value × Value} (h : e ∈ operands) :
    EntryKey (key, .map operands) e.1

/-- The keys in an update document, and the operands of the changes that it asks for. -/
def parts (fields : Fields) (updates : Value) : Set Part :=
  {p | ∃ entries, updates = .map entries ∧
    ((∃ e ∈ entries, ∃ k, EntryKey e k ∧ p = .key k) ∨
      ∃ changes c d, Flattens entries changes ∧ c ∈ changes ∧ c.target? fields = some d ∧
        c.Carries d ∧ p = .whole d c.operand)}

variable {fields : Fields} {c : Change} {changes : List Change} {d : Definition}

end Change

namespace Schema

/-- What stands in an entry of a record: its key, and the value if it is written. -/
inductive EntryPart (s : Schema) : Value × Value → Part → Prop where
  | key (k v : Value) : EntryPart s (k, v) (.key k)
  | value {k v : Value} {name : Spelling} {d : Definition} (spelled : k.spelled = .ok name)
      (field : s.fields.find? name = some d) (there : v.isAbsent = false) :
    EntryPart s (k, v) (.whole d v)

/-- The keys and the values of a record that are written. -/
def parts (s : Schema) (record : Value) : Set Part :=
  {p | ∃ entries e, s.entriesOf record = .ok entries ∧ e ∈ entries ∧ EntryPart s e p}

variable {s : Schema} {record : Value}

end Schema

namespace Operation

variable {t : Table}

/-- The keys, the records and the operands that an operation is given. -/
def parts : Operation t → Set Part
  | getItem key _ => t.schema.parts key
  | batchGetItems keys _ _ => {p | ∃ items key, keys.iterate = .ok items ∧ key ∈ items ∧
      p ∈ t.schema.parts key}
  | putItem item expected _ => t.schema.parts item ∪ Condition.parts t.schema.fields expected
  | updateItem key updates expected _ =>
    t.schema.parts key ∪ Change.parts t.schema.fields updates ∪
      Condition.parts t.schema.fields expected
  | deleteItem key expected _ => t.schema.parts key ∪ Condition.parts t.schema.fields expected
  | query conditions _ => Condition.parts t.schema.fields conditions
  | scan filter _ => Condition.parts t.schema.fields filter
  | execute .. | fetchNext .. | reset => ∅

end Operation

namespace Table

variable {t : Table} {record key expected : Value} {params : Params}

variable {item updates keys consistentRead conditions filter : Value}

end Table

namespace Operation

variable {t : Table}

end Operation

/-- A set of pairs. -/
def pairs : Value :=
  .set false [.tuple [.int 1, .int 2]]

end DocTable
