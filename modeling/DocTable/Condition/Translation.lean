import DocTable.Condition.Basic
import DocTable.Field.Codec

/-!
Conditions as the store takes them: under the stored name of each field a comparison with the
attribute values of its operands. `Condition.translate` turns a map from fields to conditions into
such a map.
-/

namespace DocTable

/-- The fields that may be spoken of, by name. -/
abbrev Fields := OrderedMap Spelling Definition

/-- The field that a key of a map names. -/
def Fields.lookup (fields : Fields) (name : Value) : Outcome Definition :=
  match name with
  | .text s =>
    match fields.find? s with
    | some d => .ok d
    | none => .error (.unknownField s.mended)
  | name => do throw (.unknownField (← name.plainText))

/-- A condition as the store takes it. -/
structure StoredCondition where
  comparison : Comparison
  operands : List Attr

namespace StoredCondition

/-- The map that is sent; the operands are left out for comparisons that take none. -/
def toValue (c : StoredCondition) : Value :=
  .map ((if c.comparison.arity? = some 0 then []
    else [(.text "AttributeValueList", .list (Attr.toValues c.operands))]) ++
    [(.text "ComparisonOperator", .text c.comparison.code)])

end StoredCondition

/-- The conditions of a request, by stored name. -/
abbrev StoredConditions := OrderedMap Spelling StoredCondition

def StoredConditions.toValue (cs : StoredConditions) : Value :=
  .map (cs.map fun (name, c) => (.text name, c.toValue))

namespace Condition

def bare : Value → Bool
  | .null | .bool true => true
  | _ => false

/-- The operands of a condition as attribute values of the field. -/
def operands (d : Definition) (c : Condition) : Outcome (List Attr) :=
  match c.comparison with
  | .null | .notNull =>
    if bare c.operand then .ok []
    else .error (.translation (.takesNoValue c.comparison.code d.fieldName.mended))
  | .oneOf =>
    match c.operand.array? with
    | some (v :: vs) => (v :: vs).mapM d.encode
    | _ => .error (.translation .membersExpected)
  | .between =>
    match c.operand.array? with
    | some [low, high] => [low, high].mapM d.encode
    | _ => .error (.translation .pairExpected)
  | _ =>
    if c.operand.isArray then
      .error (.translation (.arrayOperand c.comparison.code d.fieldName.mended))
    else
      match c.comparison with
      | .contains | .notContains => [c.operand].mapM d.encodeElement
      | _ => [c.operand].mapM d.encode

/-- The type that decides whether a field can be compared with a whole map. A JSON field can. -/
def comparedType (d : Definition) : String :=
  if d.json then "M" else d.heldType

/-- Translates the condition on one field: the stored name and the condition there. -/
def translateField (fields : Fields) (name value : Value) :
    Outcome (Spelling × StoredCondition) := do
  let d ← fields.lookup name
  let c ← parse name.plain value (some (comparedType d))
  return (d.storedName, ⟨c.comparison, ← c.operands d⟩)

/-- Translates conditions on fields one after the other. -/
def translateEntries (fields : Fields) (done : StoredConditions) :
    List (Value × Value) → Outcome StoredConditions
  | [] => .ok done
  | (name, value) :: rest => do
    let (stored, c) ← translateField fields name value
    translateEntries fields (done.put stored c) rest

/-- Translates a map from fields to conditions. -/
def translate (fields : Fields) (conditions : Value) : Outcome StoredConditions :=
  match conditions with
  | .map entries => translateEntries fields [] entries
  | _ => .error (.request .conditionsKind)

end Condition

end DocTable
