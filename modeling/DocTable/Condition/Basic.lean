import DocTable.Failure

/-!
Conditions on fields, as an application writes them: a value stands for equality with it, and a
map with one entry names an operator, either by a token such as `$gt` or by the store's own name.
-/

namespace DocTable

/-- The comparisons that the store knows. -/
inductive Comparison where
  | eq
  | ne
  | gt
  | ge
  | lt
  | le
  | beginsWith
  | between
  | contains
  | notContains
  | null
  | notNull
  | oneOf
deriving DecidableEq

namespace Comparison

/-- The name by which the store knows a comparison. -/
def code : Comparison → String
  | eq => "EQ"
  | ne => "NE"
  | gt => "GT"
  | ge => "GE"
  | lt => "LT"
  | le => "LE"
  | beginsWith => "BEGINS_WITH"
  | between => "BETWEEN"
  | contains => "CONTAINS"
  | notContains => "NOT_CONTAINS"
  | null => "NULL"
  | notNull => "NOT_NULL"
  | oneOf => "IN"

def all : List Comparison :=
  [eq, ne, gt, ge, lt, le, beginsWith, between, contains, notContains, null, notNull, oneOf]

/-- How many values a comparison takes; no number where it takes one or more. -/
def arity? : Comparison → Option Nat
  | null | notNull => some 0
  | between => some 2
  | oneOf => none
  | _ => some 1

/-- The comparison that the store knows by a name. -/
def ofCode? (code : String) : Option Comparison :=
  all.find? (·.code = code)

/-- The comparison that a token stands for. -/
def ofToken? : String → Option Comparison
  | "$gt" => some gt
  | "$gte" => some ge
  | "$lt" => some lt
  | "$lte" => some le
  | "$begins" => some beginsWith
  | "$between" => some between
  | _ => none

theorem ofCode?_code (c : Comparison) : ofCode? c.code = some c := by
  cases c <;> decide

end Comparison

/-- Whether a key is a token: a text that starts with a dollar sign. -/
def Value.isToken : Value → Bool
  | .text s => s.mended.toList.head? = some '$'
  | _ => false

/-- A condition on one field. -/
structure Condition where
  comparison : Comparison
  operand : Value

namespace Condition

/-- The comparison that the only key of a map names for the store. -/
def nativeOf? : Value → Option Comparison
  | .text s => Comparison.ofCode? s.mended
  | _ => none

/-- The condition of equality with a whole map, on fields that hold maps or whose type is not
known. -/
def wholeMap (field : String) (type : Option String) (value : Value) : Outcome Condition :=
  match type with
  | none | some "M" => .ok ⟨.eq, value⟩
  | some type => .error (.translation (.unknownOperator type field))

/-- Splits a condition into its comparison and its operand. -/
def parse (field : String) (value : Value) (type : Option String := none) : Outcome Condition :=
  match value with
  | .map entries =>
    if entries.any (·.1.isToken) then
      match entries with
      | [(token, operand)] =>
        match Comparison.ofToken? token.plain with
        | some c => .ok ⟨c, operand⟩
        | none => .error (.translation (.operator token.plain))
      | _ => .error (.translation (.severalOperators field))
    else
      match entries with
      | [(token, operand)] =>
        match nativeOf? token with
        | some c => .ok ⟨c, operand⟩
        | none => wholeMap field type value
      | _ => wholeMap field type value
  | value => .ok ⟨.eq, value⟩

end Condition

end DocTable
