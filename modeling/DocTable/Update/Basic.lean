import DocTable.Condition.Basic
import DocTable.Value.Access

/-!
Updates, as an application writes them. An update document flattens to a list of changes, one for
each field that it speaks of: under a token such as `$set` stand fields with their operands, a
plain field has a value to be put or a map with one entry that names a kind of change.
-/

namespace DocTable

/-- What an update does to an attribute. -/
inductive ChangeKind where
  | put
  | delete
  | add
deriving DecidableEq

namespace ChangeKind

def code : ChangeKind → String
  | put => "PUT"
  | delete => "DELETE"
  | add => "ADD"

def all : List ChangeKind :=
  [put, delete, add]

/-- The kind with a given name in capitals. -/
def ofCode? (code : String) : Option ChangeKind :=
  all.find? (·.code = code)

/-- The kind that a token stands for. -/
def ofToken? : String → Option ChangeKind
  | "$set" => some put
  | "$unset" => some delete
  | "$inc" => some add
  | _ => none

/-- The kind that a token or a name, in any case, stands for. -/
def ofName? (s : String) : Option ChangeKind :=
  (ofToken? s).orElse fun _ => ofCode? (String.ofList (s.toList.map Char.toUpper))

end ChangeKind

/-- A change to one field. -/
structure Change where
  field : Value
  kind : ChangeKind
  operand : Value

namespace Change

/-- The kind that a value names. -/
def namedKind? : Value → Option ChangeKind
  | .text s => ChangeKind.ofName? s.mended
  | _ => none

/-- The kind that the only key of a map under a field names. -/
def kindOf (field token : Value) : Outcome ChangeKind :=
  match namedKind? token with
  | some kind => .ok kind
  | none => do throw (.translation (.action (← token.plainText) (← field.plainText)))

/-- The changes that one entry of an update document asks for. -/
def ofEntry (key value : Value) : Outcome (List Change) :=
  if key.isToken then
    match ChangeKind.ofToken? key.plain with
    | none => .error (.translation (.updateOperator key.plain))
    | some kind =>
      match value with
      | .map operands => operands.mapM fun (name, v) => do
        return ⟨.text (← name.spelled), kind, v⟩
      | _ => .error (.translation (.operandsExpected key.plain))
  else
    match value with
    | .map [(token, operand)] => do return [⟨key, ← kindOf key token, operand⟩]
    | .map _ => do throw (.translation (.severalActions (← key.plainText)))
    | value => .ok [⟨key, .put, value⟩]

/-- The changes that an update document asks for, in order. -/
def flatten : List (Value × Value) → Outcome (List Change)
  | [] => .ok []
  | (key, value) :: rest => do
    let changes ← ofEntry key value
    return changes ++ (← flatten rest)

end Change

end DocTable
