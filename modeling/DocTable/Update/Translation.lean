import DocTable.Update.Basic
import DocTable.Condition.Translation

/-!
Updates as the store takes them: under the stored name of each changed field a kind of change,
with the attribute value of its operand if it has one.
-/

namespace DocTable

/-- An update of one attribute as the store takes it. -/
structure StoredUpdate where
  kind : ChangeKind
  operand : Option Attr

def StoredUpdate.toValue (u : StoredUpdate) : Value :=
  .map ((.text "Action", .text u.kind.code) ::
    u.operand.toList.map fun a => (.text "Value", a.toValue))

/-- The updates of a request, by stored name. -/
abbrev StoredUpdates := OrderedMap Spelling StoredUpdate

def StoredUpdates.toValue (us : StoredUpdates) : Value :=
  .map (us.map fun (name, u) => (.text name, u.toValue))

/-- Whether a field holds sets. -/
def Definition.holdsSet (d : Definition) : Bool :=
  d.heldType = "SS" || d.heldType = "NS" || d.heldType = "BS"

/-- Whether something can be added to a field: a number, or members of a set. -/
def Definition.addable (d : Definition) : Bool :=
  d.holdsSet || d.heldType = "N"

namespace Change

/-- Whether an operand plays a part. Members are deleted from sets; else the whole attribute is
deleted and the operand is not looked at. -/
def usesOperand (d : Definition) (kind : ChangeKind) (operand : Value) : Bool :=
  match kind, operand with
  | .delete, .null => false
  | .delete, _ => d.holdsSet
  | _, _ => true

/-- The update of the attribute of a field. -/
def stored (d : Definition) (kind : ChangeKind) (operand : Value) : Outcome StoredUpdate :=
  if kind = .add && !d.addable then .error (.translation (.notAddable d.fieldName.mended))
  else if usesOperand d kind operand then do return ⟨kind, some (← d.encode operand)⟩
  else .ok ⟨kind, none⟩

def names (keyFields : List Spelling) : Value → Bool
  | .text s => keyFields.contains s
  | _ => false

/-- Adds a change to the updates of a request. Key fields cannot be changed, nor can a field be
changed twice. -/
def apply (fields : Fields) (keyFields : List Spelling) (done : StoredUpdates) (c : Change) :
    Outcome StoredUpdates := do
  let d ← fields.lookup c.field
  if names keyFields c.field then throw (.request (.keyUpdate c.field.plain))
  if done.has d.storedName then throw (.translation (.updatedTwice c.field.plain))
  return done.put d.storedName (← stored d c.kind c.operand)

/-- Adds changes one after the other. -/
def applyAll (fields : Fields) (keyFields : List Spelling) (done : StoredUpdates) :
    List Change → Outcome StoredUpdates
  | [] => .ok done
  | c :: rest => do applyAll fields keyFields (← apply fields keyFields done c) rest

/-- Translates an update document. -/
def translate (fields : Fields) (keyFields : List Spelling) (updates : Value) :
    Outcome StoredUpdates :=
  match updates with
  | .map entries => do
    match ← applyAll fields keyFields [] (← flatten entries) with
    | [] => .error (.request .noUpdates)
    | done => .ok done
  | _ => .error (.request .updatesKind)

end Change

end DocTable
