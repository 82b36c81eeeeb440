import DocTable.Value.Access

/-!
Arguments of operations, given by position and by name. A call is refused if an argument is
missing, given twice or not known.
-/

namespace DocTable

/-- Arguments by name. -/
abbrev Params := OrderedMap String Value

/-- Arguments as the entries of a request. -/
def Params.entries (ps : Params) : Entries :=
  ps.map fun (name, v) => (.text name, v)

/-- What an operation can be called with. The first parameters can also be given by position. -/
structure Signature where
  required : List String := []
  optional : List (String × Value) := []
  named : List (String × Value) := []
  /-- Whether arguments with other names are passed on. -/
  takesOthers : Bool := false
  /-- Names that are taken already. -/
  reserved : List String := ["self"]

/-- The arguments of a call: those that the operation knows, and those that are passed on. -/
structure Arguments where
  known : Params
  others : Params

namespace Arguments

/-- The value of a known argument. -/
def get (a : Arguments) (name : String) : Value :=
  (a.known.find? name).getD .null

end Arguments

namespace Signature

variable (s : Signature)

/-- The names of parameters that can be given by position. -/
def positional : List String :=
  s.required ++ s.optional.map (·.1)

def knows (name : String) : Bool :=
  s.positional.contains name || s.named.any (·.1 = name)

/-- Adds an argument that is given by name. -/
def addNamed (a : Arguments) (name : String) (v : Value) : Outcome Arguments :=
  if s.reserved.contains name || a.known.has name then .error .wrongKind
  else if s.knows name then .ok { a with known := a.known.put name v }
  else if s.takesOthers then .ok { a with others := a.others.put name v }
  else .error .wrongKind

/-- Sorts the arguments of a call by the parameters of an operation; parameters that are not given
get their defaults. -/
def bind (values : List Value) (params : Params) : Outcome Arguments := do
  if s.positional.length < values.length then throw .wrongKind
  let a ← params.foldlM (fun a (name, v) => s.addNamed a name v)
    ⟨s.positional.zip values, []⟩
  if s.required.any (!a.known.has ·) then throw .wrongKind
  let missing := (s.optional ++ s.named).filter fun (name, _) => !a.known.has name
  return { a with known := a.known ++ missing }

end Signature

end DocTable
