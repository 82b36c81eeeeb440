import DocTable.Failure
import DocTable.Text.Integer

/-!
Looking into values whose kind is not known: their items, entries and members, the integers they
denote, their texts and their order. Each operation fails on the values that have no such thing.
-/

namespace DocTable.Value

/-- The items that a value yields one by one; a map yields its keys. -/
def iterate : Value → Outcome (List Value)
  | text s => .ok (s.letters.map .text)
  | bytes _ content => .ok (content.map fun b => .int b.toNat)
  | list items | tuple items | set _ items => .ok items
  | map entries => .ok (entries.map (·.1))
  | _ => .error .wrongKind

/-- The two items of a value that stands for an entry of a map. -/
def entry (v : Value) : Outcome (Value × Value) := do
  match ← v.iterate with
  | [k, x] => .ok (k, x)
  | _ => .error .badText

/-- Puts an entry into a map, which refuses some kinds of keys. -/
def putEntry (entries : Entries) (e : Value × Value) : Outcome Entries :=
  if e.1.hashable then .ok (entries.put e.1 e.2) else .error .wrongKind

/-- A value as a map: a map, or what yields entries of a map. -/
def asMap : Value → Outcome Entries
  | map entries => .ok entries
  | v => do (← v.iterate).foldlM (fun entries item => do putEntry entries (← item.entry)) []

@[simp] theorem asMap_map (entries : Entries) : (map entries).asMap = .ok entries := rfl

/-- Whether some code points stand somewhere among others. -/
def occursIn (part : List Nat) : List Nat → Bool
  | [] => part.isEmpty
  | n :: ns => part.isPrefixOf (n :: ns) || occursIn part ns

/-- Whether a value has a name among its keys, its members or its parts. -/
def hasName (v : Value) (name : Spelling) : Outcome Bool :=
  match v with
  | map entries => .ok (OrderedMap.has entries (.text name))
  | list items | tuple items | set _ items => .ok (items.any (·.same (.text name)))
  | text s => .ok (occursIn name.points s.points)
  | _ => .error .wrongKind

/-- The value under a name. -/
def atName (v : Value) (name : Spelling) : Outcome Value :=
  match v with
  | map entries =>
    match OrderedMap.find? entries (.text name) with
    | some x => .ok x
    | none => .error .missingKey
  | _ => .error .wrongKind

/-- What the map of a response holds under a name; only maps can be asked. -/
def get? (v : Value) (name : Spelling) : Outcome (Option Value) :=
  match v with
  | map entries => .ok (OrderedMap.find? entries (.text name))
  | _ => .error .noAttribute

/-- The integer that a value denotes, parts of a whole cut off. -/
def toInteger : Value → Outcome Int
  | bool b => .ok (if b then 1 else 0)
  | int n => .ok n
  | float x =>
    match x with
    | .nan => .error .badText
    | .infinite _ => .error .tooLarge
    | .finite negative m =>
      let size : Nat := m.units / Nat.pow 2 Binary64.unitExponent
      .ok (if negative then -(size : Int) else size)
  | decimal d =>
    match d.truncate?, d with
    | some n, _ => .ok n
    | none, .infinite _ => .error .tooLarge
    | none, _ => .error .badText
  | text s => ((Text.integer? s.mended).map .ok).getD (.error .badText)
  | bytes _ content =>
    if content.all (· < 128) then
      ((Text.integer? (String.ofList (content.map fun b => Char.ofNat b.toNat))).map .ok).getD
        (.error .badText)
    else .error .badText
  | _ => .error .wrongKind

/-! ## Texts -/

mutual

/-- Whether a value has a text: no integer in it has too many digits to be written. -/
def hasText : Value → Bool
  | int n => digitCount n.natAbs ≤ Text.digitLimit
  | list items | tuple items | set _ items => allHaveText items
  | map entries => entriesHaveText entries
  | record fields => fieldsHaveText fields
  | _ => true

def allHaveText : List Value → Bool
  | [] => true
  | v :: rest => hasText v && allHaveText rest

def entriesHaveText : List (Value × Value) → Bool
  | [] => true
  | (k, v) :: rest => hasText k && hasText v && entriesHaveText rest

def fieldsHaveText : List (String × Value) → Bool
  | [] => true
  | (_, v) :: rest => hasText v && fieldsHaveText rest

end

/-- The plain text of a value that has one. -/
def plainText (v : Value) : Outcome String :=
  if v.hasText then .ok v.plain else .error .badText

/-- The plain text of a value that has one, with the code points that a text has. -/
def spelled (v : Value) : Outcome Spelling :=
  if v.hasText then .ok v.spelling else .error .badText

/-- The text by which a value that has one is shown. -/
def shownText (v : Value) : Outcome String :=
  if v.hasText then .ok v.shown else .error .badText

@[simp] theorem plainText_text (s : Spelling) : (text s).plainText = .ok s.mended := rfl

@[simp] theorem spelled_text (s : Spelling) : (text s).spelled = .ok s := rfl

/-! ## Order -/

def isDecimal : Value → Bool
  | decimal _ => true
  | _ => false

/-- Order of two numbers. A decimal not-a-number cannot be compared, nor a decimal with one. -/
def lessNumber (a b : Value) : Outcome Bool :=
  match a.number?, b.number? with
  | some x, some y =>
    let unordered := match x, y with
      | .nan, _ | _, .nan => a.isDecimal || b.isDecimal
      | _, _ => false
    if unordered then .error .signalingComparison else .ok (x.lt y)
  | _, _ => .error .wrongKind

mutual

/-- Whether one value comes before another of a comparable kind: numbers by size, texts and bytes
by their code points or units, lists by their first different items, sets by inclusion. -/
def less : Value → Value → Outcome Bool
  | text a, text b => .ok (a < b)
  | bytes _ a, bytes _ b => .ok (a < b)
  | list a, list b => lessItems a b
  | tuple a, tuple b => lessItems a b
  | set _ a, set _ b => .ok (a.length < b.length && allIn a b)
  | a, b => lessNumber a b

def lessItems : List Value → List Value → Outcome Bool
  | a :: as, b :: bs => if same a b then lessItems as bs else less a b
  | [], bs => .ok !bs.isEmpty
  | _ :: _, [] => .ok false

end

/-- Inserts behind all that are not greater. -/
def insertSorted {α : Type} (before : α → α → Outcome Bool) (x : α) :
    List α → Outcome (List α)
  | [] => .ok [x]
  | y :: ys => do
    if ← before x y then .ok (x :: y :: ys) else .ok (y :: (← insertSorted before x ys))

/-- Sorts by a partial order; equally ranked ones keep their order. -/
def sortedBy {α : Type} (before : α → α → Outcome Bool) (xs : List α) : Outcome (List α) :=
  xs.foldlM (fun done x => insertSorted before x done) []

end DocTable.Value
