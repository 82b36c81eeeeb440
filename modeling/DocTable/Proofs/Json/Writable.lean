import DocTable.Field.Codec
import DocTable.Proofs.Json.Restored
import DocTable.Proofs.Stored.Reading

/-! The values that have a text in the JSON format. There are none for decimals, byte strings, sets
and what has no parts that are known; but decimals that plain numbers stand for are written as
these, unless they are in a tuple. Keys are written as names, after they were put in order. -/

namespace DocTable

open Entries Outcome

namespace Json

variable {v k k' : Value} {ks : List Value}

/-! ## Keys -/

/-- Whether an integer has few enough digits to be written. -/
def Short (n : Int) : Prop :=
  digitCount n.natAbs ≤ Text.digitLimit

/-- The keys that are ordered as numbers. -/
inductive NumberKey : Value → Prop where
  | bool (b : Bool) : NumberKey (.bool b)
  | int {n : Int} (h : Short n) : NumberKey (.int n)
  | float (x : Binary64) : NumberKey (.float x)

/-- The keys that the map of an object can have: texts, or numbers, or nothing as the only one. -/
inductive Keys : List Value → Prop where
  | texts {ks : List Value} (h : ∀ k ∈ ks, k.isText = true) : Keys ks
  | numbers {ks : List Value} (h : ∀ k ∈ ks, NumberKey k) : Keys ks
  | null : Keys [.null]

/-- The values that have a tree as they are. -/
inductive Plain : Value → Prop where
  | null : Plain .null
  | bool (b : Bool) : Plain (.bool b)
  | int {n : Int} (h : Short n) : Plain (.int n)
  | float (x : Binary64) : Plain (.float x)
  | text (s : Spelling) : Plain (.text s)
  | list {items : List Value} (h : ∀ v ∈ items, Plain v) : Plain (.list items)
  | tuple {items : List Value} (h : ∀ v ∈ items, Plain v) : Plain (.tuple items)
  | map {entries : Entries} (hkeys : Keys entries.keys) (h : ∀ e ∈ entries, Plain e.2) :
    Plain (.map entries)

/-- The values that have a text: trees, with decimals that plain numbers stand for. -/
inductive Writable : Value → Prop where
  | null : Writable .null
  | bool (b : Bool) : Writable (.bool b)
  | int {n : Int} (h : Short n) : Writable (.int n)
  | float (x : Binary64) : Writable (.float x)
  | decimal {d : Decimal} (h : ¬ d.Illegible) (hshort : ∀ n, d.toInt? = some n → Short n) :
    Writable (.decimal d)
  | text (s : Spelling) : Writable (.text s)
  | list {items : List Value} (h : ∀ v ∈ items, Writable v) : Writable (.list items)
  | tuple {items : List Value} (h : ∀ v ∈ items, Plain v) : Writable (.tuple items)
  | map {entries : Entries} (hkeys : Keys entries.keys) (h : ∀ e ∈ entries, Writable e.2) :
    Writable (.map entries)

end Json

end DocTable
