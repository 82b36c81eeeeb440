/-!
Maps that remember in which order their keys were first put: lists of pairs without two equal
keys. Putting a key again changes its value in place.
-/

namespace DocTable

abbrev OrderedMap (κ ν : Type) := List (κ × ν)

namespace OrderedMap

variable {κ ν μ : Type} [BEq κ]

/-- The value of a key. -/
def find? (m : OrderedMap κ ν) (k : κ) : Option ν :=
  match m with
  | [] => none
  | (k', v) :: rest => if k' == k then some v else find? rest k

def has (m : OrderedMap κ ν) (k : κ) : Bool :=
  (m.find? k).isSome

/-- Puts a key: at the end if it is new, else in place of its old value. -/
def put (m : OrderedMap κ ν) (k : κ) (v : ν) : OrderedMap κ ν :=
  match m with
  | [] => [(k, v)]
  | (k', v') :: rest => if k' == k then (k', v) :: rest else (k', v') :: put rest k v

def erase (m : OrderedMap κ ν) (k : κ) : OrderedMap κ ν :=
  m.filter fun (k', _) => !(k' == k)

/-- Puts all entries of the second map into the first, in order. -/
def overlay (m : OrderedMap κ ν) (entries : List (κ × ν)) : OrderedMap κ ν :=
  entries.foldl (fun m (k, v) => m.put k v) m

/-- The map of a list of entries, later ones replacing earlier ones. -/
def ofList (entries : List (κ × ν)) : OrderedMap κ ν :=
  overlay [] entries

def keys (m : OrderedMap κ ν) : List κ :=
  m.map (·.1)

@[simp] theorem find?_nil (k : κ) : find? ([] : OrderedMap κ ν) k = none := rfl

@[simp] theorem overlay_nil (m : OrderedMap κ ν) : m.overlay [] = m := rfl

@[simp] theorem overlay_cons (m : OrderedMap κ ν) (k : κ) (v : ν) (rest : List (κ × ν)) :
    m.overlay ((k, v) :: rest) = (m.put k v).overlay rest := rfl

theorem find?_put [LawfulBEq κ] (m : OrderedMap κ ν) (k k' : κ) (v : ν) :
    (m.put k v).find? k' = if k == k' then some v else m.find? k' := by
  induction m with
  | nil => simp [put, find?]
  | cons entry rest ih =>
    obtain ⟨k₀, v₀⟩ := entry
    by_cases h : k₀ = k
    · subst h
      by_cases h' : k₀ = k' <;> simp [put, find?, h']
    · by_cases h' : k₀ = k'
      · subst h'
        simp [put, find?, h, Ne.symm h]
      · simp [put, find?, h, h', ih]

theorem keys_put [LawfulBEq κ] (m : OrderedMap κ ν) (k : κ) (v : ν) :
    (m.put k v).keys = if m.keys.contains k then m.keys else m.keys ++ [k] := by
  induction m with
  | nil => simp [put, keys]
  | cons entry rest ih =>
    obtain ⟨k₀, v₀⟩ := entry
    by_cases h : k₀ = k
    · simp [put, keys, h]
    · have h' : k ≠ k₀ := fun e => h e.symm
      simp only [keys, List.contains_eq_mem, decide_eq_true_eq] at ih
      by_cases hk : k ∈ List.map (·.1) rest <;> simp [put, keys, h, h', ih, hk]

end OrderedMap

end DocTable
