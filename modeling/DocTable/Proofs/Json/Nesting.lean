import DocTable.Proofs.Json.RoundTrip
import DocTable.Proofs.Json.Values
import DocTable.Proofs.Outcome

/-! Reading with limited nesting. What is read comes out as it does without a limit, and is within
the limit; or the limit ends the reading, and then it is smaller than what was read is long. -/

namespace DocTable

open Outcome

namespace Json

/-- How an outcome under a limit compares to the one without: it is ended by the limit, which is too
small for `most` levels; or it is the same, and what there is has at most so many levels as `most`
and the limit say. -/
inductive Limited {α : Type} (limit : Option Nat) (most : Nat) (levels : Nat → α → Prop)
    (o o' : Outcome α) : Prop where
  | ended (h : o = .error .endless) (small : ¬ Allows limit most)
  | same (h : o = o') (within : ∀ a, o = .ok a → levels most a ∧ ∀ n ∈ limit, levels n a)

section

variable {α β : Type} {limit : Option Nat} {most most' : Nat} {levels : Nat → α → Prop}
  {levels' : Nat → β → Prop} {o o' : Outcome α}

theorem Limited.error (f : Failure) : Limited limit most levels (.error f) (.error f) :=
  .same rfl nofun

theorem Limited.ok {a : α} (h : levels most a) (hlimit : ∀ n ∈ limit, levels n a) :
    Limited limit most levels (.ok a) (.ok a) :=
  .same rfl fun _ heq => Except.ok.inj heq ▸ ⟨h, hlimit⟩

/-- What has no levels comes out as it does without a limit. -/
theorem Limited.flat (h : ∀ n a, o = .ok a → levels n a) : Limited limit most levels o o :=
  .same rfl fun a ha => ⟨h most a ha, fun n _ => h n a ha⟩

theorem Limited.mono (h : Limited limit most levels o o') (hle : most ≤ most')
    (hlevels : ∀ a, levels most a → levels most' a) : Limited limit most' levels o o' := by
  cases h with
  | ended h hsmall => exact .ended h fun hlimit => hsmall (hlimit.mono hle)
  | same h hwithin => exact .same h fun a ha => (hwithin a ha).imp_left (hlevels a)

theorem Limited.bind {f f' : α → Outcome β} (h : Limited limit most levels o o')
    (hf : ∀ a, levels most a → (∀ n ∈ limit, levels n a) →
      Limited limit most levels' (f a) (f' a)) :
    Limited limit most levels' (o >>= f) (o' >>= f') := by
  cases h with
  | ended h hsmall => exact .ended (h ▸ rfl) hsmall
  | same h hwithin =>
    subst h
    cases o with
    | error x => exact .error x
    | ok a => exact hf a (hwithin a rfl).1 (hwithin a rfl).2

theorem Limited.mapM {f f' : β → Outcome α} {bs : List β}
    (h : ∀ b ∈ bs, Limited limit most levels (f b) (f' b)) :
    Limited limit most (fun n as => ∀ a ∈ as, levels n a) (bs.mapM f) (bs.mapM f') := by
  induction bs with
  | nil => exact .ok (List.forall_mem_nil _) fun _ _ => List.forall_mem_nil _
  | cons b bs ih =>
    obtain ⟨hfirst, hrest⟩ := List.forall_mem_cons.mp h
    rw [List.mapM_cons, List.mapM_cons]
    refine hfirst.bind fun a ha ha' => (ih hrest).bind fun as has has' => ?_
    exact .ok (List.forall_mem_cons.mpr ⟨ha, has⟩) fun n hn =>
      List.forall_mem_cons.mpr ⟨ha' n hn, has' n hn⟩

/-- One level further in, the limit and the levels are one less. -/
theorem Limited.deeper {f : Option Nat → Outcome α} {inner : Nat → α → Prop}
    (h : ∀ limit, Limited limit most inner (f limit) (f none))
    (hlevels : ∀ n a, inner n a → levels (n + 1) a) :
    Limited limit (most + 1) levels (DocTable.deeper limit >>= f) (DocTable.deeper none >>= f) := by
  match limit with
  | none =>
    rcases h none with ⟨-, hsmall⟩ | ⟨-, hwithin⟩
    · exact absurd (allows_none most) hsmall
    · exact .same rfl fun a ha => ⟨hlevels _ _ (hwithin a ha).1, nofun⟩
  | some 0 => exact .ended rfl fun hlimit => Nat.not_succ_le_zero most (hlimit 0 rfl)
  | some (n + 1) =>
    rcases h (some n) with ⟨hended, hsmall⟩ | ⟨hsame, hwithin⟩
    · refine .ended hended fun hlimit => hsmall fun m hm => ?_
      exact Option.some.inj hm ▸ Nat.le_of_succ_le_succ (hlimit _ rfl)
    · refine .same hsame fun a ha => ⟨hlevels _ _ (hwithin a ha).1, fun m hm => ?_⟩
      exact Option.some.inj hm ▸ hlevels _ _ ((hwithin a ha).2 n rfl)

end

/-! ## Reading of texts -/

theorem depth_of_readWord? {cs rest : List Char} {j : Json} (h : readWord? cs = some (j, rest)) :
    j.depth = 0 := by
  obtain ⟨w, hw, hfound⟩ := List.exists_of_findSome?_eq_some h
  obtain ⟨rest', -, heq⟩ := Option.map_eq_some_iff.mp hfound
  obtain rfl : w.2 = j := congrArg Prod.fst heq
  simp only [words, List.mem_cons, List.not_mem_nil, or_false] at hw
  rcases hw with rfl | rfl | rfl | rfl | rfl | rfl <;> rfl

theorem depth_of_readNumber {negative : Bool} {cs : List Char} {r : Json × List Char}
    (h : readNumber negative cs = .ok r) : r.1.depth = 0 := by
  unfold readNumber at h
  dsimp only at h
  repeat' split at h
  all_goals first
    | cases h; done
    | exact Except.ok.inj h ▸ rfl

mutual

/-- The induction is on the fuel, two units of which go into a level. -/
theorem limited_readValue (fuel : Nat) (limit : Option Nat) (cs : List Char) :
    Limited limit ((fuel + 1) / 2) (fun n r => r.1.depth ≤ n) (readValue fuel limit cs)
      (readValue fuel none cs) := by
  cases fuel with
  | zero => exact .error _
  | succ fuel =>
    have hmost : (fuel + 1 + 1) / 2 = fuel / 2 + 1 := by omega
    rw [hmost, readValue.eq_def, readValue.eq_def (fuel + 1) none]
    dsimp only
    split
    next =>
      refine .flat fun n r hr => ?_
      split at hr
      next => exact Except.ok.inj hr ▸ Nat.zero_le n
      next => cases hr
    next =>
      refine Limited.deeper (fun inner => (?_ : Limited inner (fuel / 2)
        (fun n (r : Json × List Char) => r.1.depth ≤ n + 1) _ _)) fun _ _ hr => hr
      split
      next => exact .ok (Nat.le_add_left 1 _) fun n _ => Nat.le_add_left 1 n
      next =>
        exact (limited_readItems fuel inner _).bind fun rs hrs hrs' =>
          .ok (Nat.succ_le_succ hrs) fun n hn => Nat.succ_le_succ (hrs' n hn)
    next =>
      refine Limited.deeper (fun inner => (?_ : Limited inner (fuel / 2)
        (fun n (r : Json × List Char) => r.1.depth ≤ n + 1) _ _)) fun _ _ hr => hr
      split
      next => exact .ok (Nat.le_add_left 1 _) fun n _ => Nat.le_add_left 1 n
      next =>
        exact (limited_readMembers fuel inner _).bind fun rs hrs hrs' =>
          .ok (Nat.succ_le_succ hrs) fun n hn => Nat.succ_le_succ (hrs' n hn)
    next =>
      refine .flat fun n r hr => ?_
      have hdepth : r.1.depth = 0 := by
        split at hr
        next hword => exact depth_of_readWord? (Except.ok.inj hr ▸ hword)
        next => split at hr <;> exact depth_of_readNumber hr
      exact hdepth ▸ Nat.zero_le n

theorem limited_readItems (fuel : Nat) (limit : Option Nat) (cs : List Char) :
    Limited limit (fuel / 2) (fun n r => itemsDepth r.1 ≤ n) (readItems fuel limit cs)
      (readItems fuel none cs) := by
  cases fuel with
  | zero => exact .error _
  | succ fuel =>
    rw [readItems, readItems]
    refine (limited_readValue fuel limit cs).bind fun r hr hr' => ?_
    dsimp only
    split
    next => exact .ok (Nat.max_le.mpr ⟨hr, Nat.zero_le _⟩) fun n hn =>
      Nat.max_le.mpr ⟨hr' n hn, Nat.zero_le n⟩
    next _ rest _ =>
      have hle : fuel / 2 ≤ (fuel + 1) / 2 := by omega
      have hitems := limited_readItems fuel limit (skip rest)
      have hrest := hitems.mono hle fun _ h => h.trans hle
      exact hrest.bind fun rs hrs hrs' => .ok (Nat.max_le.mpr ⟨hr, hrs⟩) fun n hn =>
        Nat.max_le.mpr ⟨hr' n hn, hrs' n hn⟩
    next => exact .error _

theorem limited_readMembers (fuel : Nat) (limit : Option Nat) (cs : List Char) :
    Limited limit (fuel / 2) (fun n r => membersDepth r.1 ≤ n) (readMembers fuel limit cs)
      (readMembers fuel none cs) := by
  cases fuel with
  | zero => exact .error _
  | succ fuel =>
    rw [readMembers.eq_def, readMembers.eq_def (fuel + 1) none]
    dsimp only
    split
    next =>
      split
      next => exact .error _
      next =>
        split
        next =>
          refine (limited_readValue fuel limit _).bind fun r hr hr' => ?_
          split
          next => exact .ok (Nat.max_le.mpr ⟨hr, Nat.zero_le _⟩) fun n hn =>
            Nat.max_le.mpr ⟨hr' n hn, Nat.zero_le n⟩
          next _ rest _ =>
            have hle : fuel / 2 ≤ (fuel + 1) / 2 := by omega
            have hmembers := limited_readMembers fuel limit (skip rest)
            have hrest := hmembers.mono hle fun _ h => h.trans hle
            exact hrest.bind fun rs hrs hrs' => .ok (Nat.max_le.mpr ⟨hr, hrs⟩) fun n hn =>
              Nat.max_le.mpr ⟨hr' n hn, hrs' n hn⟩
          next => exact .error _
        next => exact .error _
    next => exact .error _

end

/-- **Parsing under a limit** ends with the limit, if the text is at least as long as it; or it
gives what is given without one. -/
theorem limited_parse (s : String) (limit : Option Nat) :
    Limited limit (s.length + 1) (fun n j => j.depth ≤ n) (parse s limit) (parse s) := by
  have hmost : (2 * s.toList.length + 2 + 1) / 2 = s.length + 1 := by
    rw [String.length_toList]
    omega
  refine (hmost ▸ limited_readValue _ limit (skip s.toList)).bind fun r hr hr' => ?_
  dsimp only
  split
  next => exact .ok hr hr'
  next => exact .error _

/-- Brackets in brackets, more than the limit, end the reading. The induction is on the limit. -/
theorem readValue_brackets {limit n fuel : Nat} (h : limit < n) (hfuel : 2 * limit < fuel) :
    readValue fuel (some limit) (List.replicate n '[') = .error .endless := by
  induction limit generalizing n fuel with
  | zero =>
    obtain ⟨n, rfl⟩ := Nat.exists_eq_succ_of_ne_zero (Nat.ne_zero_of_lt h)
    obtain ⟨fuel, rfl⟩ := Nat.exists_eq_succ_of_ne_zero (Nat.ne_zero_of_lt hfuel)
    rfl
  | succ limit ih =>
    obtain ⟨n, rfl⟩ : ∃ m, n = m + 2 := ⟨n - 2, by omega⟩
    obtain ⟨fuel, rfl⟩ : ∃ f, fuel = f + 2 := ⟨fuel - 2, by omega⟩
    have hinner : readValue fuel (some limit) ('[' :: List.replicate n '[') = .error .endless :=
      ih (Nat.lt_of_succ_lt_succ h) (by omega)
    have hitems : readItems (fuel + 1) (some limit) ('[' :: List.replicate n '[') =
        .error .endless := by
      rw [readItems, hinner]
      rfl
    have hskip : skip ('[' :: List.replicate n '[') = '[' :: List.replicate n '[' :=
      skip_cons (by decide) _
    rw [List.replicate_succ, List.replicate_succ, readValue.eq_def]
    simp only [deeper, ok_bind, hskip]
    show (readItems (fuel + 1) (some limit) ('[' :: List.replicate n '[') >>= _) = _
    rw [hitems]
    rfl

theorem parse_brackets {limit n : Nat} (h : limit < n) :
    parse (String.ofList (List.replicate n '[')) (some limit) = .error .endless := by
  have hskip : skip (List.replicate n '[') = List.replicate n '[' := by
    obtain ⟨n, rfl⟩ := Nat.exists_eq_succ_of_ne_zero (Nat.ne_zero_of_lt h)
    exact skip_cons (by decide) _
  rw [parse, ofChars, String.toList_ofList, hskip, readValue_brackets h (by simp; omega)]
  rfl

end Json

/-! ## Levels of trees and values -/

namespace Value

mutual

/-- How many lists and maps stand in one another at most. -/
def height : Value → Nat
  | list items => itemsHeight items + 1
  | map entries => entriesHeight entries + 1
  | _ => 0

def itemsHeight : List Value → Nat
  | [] => 0
  | v :: rest => max (height v) (itemsHeight rest)

def entriesHeight : List (Value × Value) → Nat
  | [] => 0
  | (_, v) :: rest => max (height v) (entriesHeight rest)

end

theorem itemsHeight_le_iff {items : List Value} {n : Nat} :
    itemsHeight items ≤ n ↔ ∀ v ∈ items, v.height ≤ n := by
  induction items with
  | nil => simp [itemsHeight]
  | cons v items ih => simp [itemsHeight, ih]

theorem entriesHeight_le_iff {entries : Entries} {n : Nat} :
    entriesHeight entries ≤ n ↔ ∀ e ∈ entries, e.2.height ≤ n := by
  induction entries with
  | nil => simp [entriesHeight]
  | cons e entries ih => simp [entriesHeight, ih]

end Value

namespace Json

theorem itemsDepth_le_iff {items : List Json} {n : Nat} :
    itemsDepth items ≤ n ↔ ∀ j ∈ items, j.depth ≤ n := by
  induction items with
  | nil => simp [itemsDepth]
  | cons j items ih => simp [itemsDepth, ih]

theorem membersDepth_le_iff {members : List (Spelling × Json)} {n : Nat} :
    membersDepth members ≤ n ↔ ∀ m ∈ members, m.2.depth ≤ n := by
  induction members with
  | nil => simp [membersDepth]
  | cons m members ih => simp [membersDepth, ih]

mutual

theorem height_toValue (j : Json) : j.toValue.height ≤ j.depth := by
  match j with
  | .null | .bool _ | .int _ | .float _ | .text _ => exact Nat.le_refl 0
  | .array items => exact Nat.succ_le_succ (height_toValues items)
  | .object members =>
    exact Nat.succ_le_succ (Value.entriesHeight_le_iff.mpr
      (height_toEntries [] members _ (Nat.le_refl _) (List.forall_mem_nil _)))

theorem height_toValues (items : List Json) :
    Value.itemsHeight (toValues items) ≤ itemsDepth items := by
  match items with
  | [] => exact Nat.le_refl 0
  | j :: items =>
    exact Nat.max_le.mpr ⟨(height_toValue j).trans (Nat.le_max_left ..),
      (height_toValues items).trans (Nat.le_max_right ..)⟩

/-- Of members with one name the last counts, and is no higher than all of them. -/
theorem height_toEntries (done : Entries) (members : List (Spelling × Json)) (n : Nat)
    (hmembers : membersDepth members ≤ n) (hdone : ∀ e ∈ done, e.2.height ≤ n) :
    ∀ e ∈ toEntries done members, e.2.height ≤ n := by
  match members with
  | [] => exact hdone
  | (name, j) :: members =>
    obtain ⟨hj, hrest⟩ := Nat.max_le.mp hmembers
    refine height_toEntries _ members n hrest fun e he => ?_
    rcases Entries.value_of_mem_put he with hvalue | hmem
    · exact hvalue ▸ (height_toValue j).trans hj
    · exact hdone e hmem

end

end Json

end DocTable
