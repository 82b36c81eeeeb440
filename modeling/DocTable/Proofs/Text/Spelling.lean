import DocTable.Text.Spelling
import Mathlib.Data.List.Chain

/-! Texts with and without halves of pairs: a text is told by its code points, a text that has
halves is never mended to an ordinary one, and joining halves changes a text only where a high half
stands in front of a low one. -/

namespace DocTable

namespace Text

theorem toNat_lt (c : Char) : c.toNat < 0x110000 := by
  rcases c.valid with h | h
  · exact Nat.lt_trans h (by decide)
  · exact h.2

/-- A code point that is no half of a pair is that of a character. -/
theorem toNat_ofNat {n : Nat} (h : n < 0x110000) (hhalf : isHalf n = false) :
    (Char.ofNat n).toNat = n := by
  have hvalid : n.isValidChar := by
    simp only [isHalf, isHigh, isLow, Bool.or_eq_false_iff, Bool.and_eq_false_iff,
      decide_eq_false_iff_not] at hhalf
    rcases Nat.lt_or_ge n 0xD800 with hlt | hge
    · exact .inl hlt
    · exact .inr ⟨by omega, h⟩
  rw [Char.ofNat, dif_pos hvalid]
  rfl

/-- The first code point that stands in for half of a pair. -/
def firstStandIn : Nat := 0x10D800

/-- Whether no character of a text stands in for half of a pair. -/
def lacksStandIns (s : String) : Bool :=
  s.toList.all fun c => c.toNat < firstStandIn

theorem toNat_standIn {n : Nat} (h : isHalf n = true) : firstStandIn ≤ (standIn n).toNat := by
  have hbounds : 0xD800 ≤ n ∧ n < 0xE000 := by
    simp only [isHalf, isHigh, isLow, Bool.or_eq_true, Bool.and_eq_true, decide_eq_true_eq] at h
    omega
  have hvalid : (0x100000 + n).isValidChar := .inr (by omega)
  rw [standIn, if_pos h, Char.ofNat, dif_pos hvalid]
  show 0x10D800 ≤ 0x100000 + n
  omega

/-! ## Units -/

/-- The units of a code point: itself, or the two that stand for it where units have 16 bits. -/
def units (paired : Bool) (n : Nat) : List Nat :=
  if paired = true ∧ 0x10000 ≤ n then
    [0xD800 + (n - 0x10000) / 0x400, 0xDC00 + (n - 0x10000) % 0x400]
  else [n]

theorem isHigh_unit {n : Nat} (h : n < 0x110000) :
    isHigh (0xD800 + (n - 0x10000) / 0x400) = true := by
  simp only [isHigh, Bool.and_eq_true, decide_eq_true_eq]
  omega

theorem isLow_unit (n : Nat) : isLow (0xDC00 + (n - 0x10000) % 0x400) = true := by
  simp only [isLow, Bool.and_eq_true, decide_eq_true_eq]
  omega

theorem joinUnits_cons {n : Nat} {ns : List Nat}
    (h : isHigh n = false ∨ ∀ n' ∈ ns.head?, isLow n' = false) :
    joinUnits (n :: ns) = n :: joinUnits ns := by
  cases ns with
  | nil => rfl
  | cons n' ns =>
    have hpair : ¬ (isHigh n && isLow n') = true := by
      rcases h with h | h
      · simp [h]
      · simp [h n' rfl]
    rw [joinUnits, if_neg hpair]

theorem joinUnits_units (paired : Bool) {n : Nat} {ns : List Nat} (hn : n < 0x110000)
    (h : isHigh n = false ∨ ∀ n' ∈ ns.head?, isLow n' = false) :
    joinUnits (units paired n ++ ns) = n :: joinUnits ns := by
  unfold units
  split
  next hwide =>
    have hjoin : 0x10000 + (0xD800 + (n - 0x10000) / 0x400 - 0xD800) * 0x400 +
        (0xDC00 + (n - 0x10000) % 0x400 - 0xDC00) = n := by omega
    rw [List.cons_append, List.cons_append, List.nil_append, joinUnits,
      if_pos (by rw [isHigh_unit hn, isLow_unit]; rfl), hjoin]
  next => exact joinUnits_cons h

theorem units_of_isHalf {n : Nat} (h : isHalf n = true) (paired : Bool) : units paired n = [n] := by
  refine if_neg fun hwide => ?_
  simp only [isHalf, isHigh, isLow, Bool.or_eq_true, Bool.and_eq_true, decide_eq_true_eq] at h
  omega

/-- Units begin with a low half only if the code point is one. -/
theorem isLow_of_head?_units {paired : Bool} {n n' : Nat} {ns : List Nat} (hn : n < 0x110000)
    (h : n' ∈ (units paired n ++ ns).head?) (hlow : isLow n' = true) : isLow n = true := by
  unfold units at h
  split at h
  next =>
    obtain rfl := Option.some.inj h
    have hhigh := isHigh_unit hn
    simp only [isHigh, isLow, Bool.and_eq_true, decide_eq_true_eq] at hhigh hlow
    omega
  next => exact Option.some.inj h ▸ hlow

/-- Written by units and joined again, code points are joined as they were. -/
theorem joinUnits_flatMap_units (paired : Bool) {ns : List Nat} (h : ∀ n ∈ ns, n < 0x110000) :
    joinUnits (ns.flatMap (units paired)) = joinUnits ns := by
  induction ns using joinUnits.induct with
  | case1 => rfl
  | case2 n =>
    rw [List.flatMap_cons, List.flatMap_nil, joinUnits_units paired (h n List.mem_cons_self)]
    · rfl
    · exact .inr fun _ hnil => nomatch hnil
  | case3 n n' rest hpair ih =>
    obtain ⟨hhigh, hlow⟩ := Bool.and_eq_true_iff.mp hpair
    rw [List.flatMap_cons, List.flatMap_cons, units_of_isHalf (by simp [isHalf, hhigh]),
      units_of_isHalf (by simp [isHalf, hlow]), List.singleton_append, List.singleton_append,
      joinUnits, joinUnits, if_pos hpair, if_pos hpair,
      ih fun m hm => h m (List.mem_cons_of_mem n (List.mem_cons_of_mem n' hm))]
  | case4 n n' rest hpair ih =>
    obtain ⟨hn, hrest⟩ := List.forall_mem_cons.mp h
    rw [joinUnits, if_neg hpair, ← ih hrest, List.flatMap_cons, joinUnits_units paired hn]
    cases hhigh : isHigh n with
    | false => exact .inl rfl
    | true =>
      refine .inr fun m hm => Bool.eq_false_iff.mpr fun hlow => hpair ?_
      rw [hhigh, isLow_of_head?_units (hrest n' List.mem_cons_self) hm hlow]
      rfl

theorem joinUnits_lt {ns : List Nat} (h : ∀ n ∈ ns, n < 0x110000) :
    ∀ n ∈ joinUnits ns, n < 0x110000 := by
  induction ns using joinUnits.induct with
  | case1 => exact h
  | case2 n => exact h
  | case3 n n' rest hpair ih =>
    rw [joinUnits, if_pos hpair]
    refine List.forall_mem_cons.mpr ⟨?_, ih fun m hm => h m (by simp [hm])⟩
    simp only [isHigh, isLow, Bool.and_eq_true, decide_eq_true_eq] at hpair
    omega
  | case4 n n' rest hpair ih =>
    obtain ⟨hn, hrest⟩ := List.forall_mem_cons.mp h
    rw [joinUnits, if_neg hpair]
    exact List.forall_mem_cons.mpr ⟨hn, ih hrest⟩

/-- Whether no high half stands directly in front of a low one. -/
def Unpaired (ns : List Nat) : Prop :=
  ns.IsChain fun n n' => ¬ (isHigh n = true ∧ isLow n' = true)

theorem joinUnits_length (ns : List Nat) : (joinUnits ns).length ≤ ns.length := by
  induction ns using joinUnits.induct with
  | case1 => exact Nat.le_refl _
  | case2 n => exact Nat.le_refl _
  | case3 n n' rest hpair ih =>
    rw [joinUnits, if_pos hpair, List.length_cons, List.length_cons, List.length_cons]
    omega
  | case4 n n' rest hpair ih =>
    rw [joinUnits, if_neg hpair, List.length_cons, List.length_cons]
    omega

theorem joinUnits_eq_self_iff {ns : List Nat} : joinUnits ns = ns ↔ Unpaired ns := by
  induction ns using joinUnits.induct with
  | case1 => exact iff_of_true rfl .nil
  | case2 n => exact iff_of_true rfl (.singleton n)
  | case3 n n' rest hpair ih =>
    refine iff_of_false (fun h => ?_) fun h => ?_
    · have hlength := congrArg List.length h
      have hle := joinUnits_length rest
      rw [joinUnits, if_pos hpair, List.length_cons, List.length_cons, List.length_cons] at hlength
      omega
    · exact (List.isChain_cons_cons.mp h).1 (Bool.and_eq_true_iff.mp hpair)
  | case4 n n' rest hpair ih =>
    rw [joinUnits, if_neg hpair, List.cons_inj_right, ih, Unpaired, Unpaired,
      List.isChain_cons_cons, ← Bool.and_eq_true_iff]
    exact (and_iff_right hpair).symm

/-- What was joined has no pairs: a joined code point is no half. -/
theorem unpaired_joinUnits (ns : List Nat) : Unpaired (joinUnits ns) := by
  -- joining puts no low half first that was not there
  have hhead : ∀ ns : List Nat, ∀ n ∈ (joinUnits ns).head?, isLow n = true →
      ns.head? = some n := by
    intro ns n hn hlow
    cases ns using joinUnits.induct with
    | case1 | case2 => exact hn
    | case3 m m' rest hpair =>
      rw [joinUnits, if_pos hpair] at hn
      obtain rfl := Option.some.inj hn
      simp only [isHigh, isLow, Bool.and_eq_true, decide_eq_true_eq] at hpair hlow
      omega
    | case4 m m' rest hpair =>
      rw [joinUnits, if_neg hpair] at hn
      exact hn
  induction ns using joinUnits.induct with
  | case1 => exact .nil
  | case2 n => exact .singleton n
  | case3 n n' rest hpair ih =>
    rw [joinUnits, if_pos hpair]
    refine List.isChain_cons.mpr ⟨fun m _ h => ?_, ih⟩
    simp only [isHigh, isLow, Bool.and_eq_true, decide_eq_true_eq] at hpair h
    omega
  | case4 n n' rest hpair ih =>
    rw [joinUnits, if_neg hpair]
    refine List.isChain_cons.mpr ⟨fun m hm h => hpair ?_, ih⟩
    obtain rfl : n' = m := Option.some.inj (hhead _ m hm h.2)
    exact Bool.and_eq_true_iff.mpr h

end Text

namespace Spelling

variable {s t : Spelling}

theorem points_lt (s : Spelling) : ∀ n ∈ s.points, n < 0x110000 := by
  cases s with
  | plain s =>
    intro n hn
    obtain ⟨c, -, rfl⟩ := List.mem_map.mp hn
    exact Text.toNat_lt c
  | broken b => exact fun n hn => of_decide_eq_true (List.all_eq_true.mp b.bounded n hn)

theorem not_isHalf_of_plain (s : String) : ∀ n ∈ (plain s).points, Text.isHalf n = false := by
  intro n hn
  obtain ⟨c, -, rfl⟩ := List.mem_map.mp hn
  exact Text.not_isHalf_toNat c

@[simp] theorem ofPoints_points (s : Spelling) : ofPoints s.points = s := by
  cases s with
  | plain s =>
    have hwhole : (plain s).points.any Text.isHalf = false :=
      List.any_eq_false.mpr fun n hn => by simp [not_isHalf_of_plain s n hn]
    rw [ofPoints, dif_neg (by simp [hwhole]), points, List.map_map]
    simp [Function.comp_def]
  | broken b => exact dif_pos ⟨b.bounded, b.broken⟩

/-- Any code points make a text. -/
theorem points_ofPoints {ns : List Nat} (h : ∀ n ∈ ns, n < 0x110000) :
    (ofPoints ns).points = ns := by
  unfold ofPoints
  split
  next => rfl
  next hplain =>
    have hall : ns.all (· < 0x110000) = true :=
      List.all_eq_true.mpr fun n hn => decide_eq_true (h n hn)
    have hwhole : ∀ n ∈ ns, Text.isHalf n = false := by
      simpa using fun hany => hplain ⟨hall, hany⟩
    rw [points, String.toList_ofList, List.map_map]
    exact (List.map_congr_left fun n hn => Text.toNat_ofNat (h n hn) (hwhole n hn)).trans
      (List.map_id ns)

theorem points_injective (h : s.points = t.points) : s = t := by
  rw [← ofPoints_points s, h, ofPoints_points]

theorem points_eq_nil_iff : s.points = [] ↔ s = "" :=
  ⟨fun h => points_injective (t := "") h, fun h => h ▸ rfl⟩

/-! ## Stand-ins -/

/-- Only a text without halves is mended to a text that has no stand-ins. -/
theorem mended_eq_iff {name : String} (h : Text.lacksStandIns name = true) :
    s.mended = name ↔ s = name := by
  refine ⟨fun heq => ?_, fun heq => heq ▸ rfl⟩
  cases s with
  | plain s => exact congrArg plain heq
  | broken b =>
    obtain ⟨n, hn, hhalf⟩ := List.any_eq_true.mp b.broken
    have hmem : Text.standIn n ∈ name.toList := by
      rw [← heq, mended, String.toList_ofList]
      exact List.mem_map_of_mem hn
    have hlt := of_decide_eq_true (List.all_eq_true.mp h _ hmem)
    exact absurd hlt (Nat.not_lt.mpr (Text.toNat_standIn hhalf))

theorem mended_eq_empty_iff : s.mended = "" ↔ s = "" :=
  mended_eq_iff rfl

theorem quoted_ne_empty (s : Spelling) : s.quoted ≠ "" := by
  cases s with
  | plain s => exact fun h => absurd (congrArg String.toList h) (by simp [quoted, Text.quoted])
  | broken b => exact fun h => absurd (congrArg String.toList h) (by simp [quoted])

/-! ## Joining -/

theorem points_joined (s : Spelling) : s.joined.points = Text.joinUnits s.points :=
  points_ofPoints (Text.joinUnits_lt s.points_lt)

/-- A text in which no high half stands directly in front of a low one. -/
def Unpaired (s : Spelling) : Prop :=
  Text.Unpaired s.points

/-- **Joining** changes exactly the texts with a pair of halves. -/
theorem joined_eq_self_iff : s.joined = s ↔ s.Unpaired := by
  rw [Unpaired, ← Text.joinUnits_eq_self_iff, ← points_joined]
  exact ⟨fun h => congrArg points h, points_injective⟩

theorem unpaired_joined (s : Spelling) : s.joined.Unpaired := by
  rw [Unpaired, points_joined]
  exact Text.unpaired_joinUnits s.points

theorem unpaired_plain (s : String) : (plain s).Unpaired := by
  refine Text.joinUnits_eq_self_iff.mp ?_
  have hwhole := not_isHalf_of_plain s
  generalize (plain s).points = ns at hwhole
  induction ns with
  | nil => rfl
  | cons n ns ih =>
    obtain ⟨hn, hrest⟩ := List.forall_mem_cons.mp hwhole
    rw [Text.joinUnits_cons (.inl (Bool.or_eq_false_iff.mp hn).1), ih hrest]

@[simp] theorem joined_plain (s : String) : (plain s).joined = s :=
  joined_eq_self_iff.mpr (unpaired_plain s)

theorem joined_of_isPlain (h : s.isPlain = true) : s.joined = s := by
  cases s with
  | plain s => exact joined_plain s
  | broken b => cases h

end Spelling

end DocTable
