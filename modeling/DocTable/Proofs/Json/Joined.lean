import DocTable.Json.Printer
import DocTable.Proofs.Text.Spelling

/-! Trees with their halves of pairs joined, which is what is read from their texts: two halves that
follow each other are written like the one code point that they are the units of. -/

namespace DocTable.Json

mutual

/-- The tree with the halves joined in all texts and names. -/
def joined : Json → Json
  | text s => text s.joined
  | array items => array (joinedItems items)
  | object members => object (joinedMembers members)
  | j => j

def joinedItems : List Json → List Json
  | [] => []
  | j :: rest => joined j :: joinedItems rest

def joinedMembers : List (Spelling × Json) → List (Spelling × Json)
  | [] => []
  | (name, j) :: rest => (name.joined, joined j) :: joinedMembers rest

end

/-- The trees whose texts and names have no high half directly in front of a low one. -/
inductive Unpaired : Json → Prop where
  | null : Unpaired null
  | bool (b : Bool) : Unpaired (bool b)
  | int (n : Int) : Unpaired (int n)
  | float (x : Binary64) : Unpaired (float x)
  | text {s : Spelling} (h : s.Unpaired) : Unpaired (text s)
  | array {items : List Json} (h : ∀ j ∈ items, Unpaired j) : Unpaired (array items)
  | object {members : List (Spelling × Json)} (names : ∀ m ∈ members, m.1.Unpaired)
      (h : ∀ m ∈ members, Unpaired m.2) : Unpaired (object members)

/-- Joining leaves a tree without pairs as it is. -/
theorem Unpaired.joined_eq {j : Json} (h : j.Unpaired) : j.joined = j := by
  induction h with
  | text h => rw [joined, Spelling.joined_eq_self_iff.mpr h]
  | @array items h ih =>
    clear h
    have hitems : joinedItems items = items := by
      induction items with
      | nil => rfl
      | cons j items ih' =>
        obtain ⟨hj, hrest⟩ := List.forall_mem_cons.mp ih
        rw [joinedItems, hj, ih' hrest]
    rw [joined, hitems]
  | @object members names h ih =>
    clear h
    have hmembers : joinedMembers members = members := by
      induction members with
      | nil => rfl
      | cons m members ih' =>
        obtain ⟨hname, hnames⟩ := List.forall_mem_cons.mp names
        obtain ⟨hj, hrest⟩ := List.forall_mem_cons.mp ih
        rw [joinedMembers, Spelling.joined_eq_self_iff.mpr hname, hj, ih' hnames hrest]
    rw [joined, hmembers]
  | _ => rfl

mutual

theorem unpaired_joined (j : Json) : j.joined.Unpaired := by
  match j with
  | null => exact .null
  | bool b => exact .bool b
  | int n => exact .int n
  | float x => exact .float x
  | text s => exact .text s.unpaired_joined
  | array items => exact .array (unpaired_joinedItems items)
  | object members =>
    have hmembers := unpaired_joinedMembers members
    exact .object (fun m hm => (hmembers m hm).1) fun m hm => (hmembers m hm).2

theorem unpaired_joinedItems (items : List Json) : ∀ j ∈ joinedItems items, j.Unpaired := by
  match items with
  | [] => exact List.forall_mem_nil _
  | j :: items =>
    exact List.forall_mem_cons.mpr ⟨unpaired_joined j, unpaired_joinedItems items⟩

theorem unpaired_joinedMembers (members : List (Spelling × Json)) :
    ∀ m ∈ joinedMembers members, m.1.Unpaired ∧ m.2.Unpaired := by
  match members with
  | [] => exact List.forall_mem_nil _
  | (name, j) :: members =>
    exact List.forall_mem_cons.mpr
      ⟨⟨name.unpaired_joined, unpaired_joined j⟩, unpaired_joinedMembers members⟩

end

theorem itemsPlain_iff {items : List Json} :
    itemsPlain items = true ↔ ∀ j ∈ items, j.isPlain = true := by
  induction items with
  | nil => simp [itemsPlain]
  | cons j items ih => simp [itemsPlain, ih]

theorem membersPlain_iff {members : List (Spelling × Json)} :
    membersPlain members = true ↔ ∀ m ∈ members, m.1.isPlain = true ∧ m.2.isPlain = true := by
  induction members with
  | nil => simp [membersPlain]
  | cons m members ih => simp [membersPlain, ih]

mutual

theorem unpaired_of_isPlain (j : Json) (h : j.isPlain = true) : j.Unpaired := by
  match j with
  | null => exact .null
  | bool b => exact .bool b
  | int n => exact .int n
  | float x => exact .float x
  | text s => exact .text (Spelling.joined_eq_self_iff.mp (Spelling.joined_of_isPlain h))
  | array items => exact .array (unpaired_of_itemsPlain items h)
  | object members =>
    have hmembers := unpaired_of_membersPlain members h
    exact .object (fun m hm => (hmembers m hm).1) fun m hm => (hmembers m hm).2

theorem unpaired_of_itemsPlain (items : List Json) (h : itemsPlain items = true) :
    ∀ j ∈ items, j.Unpaired := by
  match items with
  | [] => exact List.forall_mem_nil _
  | j :: items =>
    obtain ⟨hj, hitems⟩ := Bool.and_eq_true_iff.mp h
    exact List.forall_mem_cons.mpr ⟨unpaired_of_isPlain j hj, unpaired_of_itemsPlain items hitems⟩

theorem unpaired_of_membersPlain (members : List (Spelling × Json))
    (h : membersPlain members = true) : ∀ m ∈ members, m.1.Unpaired ∧ m.2.Unpaired := by
  match members with
  | [] => exact List.forall_mem_nil _
  | (name, j) :: members =>
    obtain ⟨hfirst, hmembers⟩ := Bool.and_eq_true_iff.mp h
    obtain ⟨hname, hj⟩ := Bool.and_eq_true_iff.mp hfirst
    have hwhole := Spelling.joined_eq_self_iff.mp (Spelling.joined_of_isPlain hname)
    exact List.forall_mem_cons.mpr
      ⟨⟨hwhole, unpaired_of_isPlain j hj⟩, unpaired_of_membersPlain members hmembers⟩

end

/-! ## One text for a tree and for the joined tree -/

theorem escaped_wide {c : Char} (h : 0x10000 ≤ c.toNat) : escaped .ascii c =
    unitEscape (0xD800 + (c.toNat - 0x10000) / 0x400) ++
      unitEscape (0xDC00 + (c.toNat - 0x10000) % 0x400) := by
  unfold escaped
  split
  iterate 7 exact absurd h (by decide)
  rw [if_neg (by omega), if_neg (by simp; omega), if_neg (by omega)]

/-- Two units that form a pair are written like their code point. -/
theorem escapedPoint_pair {n n' : Nat} (h : (Text.isHigh n && Text.isLow n') = true) :
    escapedPoint .ascii (0x10000 + (n - 0xD800) * 0x400 + (n' - 0xDC00)) =
      escapedPoint .ascii n ++ escapedPoint .ascii n' := by
  obtain ⟨hhigh, hlow⟩ := Bool.and_eq_true_iff.mp h
  have hhalf : Text.isHalf n = true := by simp [Text.isHalf, hhigh]
  have hhalf' : Text.isHalf n' = true := by simp [Text.isHalf, hlow]
  simp only [Text.isHigh, Text.isLow, Bool.and_eq_true, decide_eq_true_eq] at hhigh hlow
  generalize hm : 0x10000 + (n - 0xD800) * 0x400 + (n' - 0xDC00) = m
  have hwhole : Text.isHalf m = false := by
    simp only [Text.isHalf, Text.isHigh, Text.isLow, Bool.or_eq_false_iff, Bool.and_eq_false_iff,
      decide_eq_false_iff_not]
    omega
  have hnat : (Char.ofNat m).toNat = m := Text.toNat_ofNat (by omega) hwhole
  have hfirst : 0xD800 + (m - 0x10000) / 0x400 = n := by omega
  have hsecond : 0xDC00 + (m - 0x10000) % 0x400 = n' := by omega
  rw [escapedPoint, hwhole, if_neg Bool.false_ne_true, escaped_wide (by omega), hnat, hfirst,
    hsecond, escapedPoint, if_pos hhalf, escapedPoint, if_pos hhalf']

theorem flatMap_joinUnits (ns : List Nat) :
    (Text.joinUnits ns).flatMap (escapedPoint .ascii) = ns.flatMap (escapedPoint .ascii) := by
  induction ns using Text.joinUnits.induct with
  | case1 => rfl
  | case2 n => rfl
  | case3 n n' rest hpair ih =>
    rw [Text.joinUnits, if_pos hpair, List.flatMap_cons, List.flatMap_cons, List.flatMap_cons, ih,
      escapedPoint_pair hpair, List.append_assoc]
  | case4 n n' rest hpair ih =>
    rw [Text.joinUnits, if_neg hpair, List.flatMap_cons, List.flatMap_cons, ih]

theorem quotedText_joined (s : Spelling) : quotedText .ascii s.joined = quotedText .ascii s := by
  rw [quotedText, quotedText, Spelling.points_joined, flatMap_joinUnits]

mutual

theorem chars_joined (j : Json) : j.joined.chars .ascii = j.chars .ascii := by
  match j with
  | null | bool _ | int _ | float _ => rfl
  | text s => exact quotedText_joined s
  | array items => rw [joined, chars, chars, itemChars_joinedItems]
  | object members => rw [joined, chars, chars, memberChars_joinedMembers]

theorem itemChars_joinedItems (items : List Json) :
    itemChars .ascii (joinedItems items) = itemChars .ascii items := by
  match items with
  | [] => rfl
  | [j] => rw [joinedItems, joinedItems, itemChars, itemChars, chars_joined]
  | j :: j' :: items =>
    have hrest := itemChars_joinedItems (j' :: items)
    rw [joinedItems] at hrest ⊢
    rw [itemChars, itemChars, chars_joined, joinedItems, hrest]
    all_goals simp [joinedItems]

theorem memberChars_joinedMembers (members : List (Spelling × Json)) :
    memberChars .ascii (joinedMembers members) = memberChars .ascii members := by
  match members with
  | [] => rfl
  | [(name, j)] =>
    rw [joinedMembers, joinedMembers, memberChars, memberChars, quotedText_joined, chars_joined]
  | (name, j) :: (name', j') :: members =>
    have hrest := memberChars_joinedMembers ((name', j') :: members)
    rw [joinedMembers] at hrest ⊢
    rw [memberChars, memberChars, quotedText_joined, chars_joined, joinedMembers, hrest]
    all_goals simp [joinedMembers]

end

/-- **A tree is written like the joined one.** -/
theorem render_joined (j : Json) : j.joined.render .ascii = j.render .ascii := by
  rw [render, render, chars_joined]

end DocTable.Json
