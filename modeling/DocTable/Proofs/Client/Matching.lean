import DocTable.Client.Script
import DocTable.Proofs.Number.Floats
import DocTable.Proofs.Value.Shown
import DocTable.Proofs.Value.Tree
import Mathlib.Data.List.Forall2
import Mathlib.Logic.Relation

/-! How requests are checked. What is expected may leave out members of maps, but no items of lists,
and its scalars are compared as equal ones. On trees this is a preorder, so a request that is
accepted is still accepted with more members; what is not accepted is told by an assertion, unless
it shows a number that has too many digits to be written. -/

namespace DocTable

open Entries Outcome

namespace Value

/-- The values without parts of which requests are made. -/
inductive Scalar : Value → Prop where
  | null : Scalar null
  | bool (b : Bool) : Scalar (bool b)
  | int (n : Int) : Scalar (int n)
  | text (s : Spelling) : Scalar (text s)
  | bytes (content : List UInt8) : Scalar (bytes false content)

/-- What may stand in a check in place of a part. -/
inductive Expectable : Value → Prop where
  | any : Expectable wildcard
  | scalar {v : Value} (h : Scalar v) : Expectable v

/-- Whether a value holds what is expected of it. -/
inductive Holds : Value → Value → Prop where
  | any (actual : Value) : Holds wildcard actual
  | scalar {e a : Value} (h : Scalar e) (same : e.same a = true) : Holds e a
  | list {items found : List Value} (h : List.Forall₂ Holds items found) :
    Holds (.list items) (.list found)
  | map {entries found : List (Value × Value)}
      (keys : entries.map (·.1) ⊆ found.map (·.1))
      (h : ∀ e ∈ entries, ∀ f ∈ found, e.1 = f.1 → Holds e.2 f.2) :
    Holds (.map entries) (.map found)

variable {e a b : Value} {path : String} {entries found : Entries} {items : List Value}

theorem Scalar.simple (v : Value) (h : Scalar v) : v.Simple := by
  cases h <;> trivial

theorem Expectable.simple (h : Expectable e) : e.Simple := by
  cases h with
  | any => trivial
  | scalar h => exact h.simple

/-- A scalar with truth values as the integers that they are equal to. -/
def widened : Value → Value
  | bool b => int (if b then 1 else 0)
  | v => v

theorem Scalar.same_iff (he : Scalar e) (ha : Scalar a) :
    e.same a = true ↔ e.widened = a.widened := by
  cases he <;> cases ha <;> simp [same, sameAtom, number?, widened]
  case bool.bool b b' => cases b <;> cases b' <;> decide

theorem Scalar.same_self (h : Scalar e) : e.same e = true :=
  (h.same_iff h).mpr rfl

/-- What is equal to a scalar is one. -/
theorem Scalar.of_same (he : Scalar e) (ha : Tree Scalar a) (h : e.same a = true) : Scalar a := by
  cases ha with
  | leaf ha => exact ha
  | list | map => cases he <;> simp [same, sameAtom, number?] at h

theorem Scalar.same_trans (he : Scalar e) (ha : Scalar a) (hb : Tree Scalar b)
    (h : e.same a = true) (h' : a.same b = true) : e.same b = true := by
  have hb := ha.of_same hb h'
  exact (he.same_iff hb).mpr (((he.same_iff ha).mp h).trans ((ha.same_iff hb).mp h'))

theorem isSignaling_of_tree (h : Tree Scalar a) : a.isSignaling = false := by
  cases h with
  | leaf h => cases h <;> rfl
  | list | map => rfl

theorem Scalar.equal_eq (he : Scalar e) (ha : Tree Scalar a) : e.equal a = .ok (e.same a) := by
  rw [equal, isSignaling_of_tree (.leaf he), isSignaling_of_tree ha]
  rfl

/-- What a scalar and another value are refused with: both are shown, if they can be. -/
def difference (path : String) (e a : Value) : Failure :=
  if e.hasText = true ∧ a.hasText = true then .mismatch (.differs path e.shown a.shown)
  else .badText

theorem Scalar.expectMatch_eq (he : Scalar e) (ha : Tree Scalar a) : e.expectMatch path a =
    if e.same a then .ok () else .error (difference path e a) := by
  have hequal : expectEqual path e a =
      if e.same a then .ok () else .error (difference path e a) := by
    rw [expectEqual, he.equal_eq ha]
    cases hsame : e.same a with
    | true => rfl
    | false =>
      unfold difference shownText
      cases e.hasText <;> cases a.hasText <;> rfl
  rw [← hequal]
  cases he <;> simp [expectMatch]

/-! ## What is accepted -/

theorem expectItems_eq_ok_iff (index : Nat) {found : List Value}
    (hlength : items.length = found.length)
    (hitems : ∀ e ∈ items, ∀ a ∈ found, ∀ path, e.expectMatch path a = .ok () ↔ e.Holds a) :
    expectItems path index items found = .ok () ↔ List.Forall₂ Holds items found := by
  induction items generalizing index found with
  | nil =>
    obtain rfl := List.length_eq_zero_iff.mp hlength.symm
    simp [expectItems]
  | cons e items ih =>
    cases found with
    | nil => cases hlength
    | cons a found =>
      have hfirst := hitems e List.mem_cons_self a List.mem_cons_self (itemPath path index)
      have hrest := ih (index + 1) (Nat.succ.inj hlength) fun e he a ha =>
        hitems e (List.mem_cons_of_mem _ he) a (List.mem_cons_of_mem _ ha)
      rw [expectItems, bind_eq_ok, List.forall₂_cons, ← hfirst, ← hrest]
      exact ⟨fun ⟨_, h, h'⟩ => ⟨h, h'⟩, fun ⟨h, h'⟩ => ⟨(), h, h'⟩⟩

/-- Whether what is found under the name of an entry is as expected. -/
def EntryMatches (path : String) (found : Entries) (e : Value × Value) : Prop :=
  ∃ a, found.find? e.1 = some a ∧ e.2.expectMatch (path ++ "." ++ e.1.plain) a = .ok ()

/-- The first of some entries is expected under its name, then the others are. -/
theorem expectEntries_cons (name : Spelling) (v : Value) :
    expectEntries path ((text name, v) :: entries) found = match found.find? (text name) with
      | none => .error (.mismatch (.missing path (text name).shown))
      | some a => v.expectMatch (path ++ "." ++ name.mended) a >>= fun _ =>
        expectEntries path entries found := by
  rw [expectEntries]
  cases found.find? (text name) <;> rfl

theorem expectEntries_eq_ok_iff (hnames : ∀ e ∈ entries, ∃ name, e.1 = text name) :
    expectEntries path entries found = .ok () ↔ ∀ e ∈ entries, EntryMatches path found e := by
  induction entries with
  | nil => simp [expectEntries]
  | cons e entries ih =>
    obtain ⟨⟨name, hname⟩, hrest⟩ := List.forall_mem_cons.mp hnames
    obtain ⟨k, v⟩ := e
    obtain rfl : k = text name := hname
    rw [expectEntries_cons, List.forall_mem_cons, ← ih hrest, EntryMatches]
    cases hfind : found.find? (text name) with
    | none => simp
    | some a =>
      dsimp only
      rw [bind_eq_ok]
      constructor
      · rintro ⟨_, h, h'⟩
        exact ⟨⟨a, rfl, h⟩, h'⟩
      · rintro ⟨⟨a, heq, h⟩, h'⟩
        cases heq
        exact ⟨(), h, h'⟩

/-- What is found under a key of a map under distinct names is the entry that it has there. -/
theorem find?_eq_some_iff (h : Named found) {k : Value} :
    found.find? k = some a ↔ (k, a) ∈ found := by
  constructor
  · intro hfind
    obtain ⟨k', hkey, hmem⟩ := OrderedMap.exists_mem_of_find? hfind
    obtain ⟨name, hname⟩ := h.1 _ hmem
    obtain rfl : k' = .text name := hname
    exact text_same.mp hkey ▸ hmem
  · intro hmem
    obtain ⟨name, hname⟩ := h.1 _ hmem
    obtain rfl : k = .text name := hname
    exact OrderedMap.find?_of_mem h.2 (Value.beq_text.mpr rfl) hmem

/-- A map holds a map of expectations when it has an entry for each. -/
theorem holds_map_iff (h : Named found) : (map entries).Holds (.map found) ↔
    ∀ e ∈ entries, ∃ a, (e.1, a) ∈ found ∧ e.2.Holds a := by
  constructor
  · intro hholds e he
    cases hholds with
    | scalar hscalar => cases hscalar
    | map hkeys hvalues =>
      obtain ⟨f, hf, hkey⟩ := List.mem_map.mp (hkeys (List.mem_map_of_mem he))
      exact ⟨f.2, hkey ▸ hf, hvalues e he f hf hkey.symm⟩
  · intro hentries
    refine .map (fun k hk => ?_) fun e he f hf hkey => ?_
    · obtain ⟨e, he, rfl⟩ := List.mem_map.mp hk
      obtain ⟨a, ha, -⟩ := hentries e he
      exact List.mem_map.mpr ⟨_, ha, rfl⟩
    · obtain ⟨a, ha, hholds⟩ := hentries e he
      rwa [← h.eq_of_mem ha hf hkey]

theorem itemsToMatch_eq_ok_iff (ha : Tree Scalar a) {count : Nat} {found : List Value} :
    itemsToMatch path count a = .ok found ↔ a = .list found ∧ count = found.length := by
  cases ha with
  | leaf ha => cases ha <;> simp [itemsToMatch, sequence?]
  | map => simp [itemsToMatch, sequence?]
  | @list items _ =>
    have hmatch : itemsToMatch path count (.list items) =
      if count = items.length then .ok items
      else .error (.mismatch (.length path count items.length)) := rfl
    rw [hmatch, list.injEq]
    split
    next hlength => simpa using fun heq => heq ▸ hlength
    next hlength => simpa using fun heq => heq ▸ hlength

theorem expectMatch_list_eq_ok_iff (ha : Tree Scalar a) :
    (list items).expectMatch path a = .ok () ↔ ∃ found, a = .list found ∧
      items.length = found.length ∧ expectItems path 0 items found = .ok () := by
  simp only [expectMatch, bind_eq_ok, itemsToMatch_eq_ok_iff ha, and_assoc]

theorem expectMatch_map_eq_ok_iff : (map entries).expectMatch path a = .ok () ↔
    ∃ found, a = .map found ∧ expectEntries path entries found = .ok () := by
  cases a <;> simp [expectMatch]

/-- A check accepts exactly what holds what it expects. -/
theorem expectMatch_eq_ok_iff (he : Tree Expectable e) (ha : Tree Scalar a) (path : String) :
    e.expectMatch path a = .ok () ↔ e.Holds a := by
  induction he generalizing a path with
  | leaf he =>
    cases he with
    | any => simp [expectMatch, Holds.any]
    | scalar he =>
      rw [he.expectMatch_eq ha, check_eq_ok]
      constructor
      · exact .scalar he
      · intro h
        cases h with
        | any => cases he
        | scalar _ hsame => exact hsame
        | list | map => cases he
  | @list items hitems ih =>
    have hmembers : ∀ found, a = .list found → ∀ e ∈ items, ∀ a ∈ found, ∀ path,
        e.expectMatch path a = .ok () ↔ e.Holds a := by
      rintro found rfl e he a hmem path
      exact ih e he (ha.of_mem_items Scalar.simple hmem) path
    rw [expectMatch_list_eq_ok_iff ha]
    constructor
    · rintro ⟨found, rfl, hlength, h⟩
      exact .list ((expectItems_eq_ok_iff 0 hlength (hmembers found rfl)).mp h)
    · intro h
      cases h with
      | scalar h => cases h
      | @list _ found h =>
        exact ⟨found, rfl, h.length_eq,
          (expectItems_eq_ok_iff 0 h.length_eq (hmembers found rfl)).mpr h⟩
  | @map entries hnames hentries ih =>
    have hmembers : ∀ found : Entries, a = .map found →
        (expectEntries path entries found = .ok () ↔ (map entries).Holds (.map found)) := by
      rintro found rfl
      have hfound := ha.named Scalar.simple
      rw [expectEntries_eq_ok_iff hnames.1, holds_map_iff hfound]
      refine forall₂_congr fun e he => exists_congr fun a => ?_
      rw [find?_eq_some_iff hfound]
      refine and_congr_right fun hmem => ih e he ?_ _
      exact ha.of_mem_entries Scalar.simple hmem
    rw [expectMatch_map_eq_ok_iff]
    constructor
    · rintro ⟨found, rfl, h⟩
      exact (hmembers found rfl).mp h
    · intro h
      cases h with
      | scalar h => cases h
      | @map _ found hkeys h => exact ⟨found, rfl, (hmembers found rfl).mpr (.map hkeys h)⟩

theorem entryMatches_iff {e : Value × Value} (he : Tree Expectable e.2)
    (ha : Tree Scalar (.map found)) :
    EntryMatches path found e ↔ ∃ a, (e.1, a) ∈ found ∧ e.2.Holds a := by
  refine exists_congr fun a => ?_
  rw [find?_eq_some_iff (ha.named Scalar.simple)]
  exact and_congr_right fun hmem =>
    expectMatch_eq_ok_iff he (ha.of_mem_entries Scalar.simple hmem) _

/-! ## What is refused -/

/-- Where a check first finds a scalar that is not as expected: what is expected there, and what is
found. -/
inductive Differs : Value → Value → Value → Value → Prop where
  | scalar {e a : Value} (h : Scalar e) (differ : e.same a = false) : Differs e a e a
  | item {before after foundBefore foundAfter : List Value} {e a e' a' : Value}
      (held : List.Forall₂ Holds before foundBefore) (length : after.length = foundAfter.length)
      (h : Differs e a e' a') :
    Differs (.list (before ++ e :: after)) (.list (foundBefore ++ a :: foundAfter)) e' a'
  | entry {before after found : Entries} {k e a e' a' : Value}
      (held : (map before).Holds (.map found)) (there : (k, a) ∈ found)
      (h : Differs e a e' a') : Differs (.map (before ++ (k, e) :: after)) (.map found) e' a'

/-- Items are refused for the first that is not as expected. -/
theorem expectItems_eq_error {f : Failure} {index : Nat} {found : List Value}
    (hitems : ∀ e ∈ items, ∀ a ∈ found, ∀ path, e.expectMatch path a = .ok () ↔ e.Holds a) :
    expectItems path index items found = .error f ↔
      ∃ before e after foundBefore a foundAfter, items = before ++ e :: after ∧
        found = foundBefore ++ a :: foundAfter ∧ List.Forall₂ Holds before foundBefore ∧
        e.expectMatch (itemPath path (index + before.length)) a = .error f := by
  induction items generalizing index found with
  | nil => simp [expectItems]
  | cons e items ih =>
    cases found with
    | nil => simp [expectItems]
    | cons a found =>
      have hfirst := hitems e List.mem_cons_self a List.mem_cons_self (itemPath path index)
      have hrest := @ih (index + 1) found fun e he a ha =>
        hitems e (List.mem_cons_of_mem _ he) a (List.mem_cons_of_mem _ ha)
      rw [expectItems, bind_eq_error, hrest]
      constructor
      · rintro (h | ⟨_, h, before, e', after, foundBefore, a', foundAfter, rfl, rfl, hheld, h'⟩)
        · exact ⟨[], e, items, [], a, found, rfl, rfl, .nil, h⟩
        · refine ⟨e :: before, e', after, a :: foundBefore, a', foundAfter, rfl, rfl,
            .cons (hfirst.mp h) hheld, ?_⟩
          rwa [List.length_cons, ← Nat.add_assoc, Nat.add_right_comm]
      · rintro ⟨before, e', after, foundBefore, a', foundAfter, heq, heq', hheld, h⟩
        cases hheld with
        | nil =>
          obtain ⟨rfl, rfl⟩ := List.cons.inj heq
          obtain ⟨rfl, rfl⟩ := List.cons.inj heq'
          exact .inl h
        | @cons _ _ before foundBefore hholds hheld =>
          obtain ⟨rfl, rfl⟩ := List.cons.inj heq
          obtain ⟨rfl, rfl⟩ := List.cons.inj heq'
          refine .inr ⟨(), hfirst.mpr hholds, before, e', after, foundBefore, a', foundAfter, rfl,
            rfl, hheld, ?_⟩
          rwa [List.length_cons, ← Nat.add_assoc, Nat.add_right_comm] at h

/-- Entries are refused for the first that is missing or not as expected. -/
theorem expectEntries_eq_error {f : Failure} (hnames : ∀ e ∈ entries, ∃ name, e.1 = text name) :
    expectEntries path entries found = .error f ↔
      ∃ before e after, entries = before ++ e :: after ∧
        (∀ e ∈ before, EntryMatches path found e) ∧
        (found.find? e.1 = none ∧ f = .mismatch (.missing path e.1.shown) ∨
          ∃ a, found.find? e.1 = some a ∧
            e.2.expectMatch (path ++ "." ++ e.1.plain) a = .error f) := by
  induction entries with
  | nil => simp [expectEntries]
  | cons e entries ih =>
    obtain ⟨⟨name, hname⟩, hrest⟩ := List.forall_mem_cons.mp hnames
    obtain ⟨k, v⟩ := e
    obtain rfl : k = text name := hname
    have hstep : expectEntries path ((text name, v) :: entries) found = .error f ↔
        (found.find? (text name) = none ∧ f = .mismatch (.missing path (text name).shown) ∨
          ∃ a, found.find? (text name) = some a ∧
            v.expectMatch (path ++ "." ++ name.mended) a = .error f) ∨
        EntryMatches path found (text name, v) ∧ expectEntries path entries found = .error f := by
      rw [expectEntries_cons]
      cases hfind : found.find? (text name) with
      | none => simp [EntryMatches, hfind, eq_comm]
      | some a =>
        dsimp only
        simp only [EntryMatches, hfind, bind_eq_error, reduceCtorEq, false_and, false_or,
          Option.some.injEq, exists_eq_left', plain_text]
        exact or_congr_right ⟨fun ⟨_, h⟩ => h, fun h => ⟨(), h⟩⟩
    rw [hstep, ih hrest]
    constructor
    · rintro (h | ⟨h, before, e, after, rfl, hbefore, h'⟩)
      · exact ⟨[], _, entries, rfl, List.forall_mem_nil _, h⟩
      · exact ⟨_ :: before, e, after, rfl, List.forall_mem_cons.mpr ⟨h, hbefore⟩, h'⟩
    · rintro ⟨before, e, after, heq, hbefore, h⟩
      cases before with
      | nil =>
        obtain ⟨rfl, rfl⟩ := List.cons.inj heq
        exact .inl h
      | cons first before =>
        obtain ⟨rfl, rfl⟩ := List.cons.inj heq
        obtain ⟨hfirst, hbefore⟩ := List.forall_mem_cons.mp hbefore
        exact .inr ⟨hfirst, before, e, after, rfl, hbefore, h⟩

/-- A check that finds a scalar that is not as expected is refused for that. -/
theorem Differs.expectMatch_eq {e' a' : Value} (h : Differs e a e' a') (he : Tree Expectable e)
    (ha : Tree Scalar a) (path : String) :
    ∃ path', e.expectMatch path a = .error (difference path' e' a') := by
  induction h generalizing path with
  | scalar h differ => exact ⟨path, by rw [h.expectMatch_eq ha, differ, if_neg Bool.false_ne_true]⟩
  | @item before after foundBefore foundAfter e a e' a' held length _ ih =>
    have hitems := fun v => he.of_mem_items (fun _ => Expectable.simple) (v := v)
    have hfound := fun v => ha.of_mem_items Scalar.simple (v := v)
    obtain ⟨path', h⟩ := ih (hitems e (by simp)) (hfound a (by simp))
      (itemPath path (0 + before.length))
    refine ⟨path', ?_⟩
    have hmatch : itemsToMatch path (before ++ e :: after).length
        (.list (foundBefore ++ a :: foundAfter)) = .ok (foundBefore ++ a :: foundAfter) :=
      (itemsToMatch_eq_ok_iff ha).mpr ⟨rfl, by simp [held.length_eq, length]⟩
    rw [expectMatch, hmatch]
    refine (expectItems_eq_error fun e he a ha path =>
      expectMatch_eq_ok_iff (hitems e he) (hfound a ha) path).mpr
        ⟨before, e, after, foundBefore, a, foundAfter, rfl, rfl, held, h⟩
  | @entry before after found k e a e' a' held there _ ih =>
    have hentries := fun e => he.of_mem_entries (fun _ => Expectable.simple) (e := e)
    have hnames := he.named fun _ => Expectable.simple
    have hfound := ha.named Scalar.simple
    obtain ⟨path', h⟩ := ih (hentries (k, e) (by simp)) (ha.of_mem_entries Scalar.simple there)
      (path ++ "." ++ k.plain)
    refine ⟨path', ?_⟩
    rw [expectMatch]
    refine (expectEntries_eq_error hnames.1).mpr ⟨before, (k, e), after, rfl, fun e he => ?_,
      .inr ⟨a, (find?_eq_some_iff hfound).mpr there, h⟩⟩
    exact (entryMatches_iff (hentries e (by simp [he])) ha).mpr ((holds_map_iff hfound).mp held e he)

theorem hasText_of_mem_items (h : (list items).hasText = true) : ∀ v ∈ items, v.hasText = true := by
  rw [hasText] at h
  induction items with
  | nil => exact List.forall_mem_nil _
  | cons v items ih =>
    rw [allHaveText, Bool.and_eq_true] at h
    exact List.forall_mem_cons.mpr ⟨h.1, ih h.2⟩

theorem hasText_of_mem_entries (h : (map entries).hasText = true) :
    ∀ e ∈ entries, e.2.hasText = true := by
  rw [hasText] at h
  induction entries with
  | nil => exact List.forall_mem_nil _
  | cons e entries ih =>
    obtain ⟨k, v⟩ := e
    rw [entriesHaveText, Bool.and_eq_true, Bool.and_eq_true] at h
    exact List.forall_mem_cons.mpr ⟨h.1.2, ih h.2⟩

/-- What differs can be shown wherever all can. -/
theorem Differs.hasText {e' a' : Value} (h : Differs e a e' a') (he : e.hasText = true)
    (ha : a.hasText = true) : e'.hasText = true ∧ a'.hasText = true := by
  induction h with
  | scalar => exact ⟨he, ha⟩
  | item _ _ _ ih =>
    exact ih (hasText_of_mem_items he _ (by simp)) (hasText_of_mem_items ha _ (by simp))
  | @entry before after _ k e _ _ _ _ there _ ih =>
    exact ih (hasText_of_mem_entries he (k, e) (by simp)) (hasText_of_mem_entries ha _ there)

/-! ## A preorder -/

theorem holds_refl (h : Tree Scalar a) : a.Holds a := by
  induction h with
  | leaf h => exact .scalar h h.same_self
  | list _ ih => exact .list (List.forall₂_same.mpr ih)
  | map hnames _ ih => exact (holds_map_iff hnames).mpr fun e he => ⟨e.2, he, ih e he⟩

/-- The induction is on what is expected, since that ends first: at a wildcard or at a scalar. -/
theorem Holds.trans (he : Tree Expectable e) (ha : Tree Scalar a) (hb : Tree Scalar b)
    (h : e.Holds a) (h' : a.Holds b) : e.Holds b := by
  induction he generalizing a b with
  | leaf he =>
    cases h with
    | any => exact .any b
    | scalar he hsame =>
      have hscalar := he.of_same ha hsame
      cases h' with
      | any => cases hscalar
      | scalar _ hsame' => exact .scalar he (he.same_trans hscalar hb hsame hsame')
      | list | map => cases hscalar
    | list | map => cases he with | scalar he => cases he
  | @list items _ ih =>
    cases h with
    | scalar h => cases h
    | @list _ found h =>
      cases h' with
      | scalar h' => cases h'
      | @list _ found' h' =>
        have hitems := (List.forall₂_and_left _ _).mpr ⟨ih, h⟩
        have htrees' := (List.forall₂_and_left _ _).mpr
          ⟨fun _ => hb.of_mem_items Scalar.simple, h'.flip⟩
        have htrees := (List.forall₂_and_left _ _).mpr
          ⟨fun _ => ha.of_mem_items Scalar.simple, htrees'.flip⟩
        refine .list (forall₂_trans hitems htrees ?_)
        rintro e a b ⟨ih, hholds⟩ ⟨ha, hb, hholds'⟩
        exact ih ha hb hholds hholds'
  | @map entries _ _ ih =>
    cases h with
    | scalar h => cases h
    | @map _ found hkeys h =>
      cases h' with
      | scalar h' => cases h'
      | @map _ found' hkeys' h' =>
        have hfound := ha.named Scalar.simple
        have hfound' := hb.named Scalar.simple
        refine (holds_map_iff hfound').mpr fun e he => ?_
        obtain ⟨a, hmem, hholds⟩ := (holds_map_iff hfound).mp (.map hkeys h) e he
        obtain ⟨b, hmem', hholds'⟩ := (holds_map_iff hfound').mp (.map hkeys' h') _ hmem
        refine ⟨b, hmem', ih e he ?_ ?_ hholds hholds'⟩
        · exact ha.of_mem_entries Scalar.simple hmem
        · exact hb.of_mem_entries Scalar.simple hmem'

/-! ## More members -/

/-- Whether one value becomes another by a member that is added to one of its maps, however deep. -/
inductive Adds : Value → Value → Prop where
  | member {entries : Entries} {name : Spelling} {v : Value} (new : text name ∉ entries.keys)
      (tree : Tree Scalar v) : Adds (.map entries) (.map (entries.put (text name) v))
  | entry {before after : Entries} {k v w : Value} (h : Adds v w) :
    Adds (.map (before ++ (k, v) :: after)) (.map (before ++ (k, w) :: after))
  | item {before after : List Value} {v w : Value} (h : Adds v w) :
    Adds (.list (before ++ v :: after)) (.list (before ++ w :: after))

theorem Adds.tree (h : Adds a b) (ha : Tree Scalar a) : Tree Scalar b := by
  induction h with
  | @member entries name v _ hv =>
    refine .map ((ha.named Scalar.simple).put name v) fun e he => ?_
    rcases value_of_mem_put he with heq | hmem
    · exact heq ▸ hv
    · exact ha.of_mem_entries Scalar.simple hmem
  | @entry before after k v w _ ih =>
    have hentries := fun e => ha.of_mem_entries Scalar.simple (e := e)
    refine .map ((ha.named Scalar.simple).of_perm (.of_eq (by simp [OrderedMap.keys]))) ?_
    simp only [List.forall_mem_append, List.forall_mem_cons] at hentries ⊢
    exact ⟨hentries.1, ih hentries.2.1, hentries.2.2⟩
  | @item before after v w _ ih =>
    have hitems := fun v => ha.of_mem_items Scalar.simple (v := v)
    refine .list ?_
    simp only [List.forall_mem_append, List.forall_mem_cons] at hitems ⊢
    exact ⟨hitems.1, ih hitems.2.1, hitems.2.2⟩

/-- What has more members holds what was there before. -/
theorem Adds.holds (h : Adds a b) (ha : Tree Scalar a) : a.Holds b := by
  have hb := h.tree ha
  induction h with
  | @member entries name v hnew _ =>
    have hput : entries.put (text name) v = entries ++ [(text name, v)] := by
      refine OrderedMap.put_of_new fun e he => Bool.eq_false_iff.mpr fun hkey => hnew ?_
      exact List.mem_map.mpr ⟨e, he, Value.beq_text.mp hkey⟩
    refine (holds_map_iff (hb.named Scalar.simple)).mpr fun e he => ⟨e.2, ?_, ?_⟩
    · exact hput ▸ List.mem_append_left _ he
    · exact holds_refl (ha.of_mem_entries Scalar.simple he)
  | @entry before after k v w _ ih =>
    have hentries := fun e => ha.of_mem_entries Scalar.simple (e := e)
    have hw := hb.of_mem_entries Scalar.simple (e := (k, w)) (by simp)
    refine (holds_map_iff (hb.named Scalar.simple)).mpr ?_
    simp only [List.forall_mem_append, List.forall_mem_cons] at hentries ⊢
    obtain ⟨hbefore, hv, hafter⟩ := hentries
    refine ⟨fun e he => ?_, ⟨w, by simp, ih hv hw⟩, fun e he => ?_⟩
    · exact ⟨e.2, by simp [he], holds_refl (hbefore e he)⟩
    · exact ⟨e.2, by simp [he], holds_refl (hafter e he)⟩
  | @item before after v w _ ih =>
    have hitems := fun v => ha.of_mem_items Scalar.simple (v := v)
    have hw := hb.of_mem_items Scalar.simple (v := w) (by simp)
    simp only [List.forall_mem_append, List.forall_mem_cons] at hitems
    obtain ⟨hbefore, hv, hafter⟩ := hitems
    have hrefl : ∀ items : List Value, (∀ v ∈ items, Tree Scalar v) →
        List.Forall₂ Holds items items :=
      fun items h => List.forall₂_same.mpr fun v hv => holds_refl (h v hv)
    exact .list (List.rel_append (hrefl before hbefore) (.cons (ih hv hw) (hrefl after hafter)))

end Value

end DocTable
