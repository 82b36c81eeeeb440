import DocTable.Proofs.Number.Integers
import DocTable.Proofs.Outcome
import DocTable.Proofs.Value.Restored

/-! Values of the kinds that the store knows, nested in lists and maps: each is written as an
attribute value, and what is read of that is the value again. -/

namespace DocTable

/-! ## The values of each kind -/

/-- The values of a kind that are no lists or maps. Sets hold members of one kind, none of them
twice; integers have no more digits than the store keeps. -/
inductive Tag.Atom : Tag → Value → Prop where
  | text (s : Spelling) : Atom .text (.text s)
  | number {n : Int} (h : n.natAbs < 10 ^ 38) : Atom .number (.int n)
  | bytes (changeable : Bool) (content : List UInt8) : Atom .bytes (.bytes changeable content)
  | bool (b : Bool) : Atom .bool (.bool b)
  | texts (frozen : Bool) {ss : List Spelling} (h : ss.Nodup) :
    Atom .texts (.set frozen (ss.map .text))
  | numbers (frozen : Bool) {ns : List Int} (h : ns.Nodup) (hn : ∀ n ∈ ns, n.natAbs < 10 ^ 38) :
    Atom .numbers (.set frozen (ns.map .int))
  | byteSets (frozen : Bool) {bs : List (List UInt8)} (h : bs.Nodup) :
    Atom .byteSets (.set frozen (bs.map (.bytes false)))

/-- The leaves of lists and maps. -/
inductive Attr.Leaf : Value → Prop where
  | null : Leaf .null
  | atom {t : Tag} {v : Value} (h : t.Atom v) : Leaf v

theorem Attr.toValues_eq (items : List Attr) : toValues items = items.map toValue := by
  induction items with
  | nil => rfl
  | cons a items ih => rw [toValues, ih, List.map_cons]

theorem Attr.toEntries_eq (entries : List (Spelling × Attr)) :
    toEntries entries = Entries.keyed (entries.map (Prod.map id toValue)) := by
  induction entries with
  | nil => rfl
  | cons e entries ih => rw [toEntries, ih]; rfl

theorem Attr.toEntries_ne_nil {entries : List (Spelling × Attr)} (h : entries ≠ []) :
    toEntries entries ≠ [] := by
  rw [toEntries_eq]
  simpa [Entries.keyed] using h

namespace Value

/-! ## Sets -/

/-- No two values are equal. -/
def Distinct (vs : List Value) : Prop :=
  vs.Pairwise fun v v' => v.same v' = false

theorem insertMember_of_distinct {done vs : List Value} {v : Value}
    (h : Distinct (done ++ v :: vs)) : insertMember done v = done ++ [v] := by
  have hnew : ∀ v' ∈ done, v'.same v = false := fun v' hv' =>
    (List.pairwise_append.mp h).2.2 v' hv' v List.mem_cons_self
  refine if_neg fun hany => ?_
  obtain ⟨v', hv', hsame⟩ := List.any_eq_true.mp hany
  rw [hnew v' hv'] at hsame
  cases hsame

theorem foldl_insertMember {done vs : List Value} (h : Distinct (done ++ vs)) :
    vs.foldl insertMember done = done ++ vs := by
  induction vs generalizing done with
  | nil => exact (List.append_nil done).symm
  | cons v vs ih =>
    have happend : done ++ v :: vs = done ++ [v] ++ vs := by simp
    rw [List.foldl_cons, insertMember_of_distinct h, happend, ih (happend ▸ h)]

/-- A set of distinct members has them all. -/
theorem membersOf_of_distinct {vs : List Value} (h : Distinct vs) : membersOf vs = vs :=
  foldl_insertMember (show Distinct ([] ++ vs) from h)

theorem distinct_map {α : Type} {f : α → Value} {as : List α} (h : as.Nodup)
    (hf : ∀ a ∈ as, ∀ a' ∈ as, (f a).same (f a') = true → a = a') : Distinct (as.map f) := by
  refine List.pairwise_map.mpr (h.imp_of_mem fun ha ha' hne => ?_)
  exact Bool.eq_false_iff.mpr fun hsame => hne (hf _ ha _ ha' hsame)

theorem membersToStorable_eq {done vs : List Value} (h : Distinct (done ++ vs))
    (hvs : ∀ v ∈ vs, v.toStorable = .ok v ∧ v.hashable = true) :
    membersToStorable done vs = .ok (done ++ vs) := by
  induction vs generalizing done with
  | nil => rw [membersToStorable, List.append_nil]
  | cons v vs ih =>
    obtain ⟨⟨hv, hhashable⟩, hrest⟩ := List.forall_mem_cons.mp hvs
    have happend : done ++ v :: vs = done ++ [v] ++ vs := by simp
    rw [membersToStorable, hv]
    show (if v.hashable = true then membersToStorable (insertMember done v) vs else _) = _
    rw [if_pos hhashable, insertMember_of_distinct h, happend, ih (happend ▸ h) hrest]

theorem simplifiedItems_map {α : Type} {f g : α → Value} {as : List α}
    (h : ∀ a ∈ as, (f a).simplified = .ok (g a)) :
    simplifiedItems (as.map f) = .ok (as.map g) := by
  induction as with
  | nil => rfl
  | cons a as ih =>
    obtain ⟨ha, hrest⟩ := List.forall_mem_cons.mp h
    rw [List.map_cons, simplifiedItems, ha, ih hrest]
    rfl

/-! ## There and back -/

/-- Whether the second value comes back for the first from the store. -/
def Returns (v v' : Value) : Prop :=
  ∃ u a m, v.toStorable = .ok u ∧ Attr.ofStorable u = .ok a ∧ ofStored a.toValue = .ok m ∧
    m.simplified = .ok v'

end Value

theorem Tag.ofCode?_upper (t : Tag) :
    ofCode? (String.ofList (t.code.toList.map Char.toUpper)) = some t := by
  cases t <;> decide

namespace Value

/-- An attribute value is read by its kind. -/
theorem ofStored_single (t : Tag) (payload : Value) : ofStored (Attr.single t payload) =
    match t with
    | .text | .bool => .ok payload
    | .null => .ok null
    | .number => do return decimal (← payload.toDecimal)
    | .bytes => payload.toBytes
    | .texts => do return set false (membersOf (← (← payload.iterate).mapM toMember))
    | .numbers => do
      let ds ← (← payload.iterate).mapM fun v => do toMember (decimal (← v.toDecimal))
      return set false (membersOf ds)
    | .byteSets => do
      let bs ← (← payload.iterate).mapM fun v => do
        let b ← v.toBytes
        let _ ← v.toMember
        return b
      return set false (membersOf bs)
    | .list => listOfStored payload
    | .map => mapOfStored payload := by
  rw [Attr.single, ofStored, Spelling.mended_plain, Tag.ofCode?_upper]
  cases t <;> rfl

theorem returns_null : Returns null null :=
  ⟨null, .null, null, rfl, rfl, by rw [Attr.toValue, ofStored_single], rfl⟩

theorem returns_text (s : Spelling) : Returns (text s) (text s) :=
  ⟨text s, .text s, text s, rfl, rfl,
    by rw [Attr.toValue, ofStored_single], rfl⟩

theorem returns_bool (b : Bool) : Returns (bool b) (bool b) :=
  ⟨bool b, .bool b, bool b, rfl, rfl,
    by rw [Attr.toValue, ofStored_single], rfl⟩

theorem returns_bytes (changeable : Bool) (content : List UInt8) :
    Returns (bytes changeable content) (bytes false content) :=
  ⟨bytes changeable content, .bytes changeable content, bytes false content, rfl, rfl,
    by rw [Attr.toValue, ofStored_single]; rfl, rfl⟩

theorem returns_int {n : Int} (h : n.natAbs < 10 ^ 38) : Returns (int n) (int n) := by
  refine ⟨int n, .number (Decimal.ofInt n).toText, decimal (.ofInt n), rfl, ?_, ?_, ?_⟩
  · rw [Attr.ofStorable, Attr.numberText_ofInt h]
    rfl
  · rw [Attr.toValue, ofStored_single]
    dsimp only
    rw [toDecimal_toText_ofInt h]
    rfl
  · rw [simplified, ofDecimal_ofInt]

/-! ### Sets -/

theorem mapM_map_eq_some {α β γ : Type} {f : β → Option γ} {g : α → β} {k : α → γ} {as : List α}
    (h : ∀ a ∈ as, f (g a) = some (k a)) : (as.map g).mapM f = some (as.map k) := by
  induction as with
  | nil => rfl
  | cons a as ih =>
    obtain ⟨ha, hrest⟩ := List.forall_mem_cons.mp h
    rw [List.map_cons, List.mapM_cons, ha, ih hrest]
    rfl

/-- Sets come back by their members, from what is read of the attribute value. -/
theorem returns_set {α : Type} {f g : α → Value} {as : List α} {a : Attr} (frozen : Bool)
    (hf : Distinct (as.map f)) (hg : Distinct (as.map g))
    (hstorable : ∀ a ∈ as, (f a).toStorable = .ok (f a) ∧ (f a).hashable = true)
    (hattr : Attr.ofMembers false (as.map f) = .ok a)
    (hread : ofStored a.toValue = .ok (set false (membersOf (as.map g))))
    (hsimplified : ∀ a ∈ as, (g a).simplified = .ok (f a)) :
    Returns (set frozen (as.map f)) (set false (as.map f)) := by
  refine ⟨set false (as.map f), a, _, ?_, hattr, hread, ?_⟩
  · have hempty : Distinct ([] ++ as.map f) := hf
    rw [toStorable, membersToStorable_eq hempty (List.forall_mem_map.mpr hstorable)]
    rfl
  · rw [membersOf_of_distinct hg, simplified, simplifiedItems_map hsimplified]
    show Except.ok (set false (membersOf (as.map f))) = _
    rw [membersOf_of_distinct hf]

theorem returns_numbers (frozen : Bool) {ns : List Int} (h : ns.Nodup)
    (hn : ∀ n ∈ ns, n.natAbs < 10 ^ 38) :
    Returns (set frozen (ns.map int)) (set false (ns.map int)) := by
  have hnumbers : (ns.map int).mapM exactNumber? = some (ns.map Decimal.ofInt) :=
    mapM_map_eq_some fun _ _ => rfl
  have htexts : (ns.map Decimal.ofInt).mapM Attr.numberText =
      .ok (ns.map fun n => (Decimal.ofInt n).toText) :=
    Outcome.mapM_map_eq_ok fun n hmem => Attr.numberText_ofInt (hn n hmem)
  have hmembers : (ns.map fun n => text (Decimal.ofInt n).toText).mapM
      (fun v => do toMember (decimal (← v.toDecimal))) =
      .ok (ns.map fun n => decimal (.ofInt n)) :=
    Outcome.mapM_map_eq_ok fun n hmem => by
      rw [toDecimal_toText_ofInt (hn n hmem)]
      rfl
  refine returns_set (g := fun n => decimal (.ofInt n))
    (a := .numbers (ns.map fun n => (Decimal.ofInt n).toText)) frozen
    (distinct_map h fun n _ n' _ hsame => by simpa [same, sameAtom] using hsame)
    (distinct_map h fun n _ n' _ hsame => decimal_same_iff.mp hsame)
    (fun n _ => ⟨rfl, rfl⟩) ?_ ?_ (fun n _ => ofDecimal_ofInt n)
  · rw [Attr.ofMembers, hnumbers]
    dsimp only
    rw [htexts]
    exact congrArg (fun ss => Except.ok (Attr.numbers ss)) List.map_map
  · rw [Attr.toValue, ofStored_single, List.map_map]
    exact congrArg (· >>= fun ds => .ok (set false (membersOf ds))) hmembers

theorem returns_texts (frozen : Bool) {ss : List Spelling} (h : ss.Nodup) :
    Returns (set frozen (ss.map text)) (set false (ss.map text)) := by
  cases ss with
  | nil => exact returns_numbers frozen .nil fun _ h => absurd h List.not_mem_nil
  | cons s ss =>
    have hdistinct : Distinct ((s :: ss).map text) :=
      distinct_map h fun s _ s' _ hsame => text_same_text.mp hsame
    have htexts : ((s :: ss).map text).mapM text? = some ((s :: ss).map id) :=
      mapM_map_eq_some fun _ _ => rfl
    have hmembers : ((s :: ss).map text).mapM toMember = .ok ((s :: ss).map text) :=
      Outcome.mapM_map_eq_ok fun _ _ => rfl
    refine returns_set (g := text) (a := .texts (s :: ss)) frozen hdistinct hdistinct
      (fun _ _ => ⟨rfl, rfl⟩) ?_ ?_ fun _ _ => rfl
    · have hnumbers : ((s :: ss).map text).mapM exactNumber? = none := rfl
      rw [Attr.ofMembers, hnumbers, htexts, List.map_id]
    · rw [Attr.toValue, ofStored_single]
      exact congrArg (· >>= fun vs => .ok (set false (membersOf vs))) hmembers

theorem returns_byteSets (frozen : Bool) {bs : List (List UInt8)} (h : bs.Nodup) :
    Returns (set frozen (bs.map (bytes false))) (set false (bs.map (bytes false))) := by
  cases bs with
  | nil => exact returns_numbers frozen .nil fun _ h => absurd h List.not_mem_nil
  | cons b bs =>
    have hdistinct : Distinct ((b :: bs).map (bytes false)) :=
      distinct_map h fun b _ b' _ hsame => by simpa [same, sameAtom] using hsame
    have hbytes : ((b :: bs).map (bytes false)).mapM bytes? = some ((b :: bs).map id) :=
      mapM_map_eq_some fun _ _ => rfl
    have hmembers : ((b :: bs).map (bytes false)).mapM (fun v => do
        let b ← v.toBytes
        let _ ← v.toMember
        return b) = .ok ((b :: bs).map (bytes false)) :=
      Outcome.mapM_map_eq_ok fun _ _ => rfl
    refine returns_set (g := bytes false) (a := .byteSets (b :: bs)) frozen hdistinct hdistinct
      (fun _ _ => ⟨rfl, rfl⟩) ?_ ?_ fun _ _ => rfl
    · have hnumbers : ((b :: bs).map (bytes false)).mapM exactNumber? = none := rfl
      have htexts : ((b :: bs).map (bytes false)).mapM text? = none := rfl
      rw [Attr.ofMembers, hnumbers, htexts, hbytes, List.map_id]
    · rw [Attr.toValue, ofStored_single]
      exact congrArg (· >>= fun vs => .ok (set false (membersOf vs))) hmembers

/-! ### Lists and maps -/

open Entries

theorem returns_list {items items' : List Value} (h : List.Forall₂ Returns items items') :
    Returns (list items) (list items') := by
  obtain ⟨us, as, ms, hus, has, hms, hitems⟩ : ∃ us as ms, itemsToStorable items = .ok us ∧
      Attr.ofItems us = .ok as ∧ itemsOfStored (Attr.toValues as) = .ok ms ∧
      simplifiedItems ms = .ok items' := by
    induction h with
    | nil => exact ⟨[], [], [], rfl, rfl, rfl, rfl⟩
    | cons hv _ ih =>
      obtain ⟨u, a, m, hu, ha, hm, hv'⟩ := hv
      obtain ⟨us, as, ms, hus, has, hms, hitems⟩ := ih
      refine ⟨u :: us, a :: as, m :: ms, ?_, ?_, ?_, ?_⟩
      · rw [itemsToStorable, hu, hus]
        rfl
      · rw [Attr.ofItems, ha, has]
        rfl
      · rw [Attr.toValues, itemsOfStored, hm, hms]
        rfl
      · rw [simplifiedItems, hv', hitems]
        rfl
  refine ⟨list us, .list as, list ms, ?_, ?_, ?_, ?_⟩
  · rw [toStorable, hus]
    rfl
  · rw [Attr.ofStorable, has]
    rfl
  · rw [Attr.toValue, ofStored_single]
    dsimp only
    rw [listOfStored, hms]
    rfl
  · rw [simplified, hitems]
    rfl

theorem entriesToStorable_keyed {done named us : List (Spelling × Value)}
    (h : List.Forall₂ (fun e u => e.1 = u.1 ∧ e.2.toStorable = .ok u.2) named us)
    (hnodup : ((done ++ named).map (·.1)).Nodup) :
    entriesToStorable (keyed done) (keyed named) = .ok (keyed (done ++ us)) := by
  induction h generalizing done with
  | nil => rw [List.append_nil]; rfl
  | @cons e u named us hu _ ih =>
    obtain ⟨hname, hu⟩ := hu
    have hnew : ∀ e' ∈ keyed done, (e'.1 == text e.1) = false := by
      intro e' he'
      obtain ⟨d, hd, rfl⟩ := List.mem_map.mp he'
      rw [List.map_append, List.map_cons] at hnodup
      have hne : d.1 ≠ e.1 := (List.nodup_append.mp hnodup).2.2 d.1 (List.mem_map_of_mem hd) e.1
        List.mem_cons_self
      exact (text_beq_text _ _).trans (beq_false_of_ne hne)
    have hput : (keyed done).put (text e.1) u.2 = keyed (done ++ [u]) := by
      rw [OrderedMap.put_of_new hnew, keyed, keyed, List.map_append, hname]
      rfl
    have hnodup' : ((done ++ [u] ++ named).map (·.1)).Nodup := by
      simpa [hname] using hnodup
    rw [keyed_cons, entriesToStorable, hu]
    show entriesToStorable ((keyed done).put (text e.1) u.2) (keyed named) = _
    rw [hput, ih hnodup', List.append_assoc, List.singleton_append]

theorem returns_map {named named' : List (Spelling × Value)} (hnodup : (named.map (·.1)).Nodup)
    (h : List.Forall₂ (fun e e' => e.1 = e'.1 ∧ Returns e.2 e'.2) named named') :
    Returns (map (keyed named)) (map (keyed named')) := by
  obtain ⟨us, as, ms, hus, has, hms, hentries⟩ : ∃ us as ms,
      List.Forall₂ (fun e u => e.1 = u.1 ∧ e.2.toStorable = .ok u.2) named us ∧
      Attr.ofEntries (keyed us) = .ok as ∧
      entriesOfStored (Attr.toEntries as) = .ok (keyed ms) ∧
      simplifiedEntries (keyed ms) = .ok (keyed named') := by
    clear hnodup
    induction h with
    | nil => exact ⟨[], [], [], .nil, rfl, rfl, rfl⟩
    | @cons e e' named named' hv _ ih =>
      obtain ⟨hname, u, a, m, hu, ha, hm, hv'⟩ := hv
      obtain ⟨us, as, ms, hus, has, hms, hentries⟩ := ih
      refine ⟨(e.1, u) :: us, (e.1, a) :: as, (e.1, m) :: ms, .cons ⟨rfl, hu⟩ hus, ?_, ?_, ?_⟩
      · rw [keyed_cons, Attr.ofEntries, ha, has]
        rfl
      · rw [Attr.toEntries, entriesOfStored, hm, hms]
        rfl
      · rw [keyed_cons, simplifiedEntries, hv', hentries, keyed_cons, ← hname]
        rfl
  have hempty : ((([] : List (Spelling × Value)) ++ named).map (·.1)).Nodup := hnodup
  have hstorable : entriesToStorable [] (keyed named) = .ok (keyed us) :=
    entriesToStorable_keyed hus hempty
  refine ⟨map (keyed us), .map as, map (keyed ms), ?_, ?_, ?_, ?_⟩
  · rw [toStorable, hstorable]
    rfl
  · rw [Attr.ofStorable, has]
    rfl
  · rw [Attr.toValue, ofStored_single]
    dsimp only
    rw [mapOfStored, hms]
    rfl
  · rw [simplified, hentries]
    rfl

/-! ### Trees -/

theorem returns_atom {t : Tag} {v : Value} (h : t.Atom v) : Returns v v.restored := by
  cases h with
  | text s => exact returns_text s
  | number h => exact returns_int h
  | bytes changeable content => exact returns_bytes changeable content
  | bool b => exact returns_bool b
  | texts frozen h => exact returns_texts frozen h
  | numbers frozen h hn => exact returns_numbers frozen h hn
  | byteSets frozen h => exact returns_byteSets frozen h

/-- **A tree** comes back from the store. -/
theorem Tree.returns_restored {v : Value} (hv : Tree Attr.Leaf v) : Returns v v.restored := by
  induction hv with
  | leaf h =>
    cases h with
    | null => exact returns_null
    | atom h => exact returns_atom h
  | @list items _ ih =>
    rw [restored, restoredItems_eq]
    exact returns_list (List.forall₂_map_right_iff.mpr (List.forall₂_same.mpr ih))
  | @map entries hnames _ ih =>
    obtain ⟨named, rfl⟩ := hnames.exists_keyed
    have hrestored : restoredEntries (Entries.keyed named) =
        Entries.keyed (named.map (Prod.map id restored)) := by
      rw [restoredEntries_eq, Entries.keyed, Entries.keyed, List.map_map, List.map_map]
      rfl
    rw [restored, hrestored]
    refine returns_map (named_keyed.mp hnames) ?_
    rw [List.forall₂_map_right_iff, List.forall₂_same]
    exact fun e he => ⟨rfl, ih _ (List.mem_map_of_mem he)⟩

end Value

end DocTable
