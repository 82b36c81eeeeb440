import DocTable.Proofs.Number.Decimals
import DocTable.Proofs.Stored.RoundTrip
import DocTable.Proofs.Stored.Writing

/-! Reading what was written: all of it is read back to decimals, but not all of these are plain
numbers. There is no integer and no floating point number for an infinity or a signaling
not-a-number. -/

namespace DocTable

open Entries Outcome

/-- The decimals that no plain number stands for. -/
inductive Decimal.Illegible : Decimal → Prop where
  | infinite (negative : Bool) : Illegible (.infinite negative)
  | signaling (negative : Bool) (payload : Nat) : Illegible (.nan negative true payload)

namespace Value

/-- The numbers that no plain number comes back for. -/
inductive Illegible : Value → Prop where
  | float (negative : Bool) : Illegible (float (.infinite negative))
  | decimal {d : Decimal} (h : d.Illegible) : Illegible (decimal d)

/-- Whether there are plain numbers for the decimals in a value. -/
def Simplifiable (m : Value) : Prop :=
  ∃ w, m.simplified = .ok w

variable {v u m : Value} {d : Decimal}

theorem simplifiable_decimal : (decimal d).Simplifiable ↔ ¬ d.Illegible := by
  constructor
  · rintro ⟨w, hw⟩ h
    cases h <;> cases hw
  · intro h
    cases d with
    | finite negative k e => exact ⟨_, rfl⟩
    | infinite negative => exact absurd (.infinite negative) h
    | nan negative signaling payload =>
      cases signaling with
      | true => exact absurd (.signaling negative payload) h
      | false => exact ⟨_, rfl⟩

theorem shownDecimal_illegible {x : Binary64} :
    (shownDecimal x).Illegible ↔ Illegible (float x) := by
  cases x with
  | nan =>
    rw [shownDecimal_nan]
    exact ⟨nofun, nofun⟩
  | infinite negative =>
    rw [shownDecimal_infinite]
    exact ⟨fun _ => .float negative, fun _ => .infinite negative⟩
  | finite negative m =>
    obtain ⟨j, hshown⟩ := exists_shownDecimal negative m
    rw [hshown]
    exact ⟨nofun, nofun⟩

theorem itemsOfStored_eq (vs : List Value) : itemsOfStored vs = vs.mapM ofStored := by
  induction vs with
  | nil => rfl
  | cons v vs ih => rw [itemsOfStored, ih, List.mapM_cons]

theorem simplifiedItems_eq (vs : List Value) : simplifiedItems vs = vs.mapM simplified := by
  induction vs with
  | nil => rfl
  | cons v vs ih => rw [simplifiedItems, ih, List.mapM_cons]

theorem exists_simplifiedItems {vs : List Value} :
    (∃ ws, simplifiedItems vs = .ok ws) ↔ ∀ v ∈ vs, v.Simplifiable := by
  rw [simplifiedItems_eq]
  exact exists_mapM_eq_ok

theorem simplifiable_list {vs : List Value} :
    (list vs).Simplifiable ↔ ∀ v ∈ vs, v.Simplifiable := by
  rw [← exists_simplifiedItems]
  rw [Simplifiable, simplified]
  exact exists_bind_pure

theorem simplifiable_set {vs : List Value} :
    (set false vs).Simplifiable ↔ ∀ v ∈ vs, v.Simplifiable := by
  rw [← exists_simplifiedItems]
  rw [Simplifiable, simplified]
  exact exists_bind_pure

theorem simplifiedEntries_eq_ok {entries es : Entries} : simplifiedEntries entries = .ok es ↔
    List.Forall₂ (OrderedMap.Alike fun v m => v.simplified = .ok m) entries es := by
  induction entries generalizing es with
  | nil =>
    rw [List.forall₂_nil_left_iff, simplifiedEntries]
    exact ⟨fun h => (Except.ok.inj h).symm, congrArg Except.ok ∘ Eq.symm⟩
  | cons e entries ih =>
    rw [simplifiedEntries, bind_eq_ok]
    constructor
    · rintro ⟨m, hm, h⟩
      obtain ⟨rest, hrest, h⟩ := bind_eq_ok.mp h
      exact Except.ok.inj h ▸ .cons ⟨rfl, hm⟩ (ih.mp hrest)
    · intro h
      cases h with
      | @cons _ e' _ rest he hrest =>
        obtain ⟨k, m⟩ := e'
        obtain ⟨rfl, hm⟩ := he
        exact ⟨m, hm, bind_eq_ok.mpr ⟨rest, ih.mpr hrest, rfl⟩⟩

theorem simplifiable_map {entries : Entries} :
    (map entries).Simplifiable ↔ ∀ e ∈ entries, e.2.Simplifiable := by
  rw [Simplifiable, simplified, exists_bind_pure]
  simp only [simplifiedEntries_eq_ok, exists_forall₂_iff]
  refine forall₂_congr fun e _ => ?_
  constructor
  · rintro ⟨m, hm⟩
    exact ⟨m.2, hm.2⟩
  · rintro ⟨m, hm⟩
    exact ⟨(e.1, m), rfl, hm⟩

/-! ## Sets -/

/-- What can be a member of a set after it was turned into a storable value had no parts before. -/
theorem whole_of_hashable (hu : v.toStorable = .ok u) (h : u.hashable = true) : v.Whole := by
  cases v with
  | list items | tuple items =>
    obtain ⟨us, -, hu⟩ := bind_eq_ok.mp hu
    obtain rfl := Except.ok.inj hu
    cases h
  | set frozen members =>
    obtain ⟨us, -, hu⟩ := bind_eq_ok.mp hu
    obtain rfl := Except.ok.inj hu
    cases h
  | map entries =>
    obtain ⟨us, -, hu⟩ := bind_eq_ok.mp hu
    obtain rfl := Except.ok.inj hu
    cases h
  | _ => trivial

theorem toStorable_ne_float {x : Binary64} : v.toStorable ≠ .ok (float x) := by
  intro h
  cases v with
  | list items | tuple items | set frozen members | map entries =>
    obtain ⟨us, -, h⟩ := bind_eq_ok.mp h
    cases h
  | _ => cases h

theorem eq_of_same_infinite {negative : Bool}
    (h : u.same (decimal (.infinite negative)) = true) :
    u = decimal (.infinite negative) ∨ u = float (.infinite negative) := by
  have hatom : u.sameAtom (decimal (.infinite negative)) = true := by
    cases u <;> simpa [same] using h
  cases u with
  | decimal d =>
    cases d with
    | infinite negative' => exact .inl (congrArg _ (congrArg _ (eq_of_beq hatom)))
    | _ => cases hatom
  | float x =>
    cases x with
    | infinite negative' => exact .inr (congrArg _ (congrArg _ (eq_of_beq hatom)))
    | _ => cases hatom
  | _ => cases hatom

/-- The only illegible members of sets are infinities: a signaling not-a-number is no member. -/
theorem has_illegible_iff_of_hashable (hu : v.toStorable = .ok u) (h : u.hashable = true) :
    v.Has Illegible ↔ ∃ negative, u = decimal (.infinite negative) := by
  rw [has_of_whole (whole_of_hashable hu h)]
  constructor
  · intro hv
    cases hv with
    | float negative =>
      refine ⟨negative, (Except.ok.inj hu).symm.trans ?_⟩
      rw [shownDecimal_infinite]
    | decimal hd =>
      obtain rfl := Except.ok.inj hu
      cases hd with
      | infinite negative => exact ⟨negative, rfl⟩
      | signaling => cases h
  · rintro ⟨negative, rfl⟩
    cases v with
    | float x =>
      refine shownDecimal_illegible.mp ?_
      rw [decimal.inj (Except.ok.inj hu)]
      exact .infinite negative
    | decimal d =>
      rw [decimal.inj (Except.ok.inj hu)]
      exact .decimal (.infinite negative)
    | list items | tuple items | set frozen members | map entries =>
      obtain ⟨us, -, hu⟩ := bind_eq_ok.mp hu
      cases hu
    | _ => cases hu

theorem exists_illegible_member_iff {members us : List Value}
    (h : membersToStorable [] members = .ok us) :
    (∃ v ∈ members, v.Has Illegible) ↔
      ∃ u ∈ us, ∃ negative, u = decimal (.infinite negative) := by
  have hof := fun u => exists_of_mem_membersToStorable (u := u) h
  obtain ⟨ws, hws, rfl⟩ := membersToStorable_eq_ok.mp h
  constructor
  · rintro ⟨v, hv, hillegible⟩
    obtain ⟨w, hw, hstorable, hhashable⟩ := exists_of_mem_forall₂ hws.flip hv
    obtain ⟨negative, rfl⟩ := (has_illegible_iff_of_hashable hstorable hhashable).mp hillegible
    obtain ⟨u, hu, heq⟩ := exists_mem_foldl_insertMember hw []
    refine ⟨u, hu, negative, ?_⟩
    rcases heq with rfl | hsame
    · rfl
    · refine (eq_of_same_infinite hsame).resolve_right ?_
      rintro rfl
      obtain ⟨v', -, hv', -⟩ := hof _ hu
      exact toStorable_ne_float hv'
  · rintro ⟨u, hu, hinfinite⟩
    obtain ⟨v, hv, hstorable, hhashable⟩ := hof u hu
    exact ⟨v, hv, (has_illegible_iff_of_hashable hstorable hhashable).mpr hinfinite⟩

theorem simplifiable_membersOf {ds : List Decimal}
    (hds : ∀ d ∈ ds, (decimal d).hashable = true) :
    (set false (membersOf (ds.map decimal))).Simplifiable ↔
      ¬ ∃ d ∈ ds, ∃ negative, d = .infinite negative := by
  rw [simplifiable_set]
  constructor
  · rintro h ⟨d, hd, negative, rfl⟩
    obtain ⟨m, hm, heq⟩ := exists_mem_foldl_insertMember (List.mem_map_of_mem hd) []
    obtain ⟨d', -, rfl⟩ := List.mem_map.mp ((mem_of_mem_foldl_insertMember hm).resolve_left nofun)
    have hinfinite : decimal d' = decimal (.infinite negative) :=
      heq.elim id fun hsame => (eq_of_same_infinite hsame).resolve_right nofun
    obtain rfl := decimal.inj hinfinite
    exact simplifiable_decimal.mp (h _ hm) (.infinite negative)
  · intro h m hm
    obtain ⟨d, hd, rfl⟩ := List.mem_map.mp ((mem_of_mem_foldl_insertMember hm).resolve_left nofun)
    refine simplifiable_decimal.mpr fun hillegible => ?_
    cases hillegible with
    | infinite negative => exact h ⟨_, hd, negative, rfl⟩
    | signaling => cases hds _ hd

theorem simplifiable_membersOf_map {α : Type} {f : α → Value}
    (hf : ∀ a, (f a).simplified = .ok (f a)) (as : List α) :
    (set false (membersOf (as.map f))).Simplifiable := by
  refine simplifiable_set.mpr fun m hm => ?_
  obtain ⟨a, -, rfl⟩ := List.mem_map.mp ((mem_of_mem_foldl_insertMember hm).resolve_left nofun)
  exact ⟨_, hf a⟩

end Value

namespace Attr

variable {v : Value} {a : Attr}

/-- Whether an attribute value is read, to plain numbers exactly if some condition holds. -/
def ReadsIf (a : Attr) (p : Prop) : Prop :=
  ∃ m, Value.ofStored a.toValue = .ok m ∧ (m.Simplifiable ↔ p)

/-- A set that was written is read to a set of what its members are. -/
theorem readsIf_members {members us : List Value}
    (hus : Value.membersToStorable [] members = .ok us) (ha : MembersAs us a) :
    a.ReadsIf (¬ ∃ v ∈ members, v.Has Value.Illegible) := by
  rw [Value.exists_illegible_member_iff hus]
  cases ha with
  | @numbers ds ss hds hss =>
    have hhashable : ∀ d ∈ ds, (Value.decimal d).hashable = true := by
      intro d hd
      obtain ⟨u, hu, hexact⟩ := exists_of_mem_forall₂ hds hd
      obtain ⟨-, -, -, hhashable⟩ := Value.exists_of_mem_membersToStorable hus hu
      cases u with
      | bool b | int n => exact Option.some.inj hexact ▸ rfl
      | decimal d' => exact Option.some.inj hexact ▸ hhashable
      | _ => cases hexact
    have hinfinite : (∃ u ∈ us, ∃ negative, u = .decimal (.infinite negative)) ↔
        ∃ d ∈ ds, ∃ negative, d = .infinite negative := by
      refine exists_mem_iff_of_forall₂ hds fun u _ d hexact => exists_congr fun negative => ?_
      cases u with
      | bool b | int n => exact Option.some.inj hexact ▸ ⟨nofun, nofun⟩
      | decimal d' => exact Option.some.inj hexact ▸ ⟨Value.decimal.inj, congrArg _⟩
      | _ => cases hexact
    have hread : ((ss.map Spelling.plain).map Value.text).mapM
        (fun v => do Value.toMember (.decimal (← v.toDecimal))) = .ok (ds.map .decimal) := by
      rw [mapM_eq_ok, List.forall₂_map_left_iff, List.forall₂_map_left_iff,
        List.forall₂_map_right_iff]
      refine ((List.forall₂_and_left _ _).mpr ⟨hhashable, hss⟩).flip.imp fun s d ⟨hd, hs⟩ => ?_
      exact bind_eq_ok.mpr ⟨d, Value.toDecimal_of_numberText hs, if_pos hd⟩
    refine ⟨.set false (Value.membersOf (ds.map .decimal)), ?_, ?_⟩
    · rw [toValue, Value.ofStored_single]
      exact bind_eq_ok.mpr ⟨_, rfl, bind_eq_ok.mpr ⟨_, hread, rfl⟩⟩
    · rw [Value.simplifiable_membersOf hhashable, hinfinite]
  | @texts ss hss =>
    have hplain : ¬ ∃ u ∈ us, ∃ negative, u = .decimal (.infinite negative) := by
      rintro ⟨u, hu, negative, rfl⟩
      obtain ⟨s, -, hs⟩ := exists_of_mem_forall₂ hss.flip hu
      cases hs
    refine ⟨.set false (Value.membersOf (ss.map .text)), ?_,
      iff_of_true (Value.simplifiable_membersOf_map (fun _ => rfl) ss) hplain⟩
    have hread : (ss.map Value.text).mapM Value.toMember = .ok (ss.map .text) :=
      mapM_map_eq_ok fun _ _ => rfl
    rw [toValue, Value.ofStored_single]
    exact bind_eq_ok.mpr ⟨_, rfl, bind_eq_ok.mpr ⟨_, hread, rfl⟩⟩
  | @byteSets bs hbs =>
    have hplain : ¬ ∃ u ∈ us, ∃ negative, u = .decimal (.infinite negative) := by
      rintro ⟨u, hu, negative, rfl⟩
      obtain ⟨b, -, hb⟩ := exists_of_mem_forall₂ hbs.flip hu
      cases hb
    refine ⟨.set false (Value.membersOf (bs.map (.bytes false))), ?_,
      iff_of_true (Value.simplifiable_membersOf_map (fun _ => rfl) bs) hplain⟩
    have hread : (bs.map (Value.bytes false)).mapM (fun v => do
        let b ← v.toBytes
        let _ ← v.toMember
        return b) = .ok (bs.map (.bytes false)) :=
      mapM_map_eq_ok fun _ _ => rfl
    rw [toValue, Value.ofStored_single]
    exact bind_eq_ok.mpr ⟨_, rfl, bind_eq_ok.mpr ⟨_, hread, rfl⟩⟩

/-- Items that are read each are read as a list. -/
theorem ofStored_list {as : List Attr} {ms : List Value}
    (h : List.Forall₂ (fun a m => Value.ofStored a.toValue = .ok m) as ms) :
    Value.ofStored (list as).toValue = .ok (.list ms) := by
  have hitems : Value.itemsOfStored (toValues as) = .ok ms := by
    rw [Value.itemsOfStored_eq, toValues_eq, mapM_eq_ok, List.forall₂_map_left_iff]
    exact h
  rw [toValue, Value.ofStored_single]
  exact bind_eq_ok.mpr ⟨ms, hitems, rfl⟩

theorem ofStored_map {as : List (Spelling × Attr)} {ms : List (Spelling × Value)}
    (h : List.Forall₂ (OrderedMap.Alike fun a m => Value.ofStored a.toValue = .ok m) as ms) :
    Value.ofStored (map as).toValue = .ok (.map (keyed ms)) := by
  have hentries : Value.entriesOfStored (toEntries as) = .ok (keyed ms) := by
    induction h with
    | nil => rfl
    | cons he _ ih =>
      rw [toEntries, Value.entriesOfStored, he.2, ih, keyed_cons, ← he.1]
      rfl
  rw [toValue, Value.ofStored_single]
  exact bind_eq_ok.mpr ⟨_, hentries, rfl⟩

/-- A number is read as the decimal that was written. -/
theorem ofStored_number {d : Decimal} (h : (do return number (← numberText d)) = Except.ok a) :
    Value.ofStored a.toValue = .ok (.decimal d) := by
  obtain ⟨s, hs, h⟩ := bind_eq_ok.mp h
  obtain rfl := Except.ok.inj h
  rw [toValue, Value.ofStored_single]
  exact bind_eq_ok.mpr ⟨d, Value.toDecimal_of_numberText hs, rfl⟩

theorem readsIf_number {d : Decimal} (h : (do return number (← numberText d)) = Except.ok a) :
    a.ReadsIf (¬ d.Illegible) :=
  ⟨.decimal d, ofStored_number h, Value.simplifiable_decimal⟩

/-- An atom other than a number is read to what is no decimal. -/
theorem readsIf_atom {m : Value} {p : Prop} (h : Value.ofStored a.toValue = .ok m)
    (hm : m.simplified = .ok m) (hp : p) : a.ReadsIf p :=
  ⟨m, h, iff_of_true ⟨m, hm⟩ hp⟩

theorem readsIf_list {items : List Value} (h : ofValue (.list items) = .ok a)
    (ih : ∀ v ∈ items, ∀ a, ofValue v = .ok a → a.ReadsIf (¬ v.Has Value.Illegible)) :
    a.ReadsIf (¬ ∃ v ∈ items, v.Has Value.Illegible) := by
  obtain ⟨as, has, rfl⟩ := exists_of_ofValue_list h
  obtain ⟨ms, hms, hlegible⟩ := exists_forall₂_of_forall₂ has ih
  refine ⟨.list ms, ofStored_list hms, ?_⟩
  rw [Value.simplifiable_list,
    exists_mem_iff_of_forall₂ hlegible fun v _ m hm => iff_not_comm.mp hm]
  simp only [not_exists, not_and, not_not]

theorem readsIf_map {entries : Entries} (h : ofValue (.map entries) = .ok a)
    (ih : ∀ e ∈ entries, ∀ a, ofValue e.2 = .ok a → a.ReadsIf (¬ e.2.Has Value.Illegible)) :
    a.ReadsIf (¬ ∃ e ∈ entries.byName, e.2.Has Value.Illegible) := by
  obtain ⟨as, has, rfl⟩ := exists_of_ofValue_map h
  have hread : ∀ e ∈ entries.byName, ∀ b : Spelling × Attr,
      OrderedMap.Alike (ofValue · = .ok ·) e b →
      ∃ m : Spelling × Value, OrderedMap.Alike (fun a m => Value.ofStored a.toValue = .ok m) b m ∧
        (m.2.Simplifiable ↔ ¬ e.2.Has Value.Illegible) := by
    intro e he b hb
    obtain ⟨e', he', rfl⟩ := exists_of_mem_byName he
    obtain ⟨m, hm, hlegible⟩ := ih e' he' b.2 hb.2
    exact ⟨(b.1, m), ⟨rfl, hm⟩, hlegible⟩
  obtain ⟨ms, hms, hlegible⟩ := exists_forall₂_of_forall₂ has hread
  refine ⟨.map (keyed ms), ofStored_map hms, ?_⟩
  rw [Value.simplifiable_map, keyed, List.forall_mem_map,
    exists_mem_iff_of_forall₂ hlegible fun e _ m hm => iff_not_comm.mp hm]
  simp only [not_exists, not_and, not_not]
  exact .rfl

/-- **What was written is read**, and there are plain numbers for all of it unless an infinity or a
signaling not-a-number was written. The induction is on the parts of the value. -/
theorem readsIf_of_ofValue (h : ofValue v = .ok a) : a.ReadsIf (¬ v.Has Value.Illegible) := by
  induction v using Value.byParts generalizing a with
  | null =>
    rw [Value.has_of_whole (v := .null) trivial]
    exact Except.ok.inj h ▸ readsIf_atom (m := .null) (Value.ofStored_single _ _) rfl nofun
  | bool b =>
    rw [Value.has_of_whole (v := .bool b) trivial]
    exact Except.ok.inj h ▸ readsIf_atom (m := .bool b) (Value.ofStored_single _ _) rfl nofun
  | text s =>
    rw [Value.has_of_whole (v := .text s) trivial]
    exact Except.ok.inj h ▸ readsIf_atom (m := .text s) (Value.ofStored_single _ _) rfl nofun
  | bytes c content =>
    rw [Value.has_of_whole (v := .bytes c content) trivial]
    exact Except.ok.inj h ▸ readsIf_atom (m := .bytes false content) (Value.ofStored_single _ _) rfl
      nofun
  | int n =>
    have hfinite : Value.Illegible (.int n) ↔ (Decimal.ofInt n).Illegible := ⟨nofun, nofun⟩
    rw [Value.has_of_whole (v := .int n) trivial, hfinite]
    exact readsIf_number h
  | float x =>
    rw [Value.has_of_whole (v := .float x) trivial, ← Value.shownDecimal_illegible]
    exact readsIf_number h
  | decimal d =>
    have hdecimal : Value.Illegible (.decimal d) ↔ d.Illegible :=
      ⟨fun h => by cases h with | decimal h => exact h, .decimal⟩
    rw [Value.has_of_whole (v := .decimal d) trivial, hdecimal]
    exact readsIf_number h
  | list items ih =>
    rw [Value.has_list, or_iff_right nofun]
    exact readsIf_list h fun v hv a ha => ih v hv ha
  | tuple items ih =>
    rw [Value.has_tuple, or_iff_right nofun]
    exact readsIf_list (ofValue_tuple items ▸ h) fun v hv a ha => ih v hv ha
  | set frozen members _ =>
    obtain ⟨us, hus, hattr⟩ := exists_of_ofValue_set h
    rw [Value.has_set, or_iff_right nofun]
    exact readsIf_members hus (membersAs_of_ofMembers hattr)
  | map entries ih =>
    rw [Value.has_map, or_iff_right nofun]
    exact readsIf_map h fun e he a ha => ih e he ha
  | wildcard => cases h
  | record fields => cases h
  | other kind shown => cases h

end Attr

end DocTable
