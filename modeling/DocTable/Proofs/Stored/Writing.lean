import DocTable.Proofs.Token.Reading
import DocTable.Proofs.Value.Parts
import DocTable.Stored.Writing

/-! Attribute values of values that have parts: a list has the attribute values of its items, a map
those of its entries by name, and a set what its members turn into, each once. -/

namespace DocTable

open Entries Outcome

namespace Value

variable {v u : Value} {us : List Value}

theorem itemsToStorable_eq (items : List Value) :
    itemsToStorable items = items.mapM toStorable := by
  induction items with
  | nil => rfl
  | cons v items ih => rw [itemsToStorable, ih, List.mapM_cons]

theorem keyed_put (done : OrderedMap Spelling Value) (name : Spelling) (v : Value) :
    (keyed done).put (text name) v = keyed (done.put name v) := by
  induction done with
  | nil => rfl
  | cons e done ih =>
    rw [keyed_cons, OrderedMap.put, OrderedMap.put, text_beq_text, ih]
    split
    · rfl
    · rfl

theorem entriesToStorable_eq_ok {done : OrderedMap Spelling Value} {entries us : Entries} :
    entriesToStorable (keyed done) entries = .ok us ↔ (∀ e ∈ entries, e.1.hasText = true) ∧
      ∃ named, List.Forall₂ (OrderedMap.Alike fun v u => v.toStorable = .ok u)
        (entries.map fun e => (e.1.spelling, e.2)) named ∧ us = keyed (done.overlay named) := by
  induction entries generalizing done with
  | nil =>
    rw [List.map_nil]
    constructor
    · intro h
      exact ⟨List.forall_mem_nil _, [], .nil, (Except.ok.inj h).symm⟩
    · rintro ⟨-, named, hnamed, rfl⟩
      cases hnamed
      rfl
  | cons e entries ih =>
    rw [List.map_cons, List.forall_mem_cons, entriesToStorable]
    constructor
    · intro h
      split at h
      next htext =>
        obtain ⟨u, hu, h⟩ := bind_eq_ok.mp h
        rw [keyed_put] at h
        obtain ⟨htexts, named, hnamed, rfl⟩ := ih.mp h
        exact ⟨⟨htext, htexts⟩, (e.1.spelling, u) :: named, .cons ⟨rfl, hu⟩ hnamed, rfl⟩
      next => cases h
    · rintro ⟨⟨htext, htexts⟩, named, hnamed, rfl⟩
      cases hnamed with
      | @cons _ e' _ named he hnamed =>
        obtain ⟨name, u⟩ := e'
        obtain ⟨rfl, hu⟩ := he
        rw [if_pos htext]
        refine bind_eq_ok.mpr ⟨u, hu, ?_⟩
        rw [keyed_put]
        exact ih.mpr ⟨htexts, named, hnamed, rfl⟩

theorem entriesToStorable_nil_eq_ok {entries us : Entries} :
    entriesToStorable [] entries = .ok us ↔ (∀ e ∈ entries, e.1.hasText = true) ∧
      ∃ named, List.Forall₂ (OrderedMap.Alike fun v u => v.toStorable = .ok u)
        (entries.map fun e => (e.1.spelling, e.2)) named ∧ us = keyed (OrderedMap.ofList named) :=
  @entriesToStorable_eq_ok [] entries us

/-- The members of a set are written as those that they turn into, which can be members too. -/
theorem membersToStorable_eq_ok {done members : List Value} :
    membersToStorable done members = .ok us ↔
      ∃ ws, List.Forall₂ (fun v w => v.toStorable = .ok w ∧ w.hashable = true) members ws ∧
        us = ws.foldl insertMember done := by
  induction members generalizing done with
  | nil =>
    constructor
    · intro h
      exact ⟨[], .nil, (Except.ok.inj h).symm⟩
    · rintro ⟨ws, hws, rfl⟩
      cases hws
      rfl
  | cons v members ih =>
    rw [membersToStorable, bind_eq_ok]
    constructor
    · rintro ⟨w, hw, h⟩
      split at h
      next hhashable =>
        obtain ⟨ws, hws, rfl⟩ := ih.mp h
        exact ⟨w :: ws, .cons ⟨hw, hhashable⟩ hws, rfl⟩
      next => cases h
    · rintro ⟨ws, hws, rfl⟩
      cases hws with
      | @cons _ w _ ws hw hws =>
        refine ⟨w, hw.1, ?_⟩
        rw [if_pos hw.2]
        exact ih.mpr ⟨ws, hws, rfl⟩

theorem mem_insertMember {members : List Value} (h : u ∈ insertMember members v) :
    u ∈ members ∨ u = v := by
  unfold insertMember at h
  split at h
  next => exact .inl h
  next => exact (List.mem_append.mp h).imp_right List.mem_singleton.mp

/-- What is in a set stays in it. -/
theorem mem_insertMember_of_mem {members : List Value} (h : u ∈ members) (v : Value) :
    u ∈ insertMember members v := by
  unfold insertMember
  split
  next => exact h
  next => exact List.mem_append_left _ h

/-- What is put into a set is in it, or something equal is. -/
theorem exists_mem_insertMember (members : List Value) (v : Value) :
    ∃ u ∈ insertMember members v, u = v ∨ u.same v = true := by
  unfold insertMember
  split
  next hany =>
    obtain ⟨u, hu, hsame⟩ := List.any_eq_true.mp hany
    exact ⟨u, hu, .inr hsame⟩
  next => exact ⟨v, List.mem_append_right _ List.mem_cons_self, .inl rfl⟩

theorem mem_of_mem_foldl_insertMember {done ws : List Value} (h : u ∈ ws.foldl insertMember done) :
    u ∈ done ∨ u ∈ ws := by
  induction ws generalizing done with
  | nil => exact .inl h
  | cons w ws ih =>
    rcases ih h with hdone | hmem
    · rcases mem_insertMember hdone with hold | rfl
      · exact .inl hold
      · exact .inr List.mem_cons_self
    · exact .inr (List.mem_cons_of_mem _ hmem)

theorem mem_foldl_insertMember_of_mem {done : List Value} (h : u ∈ done) (ws : List Value) :
    u ∈ ws.foldl insertMember done := by
  induction ws generalizing done with
  | nil => exact h
  | cons w ws ih => exact ih (mem_insertMember_of_mem h w)

theorem exists_mem_foldl_insertMember {w : Value} {ws : List Value} (h : w ∈ ws)
    (done : List Value) : ∃ u ∈ ws.foldl insertMember done, u = w ∨ u.same w = true := by
  induction ws generalizing done with
  | nil => cases h
  | cons w' ws ih =>
    rcases List.mem_cons.mp h with rfl | hmem
    · obtain ⟨u, hu, hsame⟩ := exists_mem_insertMember done w
      exact ⟨u, mem_foldl_insertMember_of_mem hu ws, hsame⟩
    · exact ih hmem _

/-- The members of a set that is written are what those of the given one turn into. -/
theorem exists_of_mem_membersToStorable {members : List Value}
    (h : membersToStorable [] members = .ok us) (hu : u ∈ us) :
    ∃ v ∈ members, v.toStorable = .ok u ∧ u.hashable = true := by
  obtain ⟨ws, hws, rfl⟩ := membersToStorable_eq_ok.mp h
  obtain ⟨v, hv, hw⟩ :=
    exists_of_mem_forall₂ hws ((mem_of_mem_foldl_insertMember hu).resolve_left nofun)
  exact ⟨v, hv, hw⟩

/-- A set that is written has members exactly when the set that is given has some. -/
theorem membersToStorable_eq_nil {members : List Value}
    (h : membersToStorable [] members = .ok us) :
    us = [] ↔ members = [] := by
  obtain ⟨ws, hws, rfl⟩ := membersToStorable_eq_ok.mp h
  have hnil : ws = [] ↔ members = [] := by
    rw [← List.length_eq_zero_iff, ← hws.length_eq, List.length_eq_zero_iff]
  rw [← hnil]
  constructor
  · intro hempty
    by_contra hne
    obtain ⟨w, hw⟩ := List.exists_mem_of_ne_nil ws hne
    obtain ⟨u, hu, -⟩ := exists_mem_foldl_insertMember hw []
    rw [hempty] at hu
    cases hu
  · rintro rfl
    rfl

end Value

namespace Attr

variable {v : Value} {a : Attr}

theorem ofItems_eq (items : List Value) : ofItems items = items.mapM ofStorable := by
  induction items with
  | nil => rfl
  | cons v items ih => rw [ofItems, ih, List.mapM_cons]

theorem ofEntries_keyed_eq_ok {named : OrderedMap Spelling Value} {as : List (Spelling × Attr)} :
    ofEntries (keyed named) = .ok as ↔
      List.Forall₂ (OrderedMap.Alike fun u a => ofStorable u = .ok a) named as := by
  induction named generalizing as with
  | nil =>
    rw [List.forall₂_nil_left_iff]
    exact ⟨fun h => (Except.ok.inj h).symm, fun h => h ▸ rfl⟩
  | cons e named ih =>
    rw [keyed_cons, ofEntries, bind_eq_ok]
    constructor
    · rintro ⟨a, ha, h⟩
      obtain ⟨rest, hrest, h⟩ := bind_eq_ok.mp h
      exact Except.ok.inj h ▸ .cons ⟨rfl, ha⟩ (ih.mp hrest)
    · intro h
      cases h with
      | @cons _ e' _ rest he hrest =>
        obtain ⟨name, a⟩ := e'
        obtain ⟨rfl, ha⟩ := he
        exact ⟨a, ha, bind_eq_ok.mpr ⟨rest, ih.mpr hrest, rfl⟩⟩

theorem ofValue_eq_ok : ofValue v = .ok a ↔ ∃ u, v.toStorable = .ok u ∧ ofStorable u = .ok a := by
  unfold ofValue
  cases v.toStorable <;> simp

theorem ofStorable_list_eq_ok {us : List Value} : ofStorable (.list us) = .ok a ↔
    ∃ as, List.Forall₂ (fun u a => ofStorable u = .ok a) us as ∧ a = .list as := by
  rw [ofStorable, ofItems_eq, bind_eq_ok]
  refine exists_congr fun as => and_congr mapM_eq_ok ?_
  exact ⟨fun h => (Except.ok.inj h).symm, fun h => h ▸ rfl⟩

theorem toStorable_list_eq_ok {items : List Value} {u : Value} :
    (Value.list items).toStorable = .ok u ↔
      ∃ us, List.Forall₂ (fun v u => v.toStorable = .ok u) items us ∧ u = .list us := by
  rw [Value.toStorable, Value.itemsToStorable_eq, bind_eq_ok]
  refine exists_congr fun us => and_congr mapM_eq_ok ?_
  exact ⟨fun h => (Except.ok.inj h).symm, fun h => h ▸ rfl⟩

/-- A list is written item by item. -/
theorem exists_of_ofValue_list {items : List Value} (h : ofValue (.list items) = .ok a) :
    ∃ as, List.Forall₂ (fun v a => ofValue v = .ok a) items as ∧ a = .list as := by
  obtain ⟨u, hu, ha⟩ := ofValue_eq_ok.mp h
  obtain ⟨us, hus, rfl⟩ := toStorable_list_eq_ok.mp hu
  obtain ⟨as, has, rfl⟩ := ofStorable_list_eq_ok.mp ha
  exact ⟨as, forall₂_trans hus has fun _ u _ hu ha => ofValue_eq_ok.mpr ⟨u, hu, ha⟩, rfl⟩

/-- A tuple is written as the list of its items. -/
theorem ofValue_tuple (items : List Value) : ofValue (.tuple items) = ofValue (.list items) := by
  rw [ofValue, ofValue, Value.toStorable, Value.toStorable]

/-- A map is written entry by entry, under the names that its keys turn into. -/
theorem exists_of_ofValue_map {entries : Entries} (h : ofValue (.map entries) = .ok a) :
    ∃ as, List.Forall₂ (OrderedMap.Alike fun v a => ofValue v = .ok a) entries.byName as ∧
      a = .map as := by
  obtain ⟨u, hu, ha⟩ := ofValue_eq_ok.mp h
  rw [Value.toStorable, bind_eq_ok] at hu
  obtain ⟨us, hus, hu⟩ := hu
  obtain rfl := Except.ok.inj hu
  obtain ⟨-, named, hnamed, rfl⟩ := Value.entriesToStorable_nil_eq_ok.mp hus
  rw [ofStorable, bind_eq_ok] at ha
  obtain ⟨as, has, ha⟩ := ha
  obtain rfl := Except.ok.inj ha
  refine ⟨as, ?_, rfl⟩
  exact forall₂_trans (OrderedMap.forall₂_ofList hnamed) (ofEntries_keyed_eq_ok.mp has)
    fun _ u _ hu ha => ⟨hu.1.trans ha.1, ofValue_eq_ok.mpr ⟨u.2, hu.2, ha.2⟩⟩

theorem exists_of_ofValue_set {frozen : Bool} {members : List Value}
    (h : ofValue (.set frozen members) = .ok a) :
    ∃ us, Value.membersToStorable [] members = .ok us ∧ ofMembers false us = .ok a := by
  obtain ⟨u, hu, ha⟩ := ofValue_eq_ok.mp h
  rw [Value.toStorable, bind_eq_ok] at hu
  obtain ⟨us, hus, hu⟩ := hu
  obtain rfl := Except.ok.inj hu
  exact ⟨us, hus, ha⟩

/-- Whether members are written as some attribute value: as numbers if all of them are numbers, or
as texts or byte strings. -/
inductive MembersAs (members : List Value) : Attr → Prop where
  | numbers {ds : List Decimal} {ss : List String}
      (hds : List.Forall₂ (fun v d => v.exactNumber? = some d) members ds)
      (hss : List.Forall₂ (fun d s => numberText d = .ok s) ds ss) :
    MembersAs members (.numbers (ss.map .plain))
  | texts {ss : List Spelling} (h : List.Forall₂ (fun v s => v.text? = some s) members ss) :
    MembersAs members (.texts ss)
  | byteSets {bs : List (List UInt8)} (h : List.Forall₂ (fun v b => v.bytes? = some b) members bs) :
    MembersAs members (.byteSets bs)

theorem membersAs_of_ofMembers {frozen : Bool} {members : List Value}
    (h : ofMembers frozen members = .ok a) : MembersAs members a := by
  unfold ofMembers at h
  split at h
  next ds hds =>
    obtain ⟨ss, hss, rfl⟩ := map_eq_ok.mp h
    exact .numbers (mapM_eq_some.mp hds) (mapM_eq_ok.mp hss)
  next =>
    split at h
    next ss hss => exact Except.ok.inj h ▸ .texts (mapM_eq_some.mp hss)
    next =>
      split at h
      next bs hbs => exact Except.ok.inj h ▸ .byteSets (mapM_eq_some.mp hbs)
      next => cases h

/-- Members are written as what each of them is. -/
theorem MembersAs.of_mem {members : List Value} (h : MembersAs members a) {u : Value}
    (hu : u ∈ members) : a.tag = .numbers ∧ u.exactNumber?.isSome ∨
      a.tag = .texts ∧ u.text?.isSome ∨ a.tag = .byteSets ∧ u.bytes?.isSome := by
  cases h with
  | numbers hds _ =>
    obtain ⟨d, -, hd⟩ := exists_of_mem_forall₂ hds.flip hu
    exact .inl ⟨rfl, Option.isSome_of_eq_some hd⟩
  | texts h =>
    obtain ⟨s, -, hs⟩ := exists_of_mem_forall₂ h.flip hu
    exact .inr (.inl ⟨rfl, Option.isSome_of_eq_some hs⟩)
  | byteSets h =>
    obtain ⟨b, -, hb⟩ := exists_of_mem_forall₂ h.flip hu
    exact .inr (.inr ⟨rfl, Option.isSome_of_eq_some hb⟩)

/-! ## Refusals -/

/-- What else than a signal keeps a number from being written. -/
theorem refused_of_special {f : Failure} {shown : String}
    (h : (if shown = "Infinity" ∨ shown = "NaN" then .error (.unstorable .notFinite)
      else .ok shown : Outcome String) = .error f) :
    f = .unstorable .notFinite := by
  split at h
  · exact (Except.error.inj h).symm
  · cases h

/-- The failures of writing: what cannot be stored is refused, or a number raises a signal. -/
def Refused (f : Failure) : Prop :=
  (∃ why, f = .unstorable why) ∨ ∃ s, f = .signal s

theorem fails_numberText (d : Decimal) : Fails Refused (numberText d) := by
  intro f h
  rcases bind_eq_error.mp h with h | ⟨d', -, h⟩
  · unfold admitted at h
    split at h
    · cases h
    · exact .inr ⟨_, (Except.error.inj h).symm⟩
  · exact .inl ⟨_, refused_of_special h⟩

theorem fails_unknownKind {α : Type} (v : Value) :
    Fails Refused (.error (unknownKind v) : Outcome α) :=
  fails_error.mpr (.inl ⟨_, rfl⟩)

theorem fails_ofMembers (frozen : Bool) (members : List Value) :
    Fails Refused (ofMembers frozen members) := by
  unfold ofMembers
  split
  · exact (Fails.mapM fun d _ => fails_numberText d).bind fun _ _ => fails_ok _
  split
  · exact fails_ok _
  split
  · exact fails_ok _
  · exact fails_unknownKind _

theorem ofEntries_eq (entries : Entries) : ofEntries entries =
    entries.mapM fun e => do return (e.1.spelling, ← ofStorable e.2) := by
  induction entries with
  | nil => rfl
  | cons e entries ih =>
    obtain ⟨k, v⟩ := e
    rw [ofEntries, ih, List.mapM_cons]
    cases ofStorable v <;> rfl

theorem fails_ofStorable (u : Value) : Fails Refused (ofStorable u) := by
  induction u using Value.byParts with
  | null | bool b | text s | bytes c content => exact fails_ok _
  | int n | decimal d => exact (fails_numberText _).bind fun _ _ => fails_ok _
  | set frozen members _ => exact fails_ofMembers frozen members
  | list items ih | tuple items ih =>
    rw [ofStorable, ofItems_eq]
    exact (Fails.mapM ih).bind fun _ _ => fails_ok _
  | map entries ih =>
    rw [ofStorable, ofEntries_eq]
    exact (Fails.mapM fun e he => (ih e he).bind fun _ _ => fails_ok _).bind fun _ _ => fails_ok _
  | float x => exact fails_unknownKind _
  | wildcard => exact fails_unknownKind _
  | record fields => exact fails_unknownKind _
  | other kind shown => exact fails_unknownKind _

theorem fails_ofValue (v : Value) : Fails Refused (ofValue v) := by
  unfold ofValue
  split
  · exact fails_ofStorable _
  · exact fails_error.mpr (.inl ⟨_, rfl⟩)

end Attr

end DocTable
