import DocTable.Proofs.Schema.Layout
import DocTable.Proofs.Schema.Writing

/-! Sets without members, which the store does not take. A field refuses one as its value, and a
record leaves it out; inside of lists and maps it is neither refused nor left out. What is sent has
such a set exactly when what is held has one. -/

namespace DocTable

open Outcome

/-- Sets without members. -/
def Value.IsEmptySet : Value → Prop
  | set _ members => members = []
  | _ => False

/-- Attribute values that are sets without members. -/
def Attr.IsEmptySet : Attr → Prop
  | texts members | numbers members => members = []
  | byteSets members => members = []
  | _ => False

variable {v w : Value} {a : Attr} {d : Definition}

/-! ## Values -/

/-- What turns into a member of a set has no parts. -/
theorem Value.whole_of_toStorable {u : Value} (h : v.toStorable = .ok u)
    (hhashable : u.hashable = true) : v.Whole := by
  cases v with
  | list items | tuple items =>
    obtain ⟨us, -, h⟩ := bind_eq_ok.mp h
    obtain rfl := Except.ok.inj h
    cases hhashable
  | set frozen members =>
    obtain ⟨us, -, h⟩ := bind_eq_ok.mp h
    obtain rfl := Except.ok.inj h
    cases hhashable
  | map entries =>
    obtain ⟨us, -, h⟩ := bind_eq_ok.mp h
    obtain rfl := Except.ok.inj h
    cases hhashable
  | _ => trivial

theorem Value.Whole.not_isEmptySet (h : v.Whole) : ¬v.IsEmptySet := by
  cases v with
  | set => exact h.elim
  | _ => exact id

theorem Attr.has_emptySet_of_whole (ha : a.Whole) (hempty : ¬a.IsEmptySet) (hv : v.Whole) :
    a.Has IsEmptySet ↔ v.Has Value.IsEmptySet := by
  rw [has_of_whole ha, Value.has_of_whole hv]
  exact iff_of_false hempty hv.not_isEmptySet

theorem Attr.MembersAs.isEmptySet_iff {members : List Value} (h : MembersAs members a) :
    a.IsEmptySet ↔ members = [] := by
  have hnil : ∀ {α β : Type} {R : α → β → Prop} {as : List α} {bs : List β},
      List.Forall₂ R as bs → (bs = [] ↔ as = []) := fun h => by
    rw [← List.length_eq_zero_iff, ← h.length_eq, List.length_eq_zero_iff]
  cases h with
  | numbers hds hss => exact List.map_eq_nil_iff.trans ((hnil hss).trans (hnil hds))
  | texts h | byteSets h => exact hnil h

theorem Attr.MembersAs.whole {members : List Value} (h : MembersAs members a) : a.Whole := by
  cases h <;> trivial

/-- A set is written with members exactly when it has some, and its members have no parts. -/
theorem Attr.has_emptySet_of_set {frozen : Bool} {members : List Value}
    (h : ofValue (.set frozen members) = .ok a) :
    a.Has IsEmptySet ↔ (Value.set frozen members).Has Value.IsEmptySet := by
  obtain ⟨us, hus, ha⟩ := exists_of_ofValue_set h
  have hmembersAs := membersAs_of_ofMembers ha
  have hmembers : ¬∃ v ∈ members, v.Has Value.IsEmptySet := by
    rintro ⟨v, hv, hset⟩
    obtain ⟨ws, hws, -⟩ := Value.membersToStorable_eq_ok.mp hus
    obtain ⟨w, -, hstorable, hhashable⟩ := exists_of_mem_forall₂ hws.flip hv
    have hwhole := Value.whole_of_toStorable hstorable hhashable
    exact hwhole.not_isEmptySet ((Value.has_of_whole hwhole).mp hset)
  rw [has_of_whole hmembersAs.whole, hmembersAs.isEmptySet_iff,
    Value.membersToStorable_eq_nil hus, Value.has_set, or_iff_left hmembers]
  rfl

/-- **Empty sets are kept.** What is written for a value has an empty set somewhere exactly when
the value has one. -/
theorem Attr.has_emptySet_iff (h : ofValue v = .ok a) :
    a.Has IsEmptySet ↔ v.Has Value.IsEmptySet := by
  induction v using Value.byParts generalizing a with
  | null | bool | text | bytes =>
    obtain rfl := Except.ok.inj h
    exact has_emptySet_of_whole trivial id trivial
  | int | float | decimal =>
    obtain ⟨s, -, h⟩ := bind_eq_ok.mp h
    obtain rfl := Except.ok.inj h
    exact has_emptySet_of_whole trivial id trivial
  | list items ih =>
    obtain ⟨as, has, rfl⟩ := exists_of_ofValue_list h
    rw [has_list, Value.has_list]
    exact or_congr .rfl (exists_mem_iff_of_forall₂ has fun v hv a ha => (ih v hv ha).symm).symm
  | tuple items ih =>
    rw [ofValue_tuple] at h
    obtain ⟨as, has, rfl⟩ := exists_of_ofValue_list h
    rw [has_list, Value.has_tuple]
    exact or_congr .rfl (exists_mem_iff_of_forall₂ has fun v hv a ha => (ih v hv ha).symm).symm
  | set frozen members _ => exact has_emptySet_of_set h
  | map entries ih =>
    obtain ⟨as, has, rfl⟩ := exists_of_ofValue_map h
    rw [has_map, Value.has_map]
    refine or_congr .rfl (exists_mem_iff_of_forall₂ has fun e he a ha => ?_).symm
    obtain ⟨e', he', rfl⟩ := Entries.exists_of_mem_byName he
    exact (ih e' he' ha.2).symm
  | wildcard | record | other => cases h

theorem Attr.StandsFor.has_emptySet_iff (h : a.StandsFor w) :
    a.Has IsEmptySet ↔ w.Has Value.IsEmptySet := by
  cases h with
  | value h => exact Attr.has_emptySet_iff h
  | bytes changeable content => exact has_emptySet_of_whole trivial id trivial

/-! ## Fields and records -/

/-- Whether the value that is held has an empty set somewhere. -/
def HeldEmptySet (held : Outcome Value) : Prop :=
  ∃ w, held = .ok w ∧ w.Has Value.IsEmptySet

theorem Attr.StandsFor.has_emptySet_iff_held (h : a.StandsFor w) {held : Outcome Value}
    (hw : held = .ok w) : a.Has IsEmptySet ↔ HeldEmptySet held := by
  rw [h.has_emptySet_iff, HeldEmptySet, hw]
  simp

namespace Definition

theorem encode_emptySet_iff (h : d.encode v = .ok a) :
    a.Has Attr.IsEmptySet ↔ HeldEmptySet (d.heldValue v) := by
  obtain ⟨w, hw, hstands⟩ := exists_standsFor_of_encode h
  exact hstands.has_emptySet_iff_held hw

theorem encodeElement_emptySet_iff (h : d.encodeElement v = .ok a) :
    a.Has Attr.IsEmptySet ↔ HeldEmptySet (d.heldElement v) := by
  obtain ⟨w, hw, hstands⟩ := exists_standsFor_of_encodeElement h
  exact hstands.has_emptySet_iff_held hw

/-- Only fields of lists and of maps can write an empty set. -/
theorem list_or_map_of_emptySet (h : d.encode v = .ok a) (hset : a.Has Attr.IsEmptySet) :
    d.tag? = some .list ∨ d.tag? = some .map := by
  obtain ⟨-, w, t, -, hchecked, hencode⟩ := encode_eq_ok.mp h
  obtain ⟨ht, haccepts, htruthy⟩ := checked_eq_ok.mp hchecked
  have hw := (standsFor_of_encodeChecked hencode).has_emptySet_iff.mp hset
  rw [ht]
  cases hmember : t.member? with
  | some m =>
    have hset : t.isSet = true := by rw [Tag.isSet, hmember]; rfl
    obtain ⟨frozen, members, rfl, hmembers⟩ := Tag.exists_set_of_accepts hmember haccepts
    rcases Value.has_set.mp hw with hnil | ⟨v, hv, hin⟩
    · obtain rfl : members = [] := hnil
      exact absurd (htruthy hset) (by simp [Value.truthy])
    · obtain ⟨hlist, hmap, hnone⟩ : m ≠ .list ∧ m ≠ .map ∧ m.member? = none := by
        cases t <;> cases hmember <;> decide
      have hwhole := Tag.whole_of_accepts hlist hmap hnone (hmembers v hv)
      exact absurd ((Value.has_of_whole hwhole).mp hin) hwhole.not_isEmptySet
  | none =>
    by_contra hnot
    obtain ⟨hlist, hmap⟩ := not_or.mp hnot
    have hwhole := Tag.whole_of_accepts (hlist <| congrArg some ·) (hmap <| congrArg some ·)
      hmember haccepts
    exact absurd ((Value.has_of_whole hwhole).mp hw) hwhole.not_isEmptySet

end Definition

namespace Schema

/-- The attributes of a record have an empty set when one of the values that are written has. -/
theorem encode_emptySet_iff {s : Schema} {record : Value} {item : Item}
    (h : s.encode record = .ok item) : (∃ r ∈ item, r.2.Has Attr.IsEmptySet) ↔
      ∃ values, s.valuesOf record = .ok values ∧
        ∃ r ∈ s.written values, HeldEmptySet (r.2.1.heldValue r.2.2) := by
  obtain ⟨values, hvalues, hitem⟩ := exists_of_encode h
  have hiff := exists_mem_iff_of_forall₂ hitem fun r _ r' hr =>
    (Definition.encode_emptySet_iff hr.2).symm
  rw [← hiff, hvalues]
  simp

/-- **Empty sets are sent** exactly where they are held: by a field or for an element, and in an
item for the values of a record that are written, in place of those that they replace. -/
theorem emptySet_iff (d : Definition) (v : Value) (s : Schema) (record : Value) :
    (∀ a, d.encode v = .ok a → (a.Has Attr.IsEmptySet ↔ HeldEmptySet (d.heldValue v))) ∧
    (∀ a, d.encodeElement v = .ok a →
      (a.Has Attr.IsEmptySet ↔ HeldEmptySet (d.heldElement v))) ∧
    ∀ item, s.encode record = .ok item →
      ((∃ r ∈ item, r.2.Has Attr.IsEmptySet) ↔
        ∃ values, s.valuesOf record = .ok values ∧
          ∃ r ∈ s.written values, HeldEmptySet (r.2.1.heldValue r.2.2)) :=
  ⟨fun _ h => Definition.encode_emptySet_iff h,
    fun _ h => Definition.encodeElement_emptySet_iff h, fun _ h => encode_emptySet_iff h⟩

/-- The scores of a game, which may be anything. -/
def gameScores : Definition :=
  { fieldName := "scores", storedName := "s", type := "L" }

def games : Schema where
  fields := [("id", { fieldName := "id", storedName := "id", type := "S", keyType := some "HASH" }),
    ("scores", gameScores)]
  hashKey := { fieldName := "id", storedName := "id", type := "S", keyType := some "HASH" }

def gameRecord : Value :=
  .map [(.text "id", .text "a"), (.text "scores", .tuple [.set false []])]

theorem emptySet_iff_games :
    gameScores.encode (.list [.set false []]) = .ok (.list [.numbers []]) ∧
    HeldEmptySet (gameScores.heldValue (.list [.set false []])) ∧
    gameScores.encodeElement (.set true []) = .ok (.numbers []) ∧
    HeldEmptySet (gameScores.heldElement (.set true [])) ∧
    games.encode gameRecord = .ok [("id", .text "a"), ("s", .list [.numbers []])] ∧
    ∃ values, games.valuesOf gameRecord = .ok values ∧
      ∃ r ∈ games.written values, HeldEmptySet (r.2.1.heldValue r.2.2) := by
  have hempty : (Attr.list [.numbers []]).Has Attr.IsEmptySet :=
    .list List.mem_cons_self (.here rfl)
  obtain ⟨hvalue, -, hrecord⟩ := emptySet_iff gameScores (.list [.set false []]) games gameRecord
  obtain ⟨-, helement, -⟩ := emptySet_iff gameScores (.set true []) games gameRecord
  refine ⟨rfl, (hvalue _ rfl).mp hempty, rfl, (helement _ rfl).mp (.here rfl), rfl, ?_⟩
  exact (hrecord _ rfl).mp ⟨_, List.mem_cons_of_mem _ List.mem_cons_self, hempty⟩

/-- A list with an empty set is sent with it. -/
theorem not_spares_emptySets : ¬
    ((∀ (d : Definition) (v : Value) (a : Attr), d.encode v = .ok a → ¬a.Has Attr.IsEmptySet) ∧
    (∀ (d : Definition) (v : Value) (a : Attr), d.encodeElement v = .ok a →
      ¬a.Has Attr.IsEmptySet) ∧
    (∀ s : Schema, s.Built → ∀ (record : Value) (item : Item), s.encode record = .ok item →
      ∀ r ∈ item, ¬r.2.Has Attr.IsEmptySet)) := by
  rintro ⟨hencode, -, -⟩
  exact hencode gameScores (.list [.set false []]) (.list [.numbers []]) rfl
    (.list List.mem_cons_self (.here rfl))

end Schema

end DocTable
