import DocTable.Proofs.Field.Reading
import DocTable.Proofs.Stored.Limits
import Mathlib.Data.List.Forall2

/-! What fields send. The key of an attribute value that is sent is the code of the declared type,
or that of its members where an element is looked for; and the element is sent as it is sent within
the set or the list that holds nothing else. -/

namespace DocTable

open Outcome

/-! ## Kinds -/

/-- An attribute value is sent under the code of its kind. -/
theorem Attr.exists_payload (a : Attr) : ∃ payload, a.toValue = single a.tag payload := by
  cases a <;> exact ⟨_, rfl⟩

theorem Tag.whole_of_member? {t m : Tag} {v : Value} (hm : t.member? = some m)
    (h : m.accepts v = true) : v.Whole := by
  cases t <;> cases hm <;> cases v <;> trivial

theorem Tag.accepts_set_singleton {t m : Tag} {v : Value} (hm : t.member? = some m)
    (frozen : Bool) : t.accepts (.set frozen [v]) = m.accepts v := by
  cases t <;> cases hm <;> exact Bool.and_true _

/-- Members of sets are no sets. -/
theorem Tag.isSet_of_member? {t m : Tag} (h : t.member? = some m) : m.isSet = false := by
  cases t <;> cases h <;> rfl

namespace Definition

variable {d : Definition} {v : Value} {t m : Tag} {a b : Attr}

theorem tag?_of_heldType (h : d.heldType = t.code) (hnull : t ≠ .null) : d.tag? = some t := by
  rw [tag?, h, Tag.ofCode?_code]
  cases t <;> first | exact absurd rfl hnull | rfl

theorem tag_of_encodeMember (hm : m.isSet = false) (h : d.encodeMember m v = .ok a) :
    a.tag = m := by
  unfold encodeMember at h
  split at h
  next haccepts =>
    split at h
    next => exact Except.ok.inj h ▸ rfl
    next =>
      have hset : m.isSet = true → v.truthy = true := fun hset =>
        absurd hset (Bool.eq_false_iff.mp hm)
      exact Tag.tag_of_accepts haccepts hset (blaming_eq_ok.mp h)
  next => cases h

/-- An element is written as what the members of the type are, or as the type itself if it has
none; only what stands in a list can be of any kind. -/
theorem tag_of_encodeElement (ht : d.tag? = some t) (hlist : t ≠ .list)
    (h : d.encodeElement v = .ok a) : a.tag = t.member?.getD t := by
  have hv : v ≠ .null := by
    rintro rfl
    rw [encodeElement_null] at h
    cases h
  rw [encodeElement_eq hv, ht] at h
  cases t with
  | list => exact absurd rfl hlist
  | texts | numbers | byteSets => exact tag_of_encodeMember rfl h
  | _ => exact Option.some.inj ((tag_of_encode h).symm.trans ht)

theorem exists_tag_of_encodeElement (h : d.encodeElement v = .ok a) : ∃ t, d.tag? = some t := by
  cases ht : d.tag? with
  | some t => exact ⟨t, rfl⟩
  | none =>
    have hencode : d.encodeElement v = d.encode v := by
      unfold encodeElement
      rw [ht]
    exact ⟨_, ht.symm.trans (tag_of_encode (hencode.symm.trans h))⟩

/-- **What is sent is of the declared type.** Whatever a field writes is sent as a map with one key,
the code of the type under which its values are held. What it writes for an element is sent under
the code of the members of a set, and under that of the type itself unless this is a list. -/
theorem sends_heldType (d : Definition) (v : Value) :
    (∀ a, d.encode v = .ok a → ∃ payload, a.toValue = .map [(.text d.heldType, payload)]) ∧
    ∀ a, d.encodeElement v = .ok a → ∃ code payload, a.toValue = .map [(.text code, payload)] ∧
      (d.heldType = "SS" → code = "S") ∧ (d.heldType = "NS" → code = "N") ∧
      (d.heldType = "BS" → code = "B") ∧
      (d.heldType ∉ ["SS", "NS", "BS", "L"] → code = d.heldType) := by
  constructor
  · intro a h
    obtain ⟨payload, hsent⟩ := a.exists_payload
    refine ⟨payload, ?_⟩
    rw [hsent, Attr.single, code_of_tag? (tag_of_encode h)]
  · intro a h
    obtain ⟨t, ht⟩ := exists_tag_of_encodeElement h
    obtain ⟨payload, hsent⟩ := a.exists_payload
    refine ⟨a.tag.code, payload, hsent, ?_⟩
    rw [← code_of_tag? ht]
    by_cases hlist : t = .list
    · simp [hlist, Tag.code]
    · rw [tag_of_encodeElement ht hlist h]
      cases t <;> first | exact absurd rfl hlist | decide

/-- Marks that were given, which an application may have in a list. -/
def marks : Definition :=
  { fieldName := "marks", storedName := "m", type := "NS", converter := some .asSet }

/-- What was said of the marks, in any form. -/
def remarks : Definition :=
  { fieldName := "remarks", storedName := "r", type := "M", json := true }

theorem sends_heldType_marks :
    (marks.encode (.list [.int 2, .int 1]) = .ok (.numbers ["2", "1"]) ∧
      ∃ payload, (Attr.numbers ["2", "1"]).toValue = .map [(.text "NS", payload)]) ∧
    (remarks.encode (.list [.text "late"]) = .ok (.text "[\"late\"]") ∧
      ∃ payload, (Attr.text "[\"late\"]").toValue = .map [(.text "S", payload)]) ∧
    (marks.encodeElement (.int 2) = .ok (.number "2") ∧
      ∃ code payload, (Attr.number "2").toValue = .map [(.text code, payload)] ∧ code = "N") := by
  have hmarks : marks.encode (.list [.int 2, .int 1]) = .ok (.numbers ["2", "1"]) := by
    with_unfolding_all rfl
  have hremarks : remarks.encode (.list [.text "late"]) = .ok (.text "[\"late\"]") := rfl
  have hmark : marks.encodeElement (.int 2) = .ok (.number "2") := rfl
  obtain ⟨code, payload, hsent, -, hcode, -⟩ := (sends_heldType marks (.int 2)).2 _ hmark
  exact ⟨⟨hmarks, (sends_heldType marks _).1 _ hmarks⟩,
    ⟨hremarks, (sends_heldType remarks _).1 _ hremarks⟩, hmark, code, payload, hsent, hcode rfl⟩

end Definition

/-! ## Singletons -/

namespace Value

variable {v u : Value}

theorem membersToStorable_singleton (hu : v.toStorable = .ok u) (h : u.hashable = true) :
    membersToStorable [] [v] = .ok [u] :=
  membersToStorable_eq_ok.mpr ⟨[u], .cons ⟨hu, h⟩ .nil, rfl⟩

end Value

namespace Attr

variable {v : Value} {t m : Tag}

/-- The attribute value of a set, given that of its only member. -/
def alone : Attr → Attr
  | text s => texts [s]
  | number s => numbers [s]
  | bytes _ content => byteSets [content]
  | a => a

/-- What is sent for a set is the list of what is sent for its only member, unless that is a byte
string that is held as changeable. -/
theorem toValue_alone {a : Attr} {e : Value} (hm : t.member? = some m) (ha : a.tag = m)
    (hfixed : ∀ content, a ≠ bytes true content) :
    a.alone.toValue = single t (.list [e]) ↔ a.toValue = single m e := by
  cases t <;> cases hm <;> cases a <;> cases ha
  case texts s => simp [alone, toValue, single, eq_comm]
  case numbers s => simp [alone, toValue, single, eq_comm]
  case byteSets changeable content =>
    cases changeable with
    | false => simp [alone, toValue, single, eq_comm]
    | true => exact absurd rfl (hfixed content)

/-- A list with one item is written as the list of what the item is written as. -/
theorem ofValue_list_singleton (v : Value) :
    ofValue (.list [v]) = (ofValue v).map fun a => list [a] := by
  unfold ofValue
  rw [Value.toStorable, Value.itemsToStorable_eq, List.mapM_cons, List.mapM_nil]
  cases v.toStorable with
  | error why => rfl
  | ok u =>
    show ofStorable (.list [u]) = (ofStorable u).map _
    rw [ofStorable, ofItems_eq, List.mapM_cons, List.mapM_nil]
    cases ofStorable u <;> rfl

theorem ofValue_set_singleton {u : Value} (hu : v.toStorable = .ok u) (h : u.hashable = true)
    (frozen : Bool) : ofValue (.set frozen [v]) = ofMembers false [u] := by
  rw [ofValue, Value.toStorable, Value.membersToStorable_singleton hu h]
  rfl

theorem ofMembers_number {d : Decimal} {u : Value} (h : u.exactNumber? = some d) (frozen : Bool) :
    ofMembers frozen [u] = (numberText d).map fun s : String => numbers [s] := by
  rw [ofMembers, List.mapM_cons, List.mapM_nil, h]
  show (([d].mapM numberText) >>= fun ss => .ok (numbers (ss.map .plain))) = _
  rw [List.mapM_cons, List.mapM_nil]
  cases numberText d <;> rfl

theorem ofMembers_alone {u : Value} {d : Decimal} (h : u.exactNumber? = some d)
    (hu : ofStorable u = (numberText d).map fun s : String => number s) (frozen : Bool) :
    ofMembers frozen [u] = (ofStorable u).map alone := by
  rw [ofMembers_number h, hu]
  cases numberText d <;> rfl

/-- A set with one member, of a kind that its type accepts, is written as this member alone. -/
theorem ofValue_set_of_accepts (hm : t.member? = some m) (haccepts : m.accepts v = true)
    (hhashable : v.hashable = true) (frozen : Bool) :
    ofValue (.set frozen [v]) = (ofValue v).map alone := by
  obtain ⟨u, hu, hhash⟩ := Value.exists_toStorable_of_whole (Tag.whole_of_member? hm haccepts)
  rw [ofValue_set_singleton hu (hhash.trans hhashable), ofValue, hu]
  show ofMembers false [u] = (ofStorable u).map alone
  cases t with
  | texts =>
    cases hm
    cases v with
    | text s => exact Except.ok.inj hu ▸ rfl
    | _ => cases haccepts
  | numbers =>
    cases hm
    cases v with
    | int n => exact Except.ok.inj hu ▸ ofMembers_alone rfl rfl false
    | float x => exact Except.ok.inj hu ▸ ofMembers_alone rfl rfl false
    | decimal d => exact Except.ok.inj hu ▸ ofMembers_alone rfl rfl false
    | _ => cases haccepts
  | byteSets =>
    cases hm
    cases v with
    | bytes changeable content => exact Except.ok.inj hu ▸ rfl
    | _ => cases haccepts
  | _ => cases hm

end Attr

namespace Definition

variable {d : Definition} {v : Value} {t m : Tag} {a b : Attr}

/-- A member that can be hashed is written as the value that it is. -/
theorem encodeMember_of_accepts (haccepts : m.accepts v = true) (hhashable : v.hashable = true) :
    d.encodeMember m v = d.blaming (Attr.ofValue v) := by
  unfold encodeMember
  rw [if_pos haccepts]
  split
  next changeable content =>
    cases changeable with
    | false => rfl
    | true => cases hhashable
  next => rfl

theorem encode_of_checked (hconverter : d.converter = none) (hjson : d.json = false)
    (hv : v ≠ .null) : d.encode v = d.checked v >>= fun _ => d.encodeChecked v := by
  rw [encode_of_ne_null hv, heldValue_eq hconverter, hjson]
  rfl

theorem encodeChecked_of_not_bytes (h : Tag.isBytes v = false) :
    d.encodeChecked v = d.blaming (Attr.ofValue v) := by
  refine (d.encodeChecked_eq v).resolve_left ?_
  rintro ⟨changeable, content, -, rfl, -⟩
  cases h

theorem json_eq_false_of_tag? (ht : d.tag? = some t) (h : t ≠ .text) : d.json = false := by
  cases hjson : d.json with
  | false => rfl
  | true =>
    have hheld : t.code = Tag.text.code := by
      rw [code_of_tag? ht, heldType, hjson, if_pos rfl, Tag.code]
    exact absurd (Tag.code_injective hheld) h

theorem encodeMember_of_not_accepts (h : m.accepts v = false) :
    d.encodeMember m v = .error (d.refusal (.wrongElement m.code v.kind)) := by
  unfold encodeMember
  rw [h, if_neg Bool.false_ne_true]

/-- A set with one member is checked as the member is. -/
theorem checked_set_singleton (ht : d.tag? = some t) (hm : t.member? = some m) (frozen : Bool) :
    d.checked (.set frozen [v]) = if m.accepts v then .ok t else
      .error (d.refusal (.wrongKind d.heldType (Value.set frozen [v]).kind)) := by
  unfold checked
  rw [ht]
  show (if t.accepts (.set frozen [v]) then _ else _) = _
  rw [Tag.accepts_set_singleton hm]
  exact if_congr .rfl (if_neg (by simp [Value.truthy])) rfl

/-- A set with one member is written as the member alone, and refused when the member is. -/
theorem encode_set_singleton (hconverter : d.converter = none) (ht : d.tag? = some t)
    (hm : t.member? = some m) (hhashable : v.hashable = true) (frozen : Bool) :
    d.encode (.set frozen [v]) = .ok b ↔ ∃ a, d.encodeMember m v = .ok a ∧ a.alone = b := by
  have hjson : d.json = false := json_eq_false_of_tag? ht fun h => by subst h; cases hm
  rw [encode_of_checked hconverter hjson (by simp), checked_set_singleton ht hm]
  cases haccepts : m.accepts v with
  | false =>
    rw [encodeMember_of_not_accepts haccepts]
    exact ⟨nofun, nofun⟩
  | true =>
    rw [encodeMember_of_accepts haccepts hhashable]
    show d.encodeChecked (.set frozen [v]) = _ ↔ _
    rw [encodeChecked_of_not_bytes rfl, Attr.ofValue_set_of_accepts hm haccepts hhashable]
    simp only [blaming_eq_ok, map_eq_ok]

/-- A list with one item is written as the list of the item as an element. -/
theorem encode_list_singleton (hconverter : d.converter = none) (ht : d.tag? = some .list)
    (hv : v ≠ .null) :
    d.encode (.list [v]) = .ok b ↔ ∃ a, d.encodeElement v = .ok a ∧ Attr.list [a] = b := by
  have hjson : d.json = false := json_eq_false_of_tag? ht nofun
  have hchecked : d.checked (.list [v]) = .ok .list :=
    checked_eq_ok.mpr ⟨ht, rfl, nofun⟩
  rw [encode_of_checked hconverter hjson (by simp), hchecked]
  show d.encodeChecked (.list [v]) = _ ↔ _
  rw [encodeChecked_of_not_bytes rfl, Attr.ofValue_list_singleton]
  simp only [blaming_eq_ok, map_eq_ok, encodeElement_list_eq_ok ht hv]

theorem encodeElement_of_member? (ht : d.tag? = some t) (hm : t.member? = some m)
    (hv : v ≠ .null) : d.encodeElement v = d.encodeMember m v := by
  rw [encodeElement_eq hv, ht]
  cases t <;> cases hm <;> rfl

theorem fixed_of_encodeMember (hm : m.isSet = false) (h : d.encodeMember m v = .ok a)
    (content : List UInt8) : a ≠ .bytes true content := by
  rintro rfl
  obtain rfl : Tag.bytes = m := tag_of_encodeMember hm h
  unfold encodeMember at h
  split at h
  next haccepts =>
    cases v with
    | bytes changeable content => cases h
    | _ => cases haccepts
  next => cases h

/-- A member that can be hashed is sent as it is sent in the set that holds nothing else. -/
theorem element_iff_set (hconverter : d.converter = none) (ht : d.tag? = some t)
    (hm : t.member? = some m) (hv : v ≠ .null) (hhashable : v.hashable = true) (frozen : Bool)
    (e : Value) :
    (∃ a, d.encodeElement v = .ok a ∧ a.toValue = Attr.single m e) ↔
      ∃ b, d.encode (.set frozen [v]) = .ok b ∧ b.toValue = Attr.single t (.list [e]) := by
  have hsingle : m.isSet = false := Tag.isSet_of_member? hm
  rw [encodeElement_of_member? ht hm hv]
  simp only [encode_set_singleton hconverter ht hm hhashable frozen]
  have hsent : ∀ a, d.encodeMember m v = .ok a →
      (a.alone.toValue = Attr.single t (.list [e]) ↔ a.toValue = Attr.single m e) := fun a ha =>
    Attr.toValue_alone hm (tag_of_encodeMember hsingle ha) (fixed_of_encodeMember hsingle ha)
  constructor
  · rintro ⟨a, ha, he⟩
    exact ⟨a.alone, ⟨a, ha, rfl⟩, (hsent a ha).mpr he⟩
  · rintro ⟨-, ⟨a, ha, rfl⟩, he⟩
    exact ⟨a, ha, (hsent a ha).mp he⟩

theorem element_fails_iff_set (hconverter : d.converter = none) (ht : d.tag? = some t)
    (hm : t.member? = some m) (hv : v ≠ .null) (hhashable : v.hashable = true) (frozen : Bool) :
    (∃ f, d.encodeElement v = .error f) ↔ ∃ f, d.encode (.set frozen [v]) = .error f := by
  rw [exists_error_iff, exists_error_iff, encodeElement_of_member? ht hm hv]
  simp [encode_set_singleton hconverter ht hm hhashable frozen]

/-- An item is sent as it is sent in the list that holds nothing else. -/
theorem element_iff_list (hconverter : d.converter = none) (ht : d.tag? = some .list)
    (hv : v ≠ .null) (e : Value) :
    (∃ a, d.encodeElement v = .ok a ∧ a.toValue = e) ↔
      ∃ b, d.encode (.list [v]) = .ok b ∧ b.toValue = Attr.single .list (.list [e]) := by
  simp only [encode_list_singleton hconverter ht hv]
  constructor
  · rintro ⟨a, ha, rfl⟩
    exact ⟨.list [a], ⟨a, ha, rfl⟩, by simp [Attr.toValue, Attr.toValues]⟩
  · rintro ⟨-, ⟨a, ha, rfl⟩, hsent⟩
    exact ⟨a, ha, by simpa [Attr.toValue, Attr.toValues, Attr.single] using hsent⟩

theorem element_fails_iff_list (hconverter : d.converter = none) (ht : d.tag? = some .list)
    (hv : v ≠ .null) :
    (∃ f, d.encodeElement v = .error f) ↔ ∃ f, d.encode (.list [v]) = .error f := by
  rw [exists_error_iff, exists_error_iff]
  simp [encode_list_singleton hconverter ht hv]

end Definition

end DocTable
