import DocTable.Proofs.Field.RoundTrip
import DocTable.Proofs.Stored.Writing

/-! What it takes for a field to write a value: a value that is held for it and is of the declared
type. The attribute value is then of that type too. -/

namespace DocTable

open Outcome

/-- What is written for a value of a type is of that type, an empty set apart. -/
theorem Tag.tag_of_accepts {t : Tag} {w : Value} {a : Attr} (h : t.accepts w = true)
    (hempty : t.isSet = true → w.truthy = true) (ha : Attr.ofValue w = .ok a) : a.tag = t := by
  -- a member of the written set stands for one of the given set
  have hmember : ∀ {p : Value → Bool}, t.isSet = true → allMembers p w = true →
      ∃ v u, p v = true ∧ v.toStorable = .ok u ∧ (a.tag = .numbers ∧ u.exactNumber?.isSome ∨
        a.tag = .texts ∧ u.text?.isSome ∨ a.tag = .byteSets ∧ u.bytes?.isSome) := by
    intro p hset hall
    cases w with
    | set frozen members =>
      obtain ⟨us, hus, hattr⟩ := Attr.exists_of_ofValue_set ha
      have hne : us ≠ [] := fun hnil => by
        have hmembers := (Value.membersToStorable_eq_nil hus).mp hnil
        rw [hmembers] at hempty
        exact absurd (hempty hset) (by simp [Value.truthy])
      obtain ⟨u, hu⟩ := List.exists_mem_of_ne_nil us hne
      obtain ⟨v, hv, hstorable, -⟩ := Value.exists_of_mem_membersToStorable hus hu
      exact ⟨v, u, List.all_eq_true.mp hall v hv, hstorable,
        (Attr.membersAs_of_ofMembers hattr).of_mem hu⟩
    | _ => cases hall
  cases t with
  | text =>
    cases w with
    | text s => exact Except.ok.inj ha ▸ rfl
    | _ => cases h
  | bytes =>
    cases w with
    | bytes c content => exact Except.ok.inj ha ▸ rfl
    | _ => cases h
  | bool =>
    cases w with
    | bool b => exact Except.ok.inj ha ▸ rfl
    | _ => cases h
  | number =>
    cases w with
    | int n =>
      obtain ⟨s, -, ha⟩ := bind_eq_ok.mp ha
      exact Except.ok.inj ha ▸ rfl
    | float x =>
      obtain ⟨s, -, ha⟩ := bind_eq_ok.mp ha
      exact Except.ok.inj ha ▸ rfl
    | decimal d =>
      obtain ⟨s, -, ha⟩ := bind_eq_ok.mp ha
      exact Except.ok.inj ha ▸ rfl
    | _ => cases h
  | null => cases h
  | texts =>
    obtain ⟨v, u, hv, hu, hkind⟩ := hmember rfl h
    cases v with
    | text s =>
      obtain rfl := Except.ok.inj hu
      simpa [Value.exactNumber?, Value.text?, Value.bytes?] using hkind
    | _ => cases hv
  | numbers =>
    obtain ⟨v, u, hv, hu, hkind⟩ := hmember rfl h
    cases v with
    | int _ | float _ | decimal _ =>
      obtain rfl := Except.ok.inj hu
      simpa [Value.exactNumber?, Value.text?, Value.bytes?] using hkind
    | _ => cases hv
  | byteSets =>
    obtain ⟨v, u, hv, hu, hkind⟩ := hmember rfl h
    cases v with
    | bytes c content =>
      obtain rfl := Except.ok.inj hu
      simpa [Value.exactNumber?, Value.text?, Value.bytes?] using hkind
    | _ => cases hv
  | list =>
    cases w with
    | list items =>
      obtain ⟨as, -, rfl⟩ := Attr.exists_of_ofValue_list ha
      rfl
    | tuple items =>
      rw [Attr.ofValue_tuple] at ha
      obtain ⟨as, -, rfl⟩ := Attr.exists_of_ofValue_list ha
      rfl
    | _ => cases h
  | map =>
    cases w with
    | map entries =>
      obtain ⟨as, -, rfl⟩ := Attr.exists_of_ofValue_map ha
      rfl
    | _ => cases h

/-- A type of sets accepts sets of what the type of their members accepts. -/
theorem Tag.exists_set_of_accepts {t m : Tag} {w : Value} (hm : t.member? = some m)
    (h : t.accepts w = true) :
    ∃ frozen members, w = .set frozen members ∧ ∀ v ∈ members, m.accepts v = true := by
  cases t <;> cases hm
  all_goals
    cases w with
    | set frozen members => exact ⟨frozen, members, rfl, List.all_eq_true.mp h⟩
    | _ => cases h

theorem Tag.whole_of_accepts {t : Tag} {w : Value} (hlist : t ≠ .list) (hmap : t ≠ .map)
    (hset : t.member? = none) (h : t.accepts w = true) : w.Whole := by
  cases t <;> first
    | exact absurd rfl hlist
    | exact absurd rfl hmap
    | cases hset; done
    | cases w <;> trivial

/-- Whether an attribute value is what is written for a value that is held: a byte string may be
held as unchangeable. -/
inductive Attr.StandsFor : Attr → Value → Prop where
  | value {a : Attr} {w : Value} (h : ofValue w = .ok a) : StandsFor a w
  | bytes (changeable : Bool) (content : List UInt8) :
    StandsFor (.bytes false content) (.bytes changeable content)

namespace Definition

variable {d : Definition} {v w : Value} {t : Tag} {a : Attr}

theorem code_of_tag? (h : d.tag? = some t) : t.code = d.heldType := by
  unfold tag? at h
  split at h
  next => cases h
  next => exact Tag.code_of_ofCode? h

theorem blaming_eq_ok {o : Outcome Attr} : d.blaming o = .ok a ↔ o = .ok a := by
  unfold blaming
  split
  · exact ⟨nofun, nofun⟩
  · exact .rfl

theorem checked_eq_ok : d.checked w = .ok t ↔
    d.tag? = some t ∧ t.accepts w = true ∧ (t.isSet = true → w.truthy = true) := by
  unfold checked
  split
  next t' ht =>
    rw [ht, Option.some.injEq]
    constructor
    · intro h
      split at h
      next haccepts =>
        obtain ⟨hset, h⟩ := unless_eq_ok.mp h
        obtain rfl := Except.ok.inj h
        exact ⟨rfl, haccepts, by simpa using hset⟩
      next => cases h
    · rintro ⟨rfl, haccepts, hset⟩
      rw [if_pos haccepts]
      exact unless_eq_ok.mpr ⟨by simpa using hset, rfl⟩
  next ht => simp [ht]

/-- A value is held, checked and written. -/
theorem encode_of_ne_null (hv : v ≠ .null) : d.encode v =
    d.heldValue v >>= fun w => d.checked w >>= fun _ => d.encodeChecked w := by
  cases v with
  | null => exact absurd rfl hv
  | _ => rfl

theorem encode_eq_ok : d.encode v = .ok a ↔ v ≠ .null ∧
    ∃ w t, d.heldValue v = .ok w ∧ d.checked w = .ok t ∧ d.encodeChecked w = .ok a := by
  by_cases hv : v = .null
  · subst hv
    exact ⟨nofun, fun h => absurd rfl h.1⟩
  · rw [encode_of_ne_null hv, and_iff_right hv]
    simp only [bind_eq_ok, exists_and_left]

theorem encodeChecked_eq (d : Definition) (w : Value) :
    (∃ c content, d.tag? = some .bytes ∧ w = .bytes c content ∧
      d.encodeChecked w = .ok (.bytes false content)) ∨
    d.encodeChecked w = d.blaming (Attr.ofValue w) := by
  unfold encodeChecked
  split
  next c content ht => exact .inl ⟨c, content, ht, rfl, rfl⟩
  next => exact .inr rfl

theorem standsFor_of_encodeChecked (h : d.encodeChecked w = .ok a) : a.StandsFor w := by
  rcases d.encodeChecked_eq w with ⟨c, content, -, rfl, heq⟩ | heq
  · obtain rfl := Except.ok.inj (heq.symm.trans h)
    exact .bytes c content
  · exact .value (blaming_eq_ok.mp (heq ▸ h))

theorem tag_of_encodeChecked (hchecked : d.checked w = .ok t) (h : d.encodeChecked w = .ok a) :
    a.tag = t := by
  obtain ⟨ht, haccepts, hempty⟩ := checked_eq_ok.mp hchecked
  rcases d.encodeChecked_eq w with ⟨c, content, hbytes, rfl, heq⟩ | heq
  · exact Except.ok.inj (heq.symm.trans h) ▸ Option.some.inj (hbytes.symm.trans ht)
  · exact Tag.tag_of_accepts haccepts hempty (blaming_eq_ok.mp (heq ▸ h))

/-- A field writes attribute values of the type under which its values are held. -/
theorem tag_of_encode (h : d.encode v = .ok a) : d.tag? = some a.tag := by
  obtain ⟨-, w, t, -, hchecked, hencode⟩ := encode_eq_ok.mp h
  rw [tag_of_encodeChecked hchecked hencode]
  exact (checked_eq_ok.mp hchecked).1

/-- What a field writes stands for the value that it holds. -/
theorem exists_standsFor_of_encode (h : d.encode v = .ok a) :
    ∃ w, d.heldValue v = .ok w ∧ a.StandsFor w := by
  obtain ⟨-, w, t, hheld, -, hencode⟩ := encode_eq_ok.mp h
  exact ⟨w, hheld, standsFor_of_encodeChecked hencode⟩

/-! ## Elements -/

/-- The value that is held for an element: that of a list or a set is taken as it is. -/
def heldElement (d : Definition) (v : Value) : Outcome Value :=
  match d.tag? with
  | some .list => .ok v
  | some t => if t.isSet then .ok v else d.heldValue v
  | none => d.heldValue v

theorem standsFor_of_encodeMember (h : d.encodeMember t v = .ok a) : a.StandsFor v := by
  unfold encodeMember at h
  split at h
  next =>
    split at h
    next changeable content _ =>
      obtain rfl := Except.ok.inj h
      exact .bytes changeable content
    next => exact .value (blaming_eq_ok.mp h)
  next => cases h

theorem encodeElement_null (d : Definition) :
    d.encodeElement .null = .error (d.refusal .required) := by
  unfold encodeElement
  cases d.tag? with
  | none => rfl
  | some t => cases t <;> rfl

/-- What is written for an element, by the type of the field. -/
theorem encodeElement_eq (hv : v ≠ .null) : d.encodeElement v =
    match d.tag? with
    | some .list =>
      match v.toStorable with
      | .ok v => d.blaming (Attr.ofStorable v)
      | .error why => .error (.unstorable why)
    | some t =>
      match t.member? with
      | some t => d.encodeMember t v
      | none => d.encode v
    | none => d.encode v := by
  unfold encodeElement
  cases d.tag? with
  | none => rfl
  | some t => cases t <;> cases v <;> first | rfl | exact absurd rfl hv

/-- An item of a list is written as the value that it is. -/
theorem encodeElement_list_eq_ok (ht : d.tag? = some .list) (hv : v ≠ .null) :
    d.encodeElement v = .ok a ↔ Attr.ofValue v = .ok a := by
  rw [encodeElement_eq hv, ht, Attr.ofValue_eq_ok]
  cases v.toStorable with
  | ok u => simp [blaming_eq_ok]
  | error why => simp

theorem exists_standsFor_of_encodeElement (h : d.encodeElement v = .ok a) :
    ∃ w, d.heldElement v = .ok w ∧ a.StandsFor w := by
  have hv : v ≠ .null := by
    rintro rfl
    rw [encodeElement_null] at h
    cases h
  unfold heldElement
  cases ht : d.tag? with
  | none =>
    rw [encodeElement_eq hv, ht] at h
    exact exists_standsFor_of_encode h
  | some t =>
    by_cases hlist : t = .list
    · subst hlist
      exact ⟨v, rfl, .value ((encodeElement_list_eq_ok ht hv).mp h)⟩
    · rw [encodeElement_eq hv, ht] at h
      cases t with
      | list => exact absurd rfl hlist
      | texts | numbers | byteSets => exact ⟨v, rfl, standsFor_of_encodeMember h⟩
      | _ => exact exists_standsFor_of_encode h

end Definition

end DocTable
