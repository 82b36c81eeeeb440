import DocTable.Field.Codec
import DocTable.Proofs.Json.Restored
import DocTable.Proofs.Stored.RoundTrip
import DocTable.Schema.Records

/-! The values of one field: what is written for them is read as equal values again. A converter
stands at both ends; between its two functions is a value of the declared type, or the text of a
tree. What the second function is given is not quite what the first one gave: sets and byte strings
come back in one form, and of a text the entries of maps in order, with halves of pairs joined. -/

namespace DocTable

open Outcome

/-! ## Domains -/

theorem Value.set_same_self {α : Type} {f : α → Value} {as : List α} (frozen : Bool)
    (h : ∀ a, (f a).same (f a) = true) :
    (Value.set frozen (as.map f)).same (.set frozen (as.map f)) = true := by
  rw [same, Bool.and_eq_true, beq_iff_eq, allIn_iff]
  refine ⟨rfl, List.forall_mem_map.mpr fun a ha => ⟨f a, List.mem_map_of_mem ha, h a⟩⟩

namespace Attr.Leaf

variable {v : Value}

theorem simple (h : Leaf v) : v.Simple := by
  cases h with
  | null => trivial
  | atom h => cases h <;> trivial

theorem same_self (h : Leaf v) : v.same v = true := by
  cases h with
  | null => simp [Value.same, Value.sameAtom]
  | atom h =>
    cases h with
    | texts frozen h | numbers frozen h hn | byteSets frozen h =>
      exact Value.set_same_self frozen fun _ => by simp [Value.same, Value.sameAtom]
    | _ => simp [Value.same, Value.sameAtom]

end Attr.Leaf

/-- The values of a type: lists and maps are trees over values of any kind that the store knows. -/
inductive Tag.Holds : Tag → Value → Prop where
  | atom {t : Tag} {v : Value} (h : t.Atom v) : Holds t v
  | list {items : List Value} (h : ∀ v ∈ items, Value.Tree Attr.Leaf v) : Holds .list (.list items)
  | map {entries : Entries} (names : Entries.Named entries)
      (h : ∀ e ∈ entries, Value.Tree Attr.Leaf e.2) : Holds .map (.map entries)

namespace Tag.Holds

variable {t : Tag} {v : Value}

theorem tree (h : t.Holds v) : Value.Tree Attr.Leaf v := by
  cases h with
  | atom h => exact .leaf (.atom h)
  | list h => exact .list h
  | map names h => exact .map names h

theorem accepts (h : t.Holds v) : t.accepts v = true := by
  cases h with
  | atom h => cases h <;> simp [Tag.accepts, allMembers, Value.isText, isNumber, isBytes]
  | list | map => rfl

end Tag.Holds

namespace Definition

/-- The values that a field takes from its converter, or from the application if it has none. -/
def Takes (d : Definition) (v : Value) : Prop :=
  if d.json then Value.Tree Json.Leaf v ∧ v ≠ .null else ∃ t, d.tag? = some t ∧ t.Holds v

/-- The values that a field keeps. Those of a field with a converter are stored as values that the
field takes, and would be loaded from these. -/
def Keeps (d : Definition) (v : Value) : Prop :=
  match d.converter with
  | none => d.Takes v
  | some c => ∃ w v', c.store v = .ok w ∧ w.isAbsent = false ∧ d.Takes w ∧ c.load w = .ok v' ∧
      v'.same v = true

/-- Whether the second value comes back for the first, which the field holds: what is read of the
text of a tree, or the value with unchangeable byte strings and changeable sets. -/
def Restored (d : Definition) (w w' : Value) : Prop :=
  if d.json then ∃ j, Json.ofValue w = .ok j ∧ w' = j.joined.toValue else w' = w.restored

/-- Whether a field gives a value back: what comes back for it is equal, or loaded as an equal
one. -/
def GivesBack (d : Definition) (v : Value) : Prop :=
  match d.converter with
  | none => ∃ v', d.Restored v v' ∧ v'.same v = true
  | some c => ∃ w w' v', c.store v = .ok w ∧ d.Restored w w' ∧ c.load w' = .ok v' ∧
      v'.same v = true

variable {d : Definition} {v w : Value}

theorem Takes.of_holds {t : Tag} (hjson : d.json = false) (ht : d.tag? = some t)
    (h : t.Holds v) : d.Takes v := by
  rw [Takes, hjson, if_neg Bool.false_ne_true]
  exact ⟨t, ht, h⟩

theorem Takes.of_tree (hjson : d.json = true) (h : Value.Tree Json.Leaf v) (hne : v ≠ .null) :
    d.Takes v := by
  rw [Takes, hjson, if_pos rfl]
  exact ⟨h, hne⟩

theorem restored_of_json (hjson : d.json = true) {j : Json} (hj : Json.ofValue w = .ok j) :
    d.Restored w j.joined.toValue := by
  rw [Restored, if_pos hjson]
  exact ⟨j, hj, rfl⟩

theorem restored_of_plain (hjson : d.json = false) : d.Restored w w.restored := by
  rw [Restored, if_neg (by simp [hjson])]

theorem Restored.unique {w' w'' : Value} (h : d.Restored w w') (h' : d.Restored w w'') :
    w' = w'' := by
  unfold Restored at h h'
  split at h
  next hjson =>
    rw [if_pos hjson] at h'
    obtain ⟨j, hj, rfl⟩ := h
    obtain ⟨j', hj', rfl⟩ := h'
    obtain rfl := Except.ok.inj (hj.symm.trans hj')
    rfl
  next hjson =>
    rw [if_neg hjson] at h'
    exact h.trans h'.symm

theorem Restored.ne_null {w' : Value} (h : d.Restored w w') (hw : w ≠ .null) : w' ≠ .null := by
  unfold Restored at h
  split at h
  next =>
    obtain ⟨j, hj, rfl⟩ := h
    cases j with
    | null => exact fun _ => hw (Json.eq_null_of_ofValue hj)
    | _ => exact nofun
  next =>
    subst h
    cases w with
    | null => exact absurd rfl hw
    | _ => exact nofun

theorem keeps_iff_takes (hconverter : d.converter = none) : d.Keeps v ↔ d.Takes v := by
  rw [Keeps, hconverter]

/-! ## Writing and reading without converters -/

/-- What is written for a value that the field accepts. -/
def encodeChecked (d : Definition) (w : Value) : Outcome Attr :=
  match d.tag?, w with
  | some .bytes, .bytes _ content => .ok (.bytes false content)
  | _, w => d.blaming (Attr.ofValue w)

/-- What is written for the value that a converter gives. -/
def encodeHeld (d : Definition) (w : Value) : Outcome Attr :=
  (if d.json then jsonText w else .ok w) >>= fun w => d.checked w >>= fun _ => d.encodeChecked w

/-- What a converter is given when an attribute value is read. -/
def decodeHeld (d : Definition) (stored : Value) : Outcome Value :=
  stored.ofAttribute >>= fun v =>
    match d.json, v with
    | true, .text s => (Json.parse s.mended).map Json.toValue
    | _, v => .ok v

theorem encode_eq (hv : v ≠ .null) : d.encode v =
    ((match d.converter with
      | some c => c.store v
      | none => .ok v) >>= d.encodeHeld) := by
  have hencode : d.encode v =
      d.heldValue v >>= fun w => d.checked w >>= fun _ => d.encodeChecked w := by
    cases v <;> first | exact absurd rfl hv | rfl
  rw [hencode, heldValue]
  cases d.converter with
  | none => rfl
  | some c => exact bind_assoc _ _ _

theorem decode_eq (d : Definition) (stored : Value) : d.decode stored =
    (d.decodeHeld stored >>= fun v =>
      match d.converter, v with
      | none, v => .ok v
      | some _, .null => .ok .null
      | some c, v => c.load v) := by
  unfold decode decodeHeld
  refine Eq.trans (bind_congr fun v => ?_) (bind_assoc _ _ _).symm
  cases d.json <;> cases v <;> rfl

theorem ofAttribute_toValue (a : Attr) :
    a.toValue.ofAttribute = Value.ofStored a.toValue >>= Value.simplified := by
  cases a <;> rfl

theorem checked_of_holds {t : Tag} (ht : d.tag? = some t) (h : t.Holds w)
    (hw : w.isAbsent = false) : d.checked w = .ok t := by
  have hset : (t.isSet && !w.truthy) = false := by
    cases h with
    | atom h =>
      cases h with
      | texts | numbers | byteSets =>
        rw [Value.isAbsent] at hw
        rw [Value.truthy, hw]
        rfl
      | _ => rfl
    | list | map => rfl
  rw [checked, ht]
  dsimp only
  rw [if_pos h.accepts, hset]
  rfl

/-- What is written of a value of the declared type comes back. -/
theorem exists_encodeHeld_of_holds {t : Tag} (hjson : d.json = false) (ht : d.tag? = some t)
    (h : t.Holds w) (hw : w.isAbsent = false) :
    ∃ a, d.encodeHeld w = .ok a ∧ d.decodeHeld a.toValue = .ok w.restored := by
  have hencode : d.encodeHeld w = d.encodeChecked w := by
    rw [encodeHeld, hjson, if_neg Bool.false_ne_true]
    show (d.checked w >>= fun _ => _) = _
    rw [checked_of_holds ht h hw]
    rfl
  have hdecode : ∀ {a : Attr} {m w' : Value}, Value.ofStored a.toValue = .ok m →
      m.simplified = .ok w' → d.decodeHeld a.toValue = .ok w' := by
    intro a m w' hread hsimplified
    rw [decodeHeld, ofAttribute_toValue, hread, hjson]
    show (m.simplified >>= fun v => _) = _
    rw [hsimplified]
    rfl
  rw [hencode]
  unfold encodeChecked
  split
  next changeable content _ =>
    -- a byte string is not written as it is, but as unchangeable
    have hread :
        Value.ofStored (Attr.bytes false content).toValue = .ok (.bytes false content) := by
      rw [Attr.toValue, Value.ofStored_single]
      rfl
    exact ⟨_, rfl, hdecode hread rfl⟩
  next =>
    obtain ⟨u, a, m, hu, ha, hm, hw'⟩ := h.tree.returns_restored
    refine ⟨a, ?_, hdecode hm hw'⟩
    rw [Attr.ofValue, hu]
    show d.blaming (Attr.ofStorable u) = _
    rw [ha]
    rfl

/-- A JSON field holds the text of a tree. -/
theorem encodeHeld_of_json (hjson : d.json = true) (h : Value.Tree Json.Leaf w) {j : Json}
    (hj : Json.ofValue w = .ok j) : d.encodeHeld w = .ok (.text (j.render .ascii)) := by
  have htext : jsonText w = .ok (.text (j.render .ascii)) := by
    rw [jsonText, Json.simplified_of_tree h]
    show (Json.ofValue w >>= fun j => Except.ok (Value.text (j.render .ascii))) = _
    rw [hj]
    rfl
  have htag : d.tag? = some .text := by
    rw [tag?, heldType, hjson]
    rfl
  have hchecked : d.checked (.text (j.render .ascii)) = .ok .text :=
    checked_of_holds htag (.atom (.text _)) rfl
  rw [encodeHeld, hjson, if_pos rfl, htext]
  show (d.checked (.text (j.render .ascii)) >>= fun _ => _) = _
  rw [hchecked]
  show d.encodeChecked (.text (j.render .ascii)) = _
  rw [encodeChecked]
  · rfl
  · exact fun _ _ _ => nofun

theorem exists_encodeHeld_of_json (hjson : d.json = true) (h : Value.Tree Json.Leaf w) :
    ∃ a j, d.encodeHeld w = .ok a ∧ Json.ofValue w = .ok j ∧
      d.decodeHeld a.toValue = .ok j.joined.toValue := by
  obtain ⟨j, hj, hreadable, -⟩ := Json.exists_ofValue h
  refine ⟨.text (j.render .ascii), j, encodeHeld_of_json hjson h hj, hj, ?_⟩
  have hread : Value.ofStored (Attr.text (j.render .ascii)).toValue =
      .ok (.text (j.render .ascii)) := by
    rw [Attr.toValue, Value.ofStored_single]
  rw [decodeHeld, ofAttribute_toValue, hread, hjson]
  show (Json.parse (j.render .ascii)).map Json.toValue = _
  rw [Json.parse_render hreadable .ascii (Json.allows_none _)]
  rfl

theorem exists_encodeHeld (h : d.Takes w) (hw : w.isAbsent = false) :
    ∃ a w', d.encodeHeld w = .ok a ∧ d.decodeHeld a.toValue = .ok w' ∧ d.Restored w w' := by
  unfold Takes at h
  split at h
  next hjson =>
    obtain ⟨a, j, hencode, hj, hdecode⟩ := exists_encodeHeld_of_json hjson h.1
    exact ⟨a, _, hencode, hdecode, restored_of_json hjson hj⟩
  next hjson =>
    obtain ⟨t, ht, h⟩ := h
    have hjson := Bool.eq_false_iff.mpr hjson
    obtain ⟨a, hencode, hdecode⟩ := exists_encodeHeld_of_holds hjson ht h hw
    exact ⟨a, _, hencode, hdecode, restored_of_plain hjson⟩

/-! ## There and back -/

/-- A field without a converter gives back the values that it takes, but for texts with pairs in
the JSON format. -/
theorem givesBack_iff (hconverter : d.converter = none) (h : d.Takes v) :
    d.GivesBack v ↔ (d.json = true → v.Unpaired) := by
  unfold GivesBack
  rw [hconverter]
  unfold Takes at h
  unfold Restored
  split at h
  next hjson =>
    obtain ⟨j, hj, -⟩ := Json.exists_ofValue h.1
    simp only [if_pos hjson]
    rw [imp_iff_right hjson, ← Json.joined_same_iff h.1 hj]
    constructor
    · rintro ⟨v', ⟨j', hj', rfl⟩, hsame⟩
      obtain rfl := Except.ok.inj (hj.symm.trans hj')
      exact hsame
    · exact fun hsame => ⟨_, ⟨j, hj, rfl⟩, hsame⟩
  next hjson =>
    obtain ⟨t, -, h⟩ := h
    simp only [if_neg hjson]
    refine iff_of_true ⟨_, rfl, ?_⟩ fun hjson' => absurd hjson' hjson
    exact h.tree.same_of_restores (fun _ => Attr.Leaf.simple) (fun _ => Attr.Leaf.same_self)
      (fun _ _ => .of_eq) (h.tree.restores_restored fun _ => Attr.Leaf.simple)

/-- With a converter, it does so where what it holds comes back as it is. -/
theorem givesBack_of_restored {c : Converter} (hconverter : d.converter = some c) (h : d.Keeps v)
    (hrestored : ∀ w, c.store v = .ok w → d.Restored w w) : d.GivesBack v := by
  unfold Keeps at h
  unfold GivesBack
  rw [hconverter] at h ⊢
  obtain ⟨w, v', hstore, -, -, hload, hsame⟩ := h
  exact ⟨w, w, v', hstore, hrestored w hstore, hload, hsame⟩

/-- **A field** writes what it keeps, and reads it again if it gives it back. -/
theorem exists_encode (h : d.Keeps v) (hv : v.isAbsent = false) :
    ∃ a, d.encode v = .ok a ∧
      ((∃ v', d.decode a.toValue = .ok v' ∧ v'.same v = true) ↔ d.GivesBack v) := by
  have hne : v ≠ .null := by
    rintro rfl
    cases hv
  unfold Keeps at h
  unfold GivesBack
  split at h
  next hconverter =>
    obtain ⟨a, v', hencode, hdecode, hrestored⟩ := exists_encodeHeld h hv
    refine ⟨a, ?_, ?_⟩
    · rw [encode_eq hne, hconverter]
      exact hencode
    · rw [decode_eq, hdecode, hconverter]
      constructor
      · rintro ⟨v'', hv'', hsame⟩
        obtain rfl := Except.ok.inj hv''
        exact ⟨v', hrestored, hsame⟩
      · rintro ⟨v'', hrestored', hsame⟩
        obtain rfl := hrestored.unique hrestored'
        exact ⟨v', rfl, hsame⟩
  next c hconverter =>
    obtain ⟨w, -, hstore, hw, htakes, -, -⟩ := h
    obtain ⟨a, w', hencode, hdecode, hrestored⟩ := exists_encodeHeld htakes hw
    have hne' : w' ≠ .null := hrestored.ne_null fun hnull => by
      rw [hnull] at hw
      cases hw
    have hload : d.decode a.toValue = c.load w' := by
      rw [decode_eq, hdecode, hconverter]
      cases w' <;> first | exact absurd rfl hne' | rfl
    refine ⟨a, ?_, ?_⟩
    · rw [encode_eq hne, hconverter]
      show c.store v >>= d.encodeHeld = _
      rw [hstore]
      exact hencode
    · rw [hload]
      constructor
      · rintro ⟨v', hv', hsame⟩
        exact ⟨w, w', v', hstore, hrestored, hv', hsame⟩
      · rintro ⟨w₁, w₂, v', hstore', hrestored', hv', hsame⟩
        obtain rfl := Except.ok.inj (hstore.symm.trans hstore')
        obtain rfl := hrestored.unique hrestored'
        exact ⟨v', hv', hsame⟩

end Definition

end DocTable
