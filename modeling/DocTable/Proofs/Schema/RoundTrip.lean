import DocTable.Proofs.Field.RoundTrip
import DocTable.Proofs.Schema.Layout

/-! Whole records: an item is written for the fields that have a value, and reading it gives the
record without the others, if each field gives back its value. Since the fields are held by
attributes of distinct names, what is written for one field does not get in the way of another. -/

namespace DocTable.Schema

open Entries Outcome

/-- The records that a schema keeps, by their fields: each field has a value that it keeps, or no
value, or an empty set in place of one. -/
structure Keeps (s : Schema) (values : List (Spelling × Value)) : Prop where
  names : (values.map (·.1)).Nodup
  fields : ∀ e ∈ values, ∃ d, s.fields.find? e.1 = some d ∧ (e.2.isAbsent = false → d.Keeps e.2)

/-- The record with some fields. -/
def recordOf (values : List (Spelling × Value)) : Value :=
  .map (keyed values)

/-- The fields of a record that have a value. -/
def present (values : List (Spelling × Value)) : List (Spelling × Value) :=
  values.filter fun e => !e.2.isAbsent

variable {s : Schema} {values : List (Spelling × Value)}

/-- What is written for a field. -/
def Written (s : Schema) (e : Spelling × Value) (r : Spelling × Attr) : Prop :=
  ∃ d, s.fields.find? e.1 = some d ∧ d.storedName = r.1 ∧ d.encode e.2 = .ok r.2

/-- Whether what is written for a field is read as an equal value. -/
def Returned (s : Schema) (e : Spelling × Value) : Prop :=
  ∀ d a, s.fields.find? e.1 = some d → d.encode e.2 = .ok a →
    ∃ v', d.decode a.toValue = .ok v' ∧ v'.same e.2 = true

theorem Keeps.of_present (h : s.Keeps values) {e : Spelling × Value} (he : e ∈ present values)
    {d : Definition} (hd : s.fields.find? e.1 = some d) : d.Keeps e.2 := by
  obtain ⟨hmem, habsent⟩ := List.mem_filter.mp he
  obtain ⟨d', hd', hkeeps⟩ := h.fields e hmem
  obtain rfl := Option.some.inj (hd.symm.trans hd')
  exact hkeeps (by simpa using habsent)

theorem Keeps.returned_iff (h : s.Keeps values) {e : Spelling × Value} (he : e ∈ present values) :
    s.Returned e ↔ ∀ d, s.fields.find? e.1 = some d → d.GivesBack e.2 := by
  obtain ⟨hmem, habsent⟩ := List.mem_filter.mp he
  obtain ⟨d, hd, hkeeps⟩ := h.fields e hmem
  have hthere : e.2.isAbsent = false := by simpa using habsent
  obtain ⟨a, ha, hiff⟩ := d.exists_encode (hkeeps hthere) hthere
  constructor
  · intro hreturned d' hd'
    obtain rfl := Option.some.inj (hd.symm.trans hd')
    exact hiff.mp (hreturned d a hd ha)
  · intro hback d' a' hd' ha'
    obtain rfl := Option.some.inj (hd.symm.trans hd')
    obtain rfl := Except.ok.inj (ha.symm.trans ha')
    exact hiff.mpr (hback d hd)

/-- Fields that are held under one name are the same. -/
theorem Sound.eq_of_storedName (hs : s.Sound) {f f' : Spelling × Definition} (hf : f ∈ s.fields)
    (hf' : f' ∈ s.fields) (h : f.2.storedName = f'.2.storedName) : f = f' :=
  List.inj_on_of_nodup_map hs.storedNames hf hf' h

/-! ## Writing -/

theorem foldlM_writeField (hs : s.Sound) (hvalues : s.Keeps values) {item : Item}
    (hnew : ∀ e ∈ values, ∀ d, s.fields.find? e.1 = some d → ∀ r ∈ item, r.1 ≠ d.storedName) :
    ∃ written, values.foldlM (fun item (name, v) => s.writeField item name v) item =
        .ok (item ++ written) ∧
      List.Forall₂ s.Written (present values) written := by
  induction values generalizing item with
  | nil => exact ⟨[], congrArg _ (List.append_nil item).symm, .nil⟩
  | cons e values ih =>
    obtain ⟨hname, hnames⟩ := List.nodup_cons.mp hvalues.names
    obtain ⟨⟨d, hd, hkeeps⟩, hfields⟩ := List.forall_mem_cons.mp hvalues.fields
    have hrest : s.Keeps values := ⟨hnames, hfields⟩
    have hfield : s.field e.1 = .ok d := by
      rw [field, hd]
    cases habsent : e.2.isAbsent with
    | true =>
      have hwrite : s.writeField item e.1 e.2 = .ok item := by
        rw [writeField, hfield]
        exact if_pos habsent
      obtain ⟨written, hfold, hwritten⟩ := ih hrest (List.forall_mem_cons.mp hnew).2
      refine ⟨written, ?_, ?_⟩
      · rw [List.foldlM_cons]
        show (s.writeField item e.1 e.2 >>= _) = _
        rw [hwrite]
        exact hfold
      · rw [present, List.filter_cons_of_neg (by simp [habsent])]
        exact hwritten
    | false =>
      obtain ⟨a, hencode, -⟩ := d.exists_encode (hkeeps habsent) habsent
      have hput : item.put d.storedName a = item ++ [(d.storedName, a)] :=
        OrderedMap.put_of_new fun r hr =>
          beq_false_of_ne (hnew e List.mem_cons_self d hd r hr)
      have hwrite : s.writeField item e.1 e.2 = .ok (item ++ [(d.storedName, a)]) := by
        rw [writeField, hfield]
        show (if e.2.isAbsent = true then _ else _) = _
        rw [habsent, if_neg Bool.false_ne_true, hencode, ← hput]
        rfl
      have hnew' : ∀ e' ∈ values, ∀ d', s.fields.find? e'.1 = some d' →
          ∀ r ∈ item ++ [(d.storedName, a)], r.1 ≠ d'.storedName := by
        intro e' he' d' hd' r hr
        rcases List.mem_append.mp hr with hr | hr
        · exact hnew e' (List.mem_cons_of_mem _ he') d' hd' r hr
        · rw [List.mem_singleton.mp hr]
          intro heq
          have hsame := hs.eq_of_storedName (OrderedMap.mem_of_find? hd)
            (OrderedMap.mem_of_find? hd') heq
          exact hname (List.mem_map.mpr ⟨e', he', (congrArg Prod.fst hsame).symm⟩)
      obtain ⟨written, hfold, hwritten⟩ := ih hrest hnew'
      refine ⟨(d.storedName, a) :: written, ?_, ?_⟩
      · rw [List.foldlM_cons, List.append_cons]
        show (s.writeField item e.1 e.2 >>= _) = _
        rw [hwrite]
        exact hfold
      · rw [present, List.filter_cons_of_pos (by simp [habsent])]
        exact .cons ⟨d, hd, rfl, hencode⟩ hwritten

/-- A record that a schema keeps is written, each field with a value under the name that holds
it. -/
theorem exists_encode (hs : s.Sound) (hvalues : s.Keeps values) :
    ∃ item, s.encode (recordOf values) = .ok item ∧
      List.Forall₂ s.Written (present values) item := by
  have hnew : ∀ e ∈ values, ∀ d, s.fields.find? e.1 = some d → ∀ r ∈ ([] : Item),
      r.1 ≠ d.storedName := fun _ _ _ _ _ h => absurd h List.not_mem_nil
  obtain ⟨item, hfold, hwritten⟩ := foldlM_writeField hs hvalues hnew
  refine ⟨item, ?_, hwritten⟩
  have hencode : s.encode (recordOf values) =
      values.foldlM (fun item (name, v) => s.writeField item name v) [] :=
    List.foldlM_map
  exact hencode.trans hfold

/-! ## Reading -/

theorem find?_toEntries (item : Item) (name : Spelling) :
    OrderedMap.find? (Attr.toEntries item) (.text name) =
      (OrderedMap.find? item name).map Attr.toValue := by
  induction item with
  | nil => rfl
  | cons r item ih =>
    rw [Attr.toEntries, OrderedMap.find?, OrderedMap.find?, Value.text_beq_text, ih]
    split <;> rfl

theorem hasName_toValue (item : Item) (name : Spelling) :
    item.toValue.hasName name = .ok (OrderedMap.find? item name).isSome := by
  rw [Item.toValue, Value.hasName, OrderedMap.has, find?_toEntries, Option.isSome_map]

theorem atName_toValue {item : Item} {name : Spelling} {a : Attr}
    (h : OrderedMap.find? item name = some a) : item.toValue.atName name = .ok a.toValue := by
  rw [Item.toValue, Value.atName, find?_toEntries, h]
  rfl

/-- Whether a field of a record is read from an item. -/
def Reads (item : Item) (f : Spelling × Definition) (e : Spelling × Value) : Prop :=
  ∃ a, f.1 = e.1 ∧ OrderedMap.find? item f.2.storedName = some a ∧
    f.2.decode a.toValue = .ok e.2

theorem readFields_of_none {item : Item} {f : Spelling × Definition}
    (h : OrderedMap.find? item f.2.storedName = none) (fields : List (Spelling × Definition)) :
    readFields item.toValue (f :: fields) = readFields item.toValue fields := by
  rw [readFields, hasName_toValue, h]
  rfl

theorem readFields_of_some {item : Item} {f : Spelling × Definition} {a : Attr}
    (h : OrderedMap.find? item f.2.storedName = some a) (fields : List (Spelling × Definition)) :
    readFields item.toValue (f :: fields) = f.2.decode a.toValue >>= fun v =>
      readFields item.toValue fields >>= fun read => .ok ((f.1, v) :: read) := by
  rw [readFields, hasName_toValue, h]
  show (item.toValue.atName f.2.storedName >>= fun stored => f.2.decode stored >>= _) = _
  rw [atName_toValue h]
  rfl

/-- What is read of an item: the fields that it has attributes for, in the order of the schema. -/
theorem mem_readFields_iff {item : Item} {fields : List (Spelling × Definition)}
    {read : List (Spelling × Value)} (h : readFields item.toValue fields = .ok read) :
    (read.map (·.1)).Sublist (fields.map (·.1)) ∧
      ∀ e, e ∈ read ↔ ∃ f ∈ fields, Reads item f e := by
  induction fields generalizing read with
  | nil =>
    obtain rfl := Except.ok.inj h
    exact ⟨.slnil, fun e => by simp⟩
  | cons f fields ih =>
    have hcons : ∀ e, (∃ f' ∈ f :: fields, Reads item f' e) ↔
        Reads item f e ∨ ∃ f' ∈ fields, Reads item f' e := by simp
    cases hfind : OrderedMap.find? item f.2.storedName with
    | none =>
      rw [readFields_of_none hfind] at h
      obtain ⟨hsub, hmem⟩ := ih h
      refine ⟨hsub.cons _, fun e => ?_⟩
      have hnot : ¬Reads item f e := by
        rintro ⟨a, -, ha, -⟩
        cases hfind.symm.trans ha
      rw [hcons, or_iff_right hnot, hmem]
    | some a =>
      rw [readFields_of_some hfind] at h
      obtain ⟨v, hv, h⟩ := bind_eq_ok.mp h
      obtain ⟨rest, hrest, h⟩ := bind_eq_ok.mp h
      obtain rfl := Except.ok.inj h
      obtain ⟨hsub, hmem⟩ := ih hrest
      refine ⟨hsub.cons_cons _, fun e => ?_⟩
      have hread : Reads item f e ↔ e = (f.1, v) := by
        simp only [Reads, hfind, Option.some.injEq, exists_and_left, exists_eq_left', hv,
          Except.ok.injEq, Prod.ext_iff, eq_comm]
      rw [hcons, List.mem_cons, hread, hmem]

/-- Reading an item succeeds if reading each of its attributes does. -/
theorem exists_readFields_iff {item : Item} {fields : List (Spelling × Definition)} :
    (∃ read, readFields item.toValue fields = .ok read) ↔
      ∀ f ∈ fields, ∀ a, OrderedMap.find? item f.2.storedName = some a →
        ∃ v, f.2.decode a.toValue = .ok v := by
  induction fields with
  | nil => exact iff_of_true ⟨[], rfl⟩ (List.forall_mem_nil _)
  | cons f fields ih =>
    rw [List.forall_mem_cons, ← ih]
    cases hfind : OrderedMap.find? item f.2.storedName with
    | none => simp [readFields_of_none hfind]
    | some a =>
      simp only [readFields_of_some hfind, Option.some.injEq, forall_eq', bind_eq_ok]
      constructor
      · rintro ⟨_, v, hv, read, hread, -⟩
        exact ⟨⟨v, hv⟩, read, hread⟩
      · rintro ⟨⟨v, hv⟩, read, hread⟩
        exact ⟨_, v, hv, read, hread, rfl⟩

/-! ## There and back -/

section

variable {item : Item}

/-- What is found in an item under the name of a field was written for that field. -/
theorem exists_written_of_find? (hs : s.Sound)
    (hwritten : List.Forall₂ s.Written (present values) item) {f : Spelling × Definition}
    (hf : f ∈ s.fields) {a : Attr} (ha : OrderedMap.find? item f.2.storedName = some a) :
    ∃ e ∈ present values, e.1 = f.1 ∧ f.2.encode e.2 = .ok a := by
  obtain ⟨e, he, d, hd, hname, hencode⟩ :=
    exists_of_mem_forall₂ hwritten (OrderedMap.mem_of_find? ha)
  obtain rfl : (e.1, d) = f := hs.eq_of_storedName (OrderedMap.mem_of_find? hd) hf hname
  exact ⟨e, he, rfl, hencode⟩

theorem nodup_keys_of_written (hs : s.Sound)
    (hwritten : List.Forall₂ s.Written (present values) item)
    (hnames : ((present values).map (·.1)).Nodup) : item.keys.Nodup := by
  generalize present values = fields at hwritten hnames
  induction hwritten with
  | nil => exact .nil
  | @cons e r fields item hr hrest ih =>
    obtain ⟨hname, hnames⟩ := List.nodup_cons.mp hnames
    refine List.nodup_cons.mpr ⟨fun hmem => hname ?_, ih hnames⟩
    obtain ⟨r', hr', heq⟩ := List.mem_map.mp hmem
    obtain ⟨e', he', d', hd', hstored', -⟩ := exists_of_mem_forall₂ hrest hr'
    obtain ⟨d, hd, hstored, -⟩ := hr
    have hfields := hs.eq_of_storedName (OrderedMap.mem_of_find? hd') (OrderedMap.mem_of_find? hd)
      (hstored'.trans (heq.trans hstored.symm))
    exact List.mem_map.mpr ⟨e', he', (Prod.mk.inj hfields).1⟩

/-- What was written for a field is found under the name that holds it. -/
theorem find?_of_written (hs : s.Sound) (hwritten : List.Forall₂ s.Written (present values) item)
    (hnames : ((present values).map (·.1)).Nodup) {e : Spelling × Value} (he : e ∈ present values)
    {d : Definition} (hd : s.fields.find? e.1 = some d) {a : Attr} (ha : d.encode e.2 = .ok a) :
    OrderedMap.find? item d.storedName = some a := by
  obtain ⟨r, hr, d', hd', hstored, ha'⟩ := exists_of_mem_forall₂ hwritten.flip he
  obtain rfl := Option.some.inj (hd.symm.trans hd')
  obtain rfl := Except.ok.inj (ha.symm.trans ha')
  exact OrderedMap.find?_of_mem
    (OrderedMap.distinct_iff_nodup.mpr (nodup_keys_of_written hs hwritten hnames))
    (beq_self_eq_true _) (hstored ▸ hr)

theorem exists_decode (hs : s.Sound) (hvalues : s.Keeps values)
    (hwritten : List.Forall₂ s.Written (present values) item)
    (hreturned : ∀ e ∈ present values, s.Returned e) :
    ∃ record, s.decode item.toValue = .ok (some record) ∧
      record.same (recordOf (present values)) = true := by
  have hnames : ((present values).map (·.1)).Nodup :=
    hvalues.names.sublist (List.filter_sublist.map _)
  -- what is found for a field is read as the value that it was written for
  have hback : ∀ f ∈ s.fields, ∀ a, OrderedMap.find? item f.2.storedName = some a →
      ∃ e ∈ present values, e.1 = f.1 ∧
        ∃ v', f.2.decode a.toValue = .ok v' ∧ v'.same e.2 = true := by
    intro f hf a ha
    obtain ⟨e, he, hname, hencode⟩ := exists_written_of_find? hs hwritten hf ha
    have hd : s.fields.find? e.1 = some f.2 := by
      rw [hname]
      exact OrderedMap.find?_of_mem (OrderedMap.distinct_iff_nodup.mpr hs.names)
        (beq_self_eq_true _) hf
    exact ⟨e, he, hname, hreturned e he f.2 a hd hencode⟩
  obtain ⟨read, hread⟩ := exists_readFields_iff.mpr fun f hf a ha => by
    obtain ⟨e, -, -, v', hdecode, -⟩ := hback f hf a ha
    exact ⟨v', hdecode⟩
  obtain ⟨hsub, hmem⟩ := mem_readFields_iff hread
  have hreadNames : (read.map (·.1)).Nodup := hs.names.sublist hsub
  have hsame : ∀ r ∈ read, ∃ e ∈ present values, e.1 = r.1 ∧ r.2.same e.2 = true := by
    intro r hr
    obtain ⟨f, hf, a, hname, ha, hdecode⟩ := (hmem r).mp hr
    obtain ⟨e, he, heq, v', hdecode', hsame⟩ := hback f hf a ha
    obtain rfl := Except.ok.inj (hdecode'.symm.trans hdecode)
    exact ⟨e, he, heq.trans hname, hsame⟩
  have hperm : (read.map (·.1)).Perm ((present values).map (·.1)) := by
    refine (List.perm_ext_iff_of_nodup hreadNames hnames).mpr fun name => ⟨fun h => ?_, fun h => ?_⟩
    · obtain ⟨r, hr, rfl⟩ := List.mem_map.mp h
      obtain ⟨e, he, heq, -⟩ := hsame r hr
      exact heq ▸ List.mem_map_of_mem he
    · obtain ⟨e, he, rfl⟩ := List.mem_map.mp h
      obtain ⟨r, hr, d, hd, hstored, hencode⟩ := exists_of_mem_forall₂ hwritten.flip he
      obtain ⟨v', hdecode, -⟩ := hreturned e he d r.2 hd hencode
      refine List.mem_map.mpr ⟨(e.1, v'), (hmem _).mpr ⟨(e.1, d), OrderedMap.mem_of_find? hd, ?_⟩,
        rfl⟩
      exact ⟨r.2, rfl, find?_of_written hs hwritten hnames he hd hencode, hdecode⟩
  refine ⟨recordOf read, ?_, ?_⟩
  · show (readFields item.toValue s.fields >>= _) = _
    rw [hread]
    rfl
  · refine (Value.map_same_iff (named_keyed.mpr hreadNames) (named_keyed.mpr hnames)).mpr
      ⟨by simpa [keyed] using hperm.length_eq, ?_⟩
    refine List.forall_mem_map.mpr fun r hr => ?_
    obtain ⟨e, he, heq, hsame⟩ := hsame r hr
    exact ⟨_, List.mem_map_of_mem he, congrArg Value.text heq, hsame⟩

/-- A record that comes back equal has had each of its values read as an equal one. -/
theorem returned_of_decode (hs : s.Sound) (hvalues : s.Keeps values)
    (hwritten : List.Forall₂ s.Written (present values) item) {record : Value}
    (hdecode : s.decode item.toValue = .ok (some record))
    (hsame : record.same (recordOf (present values)) = true) :
    ∀ e ∈ present values, s.Returned e := by
  intro e he d a hd ha
  have hnames : ((present values).map (·.1)).Nodup :=
    hvalues.names.sublist (List.filter_sublist.map _)
  obtain ⟨read, hread, hrecord⟩ := bind_eq_ok.mp
    (show (readFields item.toValue s.fields >>= _) = .ok (some record) from hdecode)
  obtain rfl : recordOf read = record := Option.some.inj (Except.ok.inj hrecord)
  obtain ⟨hsub, hmem⟩ := mem_readFields_iff hread
  have hfound := find?_of_written hs hwritten hnames he hd ha
  obtain ⟨v', hv'⟩ := exists_readFields_iff.mp ⟨read, hread⟩ _ (OrderedMap.mem_of_find? hd) a hfound
  have hr : (e.1, v') ∈ read :=
    (hmem _).mpr ⟨(e.1, d), OrderedMap.mem_of_find? hd, a, rfl, hfound, hv'⟩
  have hpresent := named_keyed.mpr hnames
  obtain ⟨-, hall⟩ :=
    (Value.map_same_iff (named_keyed.mpr (hs.names.sublist hsub)) hpresent).mp hsame
  obtain ⟨e', he', hkey, hsame⟩ := hall (.text e.1, v') (List.mem_map_of_mem hr)
  have hthere : (Value.text e.1, e.2) ∈ keyed (present values) := List.mem_map_of_mem he
  obtain rfl := hpresent.eq_of_mem he' hthere hkey
  exact ⟨v', hv', hsame⟩

end

/-- **Records come back.** Whatever schema is built, a record that it keeps is written as an item;
what is read of the item is the record without the fields that have no value, exactly if each field
gives back its value. Fields without converters give back all but texts with pairs in the JSON
format; fields with converters give back what is held in a form that comes back as it is. -/
theorem exists_roundTrip (hs : s.Built) (hvalues : s.Keeps values) :
    ∃ item, s.encode (recordOf values) = .ok item ∧
      ((∃ record, s.decode item.toValue = .ok (some record) ∧
          record.same (recordOf (present values)) = true) ↔
        ∀ e ∈ present values, ∀ d, s.fields.find? e.1 = some d → d.GivesBack e.2) ∧
      ∀ e ∈ present values, ∀ d, s.fields.find? e.1 = some d →
        (d.converter = none → (d.GivesBack e.2 ↔ (d.json = true → e.2.Unpaired))) ∧
        ∀ c, d.converter = some c → (∀ w, c.store e.2 = .ok w → d.Restored w w) →
          d.GivesBack e.2 := by
  obtain ⟨item, hencode, hwritten⟩ := exists_encode hs.sound hvalues
  refine ⟨item, hencode, ?_, fun e he d hd => ?_⟩
  rotate_left
  · have hkeeps := hvalues.of_present he hd
    refine ⟨fun hconverter => ?_, fun c hconverter => ?_⟩
    · exact Definition.givesBack_iff hconverter ((Definition.keeps_iff_takes hconverter).mp hkeeps)
    · exact Definition.givesBack_of_restored hconverter hkeeps
  have hiff : (∀ e ∈ present values, s.Returned e) ↔
      ∀ e ∈ present values, ∀ d, s.fields.find? e.1 = some d → d.GivesBack e.2 :=
    forall₂_congr fun e he => hvalues.returned_iff he
  rw [← hiff]
  constructor
  · rintro ⟨record, hdecode, hsame⟩
    exact returned_of_decode hs.sound hvalues hwritten hdecode hsame
  · exact exists_decode hs.sound hvalues hwritten

/-- Profiles of users: a field in the JSON format, one that is stored backwards, and plain ones. -/
def profileFields : OrderedMap Spelling Definition :=
  [("id", { fieldName := "id", storedName := "id", type := "S" }),
    ("tags", { fieldName := "tags", storedName := "t", type := "SS" }),
    ("scores", { fieldName := "scores", storedName := "scores", type := "L" }),
    ("payload", { fieldName := "payload", storedName := "p", type := "S", json := true }),
    ("nick", { fieldName := "nick", storedName := "n", type := "S", converter := some .reversed }),
    ("age", { fieldName := "age", storedName := "age", type := "N" })]

def profile : List (Spelling × Value) :=
  [("payload", .map [(.text "b", .int 1), (.text "a", .null)]), ("age", .null),
    ("nick", .text "neo"), ("scores", .list [.int (-5), .set false ([7, 13].map .int)]),
    ("id", .text "u1"), ("tags", .set true [.text "x", .text "y"])]

/-- The schema of profiles. -/
theorem exists_profiles : ∃ s, define [("id", "HASH")] profileFields none = .ok s ∧ s.Built ∧
    s.fields = profileFields.put "id"
      { fieldName := "id", storedName := "id", type := "S", keyType := some "HASH" } := by
  obtain ⟨s, hs, hfields⟩ : ∃ s, define [("id", "HASH")] profileFields none = .ok s ∧
      s.fields = profileFields.put "id"
        { fieldName := "id", storedName := "id", type := "S", keyType := some "HASH" } :=
    ⟨_, rfl, rfl⟩
  exact ⟨s, hs, .defined (by decide) hs, hfields⟩

theorem exists_roundTrip_profile : ∃ s, define [("id", "HASH")] profileFields none = .ok s ∧
    s.Built ∧ s.Keeps profile ∧ ∃ item record, s.encode (recordOf profile) = .ok item ∧
      s.decode item.toValue = .ok (some record) ∧
      record.same (recordOf (present profile)) = true := by
  obtain ⟨s, hs, hbuilt, hfields⟩ := exists_profiles
  have hplain : ∀ {d : Definition} {v : Value}, d.converter = none → d.Takes v →
      (d.json = true → v.Unpaired) → d.Keeps v ∧ d.GivesBack v := fun hconverter htakes hpairs =>
    ⟨(Definition.keeps_iff_takes hconverter).mpr htakes,
      (Definition.givesBack_iff hconverter htakes).mpr hpairs⟩
  have hfields : ∀ e ∈ profile, ∃ d, s.fields.find? e.1 = some d ∧
      (e.2.isAbsent = false → d.Keeps e.2 ∧ d.GivesBack e.2) := by
    rw [hfields]
    refine List.forall_mem_cons.mpr ⟨?payload, List.forall_mem_cons.mpr ⟨?age,
      List.forall_mem_cons.mpr ⟨?nick, List.forall_mem_cons.mpr ⟨?scores,
        List.forall_mem_cons.mpr ⟨?id, List.forall_mem_singleton.mpr ?tags⟩⟩⟩⟩⟩
    all_goals refine ⟨_, rfl, fun _ => ?_⟩
    case payload =>
      have htree : Value.Tree Json.Leaf (.map (keyed [("b", .int 1), ("a", .null)])) :=
        .keyed (by decide) (List.forall_mem_cons.mpr
          ⟨.leaf (.int (by decide)), List.forall_mem_singleton.mpr (.leaf .null)⟩)
      refine hplain rfl (.of_tree rfl htree nofun) fun _ => .map ?_ ?_
      · simp [Spelling.unpaired_plain]
      · simpa using ⟨.simple trivial nofun, .simple trivial nofun⟩
    case age => contradiction
    case nick =>
      have hholds : Tag.text.Holds (.text "oen") := .atom (.text "oen")
      have hsame : (Value.text "neo").same (.text "neo") = true := Value.text_same_text.mpr rfl
      exact ⟨⟨_, _, rfl, rfl, .of_holds rfl rfl hholds, rfl, hsame⟩,
        _, _, _, rfl, Definition.restored_of_plain rfl, rfl, hsame⟩
    case scores =>
      refine hplain rfl (.of_holds rfl rfl (.list ?_)) nofun
      exact List.forall_mem_cons.mpr ⟨.leaf (.atom (.number (by decide))),
        List.forall_mem_singleton.mpr (.leaf (.atom (.numbers _ (by decide) (by decide))))⟩
    case id => exact hplain rfl (.of_holds rfl rfl (.atom (.text _))) nofun
    case tags =>
      have htags : Tag.Atom .texts (.set true (["x", "y"].map .text)) := .texts true (by decide)
      exact hplain rfl (.of_holds rfl rfl (.atom htags)) nofun
  have hkeeps : s.Keeps profile := ⟨by decide, fun e he => by
    obtain ⟨d, hd, hboth⟩ := hfields e he
    exact ⟨d, hd, fun hthere => (hboth hthere).1⟩⟩
  obtain ⟨item, hencode, hiff, -⟩ := exists_roundTrip hbuilt hkeeps
  obtain ⟨record, hdecode, hsame⟩ := hiff.mpr fun e he d hd => by
    obtain ⟨hmem, hthere⟩ := List.mem_filter.mp he
    obtain ⟨d', hd', hboth⟩ := hfields e hmem
    obtain rfl := Option.some.inj (hd.symm.trans hd')
    exact (hboth (by simpa using hthere)).2
  exact ⟨s, hs, hbuilt, hkeeps, item, record, hencode, hdecode, hsame⟩

/-- A text of two halves of a pair. -/
def halves : Spelling :=
  .ofPoints [0xD83D, 0xDE00]

/-- A text of two halves in the JSON format is kept, but comes back as one code point. -/
theorem not_roundTrip_halves : ¬ ∀ (s : Schema) values, s.Built → s.Keeps values →
    ∃ item record, s.encode (recordOf values) = .ok item ∧
      s.decode item.toValue = .ok (some record) ∧
      record.same (recordOf (present values)) = true := by
  intro h
  obtain ⟨s, -, hbuilt, hfields⟩ := exists_profiles
  have hpayload : s.fields.find? "payload" = some
      { fieldName := "payload", storedName := "p", type := "S", json := true } := by
    rw [hfields]
    rfl
  have htakes : Definition.Takes
      { fieldName := "payload", storedName := "p", type := "S", json := true } (.text halves) :=
    .of_tree rfl (.leaf (.text halves)) nofun
  have hkeeps : s.Keeps [("payload", .text halves)] := by
    refine ⟨List.nodup_singleton _, List.forall_mem_singleton.mpr ⟨_, hpayload, fun _ => ?_⟩⟩
    exact (Definition.keeps_iff_takes rfl).mpr htakes
  obtain ⟨item, record, hencode, hdecode, hsame⟩ := h s _ hbuilt hkeeps
  obtain ⟨item', hencode', hwritten⟩ := exists_encode hbuilt.sound hkeeps
  obtain rfl := Except.ok.inj (hencode.symm.trans hencode')
  have hreturned := returned_of_decode hbuilt.sound hkeeps hwritten hdecode hsame
  have hpresent : (.plain "payload", Value.text halves) ∈ present [("payload", .text halves)] :=
    List.mem_singleton_self _
  have hback := (hkeeps.returned_iff hpresent).mp (hreturned _ hpresent) _ hpayload
  have hpairs := ((Definition.givesBack_iff rfl htakes).mp hback rfl).of_text
  exact absurd (Spelling.joined_eq_self_iff.mpr hpairs) (by decide)

end DocTable.Schema
