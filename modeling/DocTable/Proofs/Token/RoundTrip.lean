import DocTable.Proofs.Token.Forms

/-! Tokens give their keys back. Inside a token stands the tree of the key; each stage of decoding
undoes one of encoding, and what comes out is the key with its names in order and its byte strings
unchangeable. -/

namespace DocTable

namespace Text

theorem toList_loop (bytes : ByteArray) (i : Nat) (done : List UInt8) :
    ByteArray.toList.loop bytes i done = done.reverse ++ bytes.data.toList.drop i := by
  induction i, done using ByteArray.toList.loop.induct bytes with
  | case1 i done hlt ih =>
    have hlength : i < bytes.data.toList.length := hlt
    have hget : bytes.get! i = bytes.data.toList[i] := by
      show bytes.data[i]! = _
      rw [getElem!_pos bytes.data i hlt, Array.getElem_toList]
    rw [ByteArray.toList.loop, if_pos hlt, ih, List.drop_eq_getElem_cons hlength, hget]
    simp
  | case2 i done hge =>
    have hdrop : bytes.data.toList.drop i = [] := List.drop_eq_nil_of_le (Nat.le_of_not_lt hge)
    rw [ByteArray.toList.loop, if_neg hge, hdrop, List.append_nil]

/-- The bytes of a text are a text again. -/
theorem fromUTF8?_toUTF8 (s : String) : String.fromUTF8? ⟨s.toUTF8.toList.toArray⟩ = some s := by
  have hbytes : (⟨s.toUTF8.toList.toArray⟩ : ByteArray) = s.toByteArray := by
    rw [ByteArray.toList, toList_loop]
    simp
  rw [hbytes, String.fromUTF8?, dif_pos s.isValidUTF8]
  rfl

theorem stripBy_of_none {p : Char → Bool} {cs : List Char} (h : ∀ c ∈ cs, p c = false) :
    stripBy p cs = cs := by
  have hdrop : ∀ cs : List Char, (∀ c ∈ cs, p c = false) → cs.dropWhile p = cs := by
    intro cs hcs
    cases cs with
    | nil => rfl
    | cons c cs => rw [List.dropWhile_cons_of_neg (by simp [hcs c List.mem_cons_self])]
  rw [stripBy, hdrop cs h, hdrop cs.reverse (by simpa using h), List.reverse_reverse]

end Text

namespace KeyToken

open Entries Attr

variable {k : Value} {entries entries' : Entries} {key key' : List (Spelling × Attr)}
  {token : String}

/-- The token with a text in it. -/
def ofText (text : String) : String :=
  String.ofList (Base64.encodeBare .forUrls text.toUTF8.toList)

/-- The text in the token that stands for what is read of a key. -/
def textOf (key : List (Spelling × Attr)) : String :=
  (treeOf key).render .minimal

/-- The token that stands for what is read of a key. -/
def ofKey (key : List (Spelling × Attr)) : String :=
  ofText (textOf key)

theorem payload_eq_ok {limit : Option Nat} {text : String} : payload key limit = .ok text ↔
    Json.Allows limit (treeOf key).depth ∧ (treeOf key).isPlain = true ∧ text = textOf key := by
  have hallows : (limit.all fun n => (treeOf key).depth ≤ n) = true ↔
      Json.Allows limit (treeOf key).depth := by
    cases limit <;> simp [Json.Allows]
  rw [payload, ← hallows]
  split
  next hlimit =>
    split
    next hplain => simp [hlimit, hplain, textOf, eq_comm]
    next hplain => simp [hplain]
  next hlimit => simp [hlimit]

theorem urlSafe_ofText {text : String} {c : Char} (h : c ∈ (ofText text).toList) :
    Base64.UrlSafe c := by
  rw [ofText, String.toList_ofList] at h
  exact Base64.urlSafe_of_mem_encodeBare h

theorem contents_ofText (text : String) : contents (ofText text) = .ok text := by
  have hdecode := Base64.decode_encode .forUrls text.toUTF8.toList
  rw [Base64.encode] at hdecode
  rw [contents, ofText, String.toList_ofList]
  simp only [hdecode, bind, Except.bind, Text.fromUTF8?_toUTF8]

theorem ofText_ne_empty {text : String} (h : text ≠ "") : ofText text ≠ "" := by
  intro hempty
  have hcontents : contents "" = .ok text := hempty ▸ contents_ofText text
  exact h (Except.ok.inj hcontents).symm

theorem strip_ofText (text : String) : Text.strip (ofText text) = ofText text := by
  have hblank : ∀ c ∈ (ofText text).toList, Text.isBlank c = false := by
    intro c hc
    rw [ofText, String.toList_ofList] at hc
    exact Base64.isBlank_of_mem_encodeBare hc
  rw [Text.strip, Text.stripBy_of_none hblank, String.ofList_toList]

/-- A token is decoded to what its text holds. -/
theorem decode_ofText {text : String} (h : text ≠ "") (limits : Nesting) :
    decode (.text (ofText text)) limits = keyIn text limits := by
  have htruthy : (Value.text (ofText text)).truthy = true :=
    decide_eq_true (mt Spelling.plain.inj (ofText_ne_empty h))
  have hstripped : stripped (.text (ofText text)) = .ok (ofText text) := by
    rw [stripped, if_pos htruthy, Value.plainText_text, Spelling.mended_plain]
    exact congrArg Except.ok (strip_ofText text)
  rw [decode, hstripped, Outcome.ok_bind, if_neg (ofText_ne_empty h), contents_ofText,
    Outcome.ok_bind]

theorem textOf_ne_empty (key : List (Spelling × Attr)) : textOf key ≠ "" := by
  intro hempty
  have hchars := congrArg String.toList hempty
  rw [textOf, Json.render, String.toList_ofList] at hchars
  cases hchars

theorem readable_treeOf (key : List (Spelling × Attr)) : (treeOf key).Readable := by
  refine readable_single (.object ?_)
  rw [toMembers_eq]
  exact List.forall_mem_map.mpr fun e _ => readable_toJson e.2

theorem parse_textOf {limit : Option Nat} (hplain : (treeOf key).isPlain = true)
    (hlimit : Json.Allows limit (treeOf key).depth) :
    Json.parse (textOf key) limit = .ok (treeOf key) := by
  rw [textOf, Json.parse_render (readable_treeOf key) .minimal hlimit,
    (Json.unpaired_of_isPlain _ hplain).joined_eq]

/-- The tree in a token stands for a map that holds the key under its name. -/
theorem keyOf_treeOf (h : Ordered (.map key)) (hne : key ≠ []) :
    keyOf (treeOf key).toValue =
      .ok (key.map (Prod.map id unchangeable)) := by
  cases h with
  | simple _ hmap => exact absurd rfl (hmap _)
  | map hnames hattrs =>
    obtain ⟨e, key, rfl⟩ := List.exists_cons_of_ne_nil hne
    have hheld := entriesHeld_keyed (g := fun a => a.toJson.toValue) hnames
      fun e he => (hattrs e he).read_toJson
    have hnamed : Named (keyed ((e :: key).map (Prod.map id fun a => a.toJson.toValue))) := by
      rw [named_keyed, List.map_map]
      exact hnames.nodup
    have hvalue : (treeOf (e :: key)).toValue =
        .map [(.text keyName,
          .map (keyed ((e :: key).map (Prod.map id fun a => a.toJson.toValue))))] := by
      rw [← toValue_members hnames]
      rfl
    rw [hvalue, keyOf, OrderedMap.find?, if_pos (Value.beq_text.mpr rfl)]
    exact (sortedAttrs_readEntries hnamed).mpr hheld

/-- A token is decoded to the key that it stands for, with byte strings unchangeable. -/
theorem decode_ofKey (h : Ordered (.map key)) (hne : key ≠ [])
    (hplain : (treeOf key).isPlain = true) :
    decode (.text (ofKey key)) = .ok (.map (toEntries (key.map (Prod.map id unchangeable)))) := by
  rw [ofKey, decode_ofText (textOf_ne_empty key), keyIn, parse_textOf hplain (Json.allows_none _),
    Outcome.ok_bind, keyOf_treeOf h hne]
  rfl

/-- What encoding gives for a key. -/
theorem encode_eq_ok (hk : Value.Tree Value.Simple k) (hne : k.truthy = true) :
    encode k = .ok token ↔ ∃ entries key, k = .map entries ∧
      EntriesHeld nativeBytes entries key ∧ (treeOf key).isPlain = true ∧ token = ofKey key := by
  unfold encode
  rw [if_pos hne]
  constructor
  · intro h
    cases k with
    | map entries =>
      obtain ⟨key, hkey, h⟩ := Outcome.bind_eq_ok.mp h
      obtain ⟨text, htext, h⟩ := Outcome.bind_eq_ok.mp h
      obtain ⟨-, hplain, rfl⟩ := payload_eq_ok.mp htext
      have hheld := (sortedAttrs_readEntries (hk.named fun _ => id)).mp hkey
      exact ⟨entries, key, rfl, hheld, hplain, (Except.ok.inj h).symm⟩
    | _ => cases h
  · rintro ⟨entries, key, rfl, hheld, hplain, rfl⟩
    have hread := (sortedAttrs_readEntries (hk.named fun _ => id)).mpr hheld
    have hpayload := payload_eq_ok.mpr ⟨Json.allows_none _, hplain, rfl⟩
    exact Outcome.bind_eq_ok.mpr ⟨key, hread, Outcome.bind_eq_ok.mpr ⟨textOf key, hpayload, rfl⟩⟩

/-- Keys are equal when what is read of them is. -/
theorem map_same_iff (hk : Value.Tree Value.Simple (.map entries))
    (hk' : Value.Tree Value.Simple (.map entries')) (h : EntriesHeld nativeBytes entries key)
    (h' : EntriesHeld nativeBytes entries' key') :
    (Value.map entries).same (.map entries') = true ↔
      key.map (Prod.map id unchangeable) = key'.map (Prod.map id unchangeable) := by
  have hleaf : ∀ v : Value, v.Simple → v.Simple := fun _ => id
  exact h.same_iff h' (hk.named hleaf) (hk'.named hleaf) fun e he e' he' r _ r' _ hread hread' =>
    Attr.same_iff (hk.of_mem_entries hleaf he) (hk'.of_mem_entries hleaf he') hread hread'

theorem ordered_of_held {bytesOf : ByteReader} (hk : Value.Tree Value.Simple (.map entries))
    (h : EntriesHeld bytesOf entries key) : Ordered (.map key) := by
  refine .map h.1 fun r hr => ?_
  obtain ⟨e, he, -, hread⟩ := h.exists_entry hr
  exact ordered_of_read (hk.of_mem_entries (fun _ => id) he) hread

/-- What stands for a key is read as that key. -/
theorem held_toEntries (h : Ordered (.map key)) :
    Value.Tree Value.Simple (.map (toEntries key)) ∧
      EntriesHeld nativeBytes (toEntries key) key := by
  have htree := h.tree_toValue
  obtain ⟨p, hp, entries, rfl, hheld⟩ := (read_eq_ok htree).mp h.read_toValue
  cases hp
  exact ⟨htree.of_mem_entries (fun _ => id) List.mem_cons_self, hheld⟩

/-- Only the tree in a token matters, and it says what was read of the key. -/
theorem ofKey_eq_iff (h : Ordered (.map key)) (h' : Ordered (.map key')) (hne : key ≠ [])
    (hne' : key' ≠ []) (hplain : (treeOf key).isPlain = true)
    (hplain' : (treeOf key').isPlain = true) :
    ofKey key = ofKey key' ↔
      key.map (Prod.map id unchangeable) = key'.map (Prod.map id unchangeable) := by
  constructor
  · intro htoken
    have htext : textOf key = textOf key' := by
      have hcontents := contents_ofText (textOf key)
      rw [← ofKey, htoken, ofKey, contents_ofText] at hcontents
      exact (Except.ok.inj hcontents).symm
    have hparse := parse_textOf hplain (Json.allows_none _)
    rw [htext, parse_textOf hplain' (Json.allows_none _)] at hparse
    have htree := (Except.ok.inj hparse).symm
    have hkey := keyOf_treeOf h hne
    rw [htree, keyOf_treeOf h' hne'] at hkey
    exact (Except.ok.inj hkey).symm
  · intro heq
    rw [ofKey, ofKey, textOf, textOf, treeOf, treeOf, ← toMembers_unchangeable key, heq,
      toMembers_unchangeable]

/-- **Tokens stand for keys.** A key all of whose maps are under distinct names, once it is encoded,
has a token that is made of letters, digits, hyphens and underscores. The token is decoded to an
equal key, and another key has the same token exactly if it is equal: neither the order of entries
counts, nor whether byte strings are changeable. -/
theorem encode_faithful (hk : Value.Tree Value.Simple k) (hne : k.truthy = true)
    (h : encode k = .ok token) :
    (token ≠ "" ∧ ∀ c ∈ token.toList, Base64.UrlSafe c) ∧
    (∃ k', decode (.text token) = .ok k' ∧ k'.same k = true) ∧
    ∀ k' token', Value.Tree Value.Simple k' → k'.truthy = true → encode k' = .ok token' →
      (token = token' ↔ k.same k' = true) := by
  obtain ⟨entries, key, rfl, hheld, hplain, rfl⟩ := (encode_eq_ok hk hne).mp h
  have hordered := ordered_of_held hk hheld
  have hfilled : ∀ {entries key}, (Value.map entries).truthy = true →
      EntriesHeld nativeBytes entries key → key ≠ [] := by
    rintro entries key htruthy hheld rfl
    have hlength := hheld.length_eq
    cases entries <;> simp_all [Value.truthy]
  have hkey := hfilled hne hheld
  refine ⟨⟨ofText_ne_empty (textOf_ne_empty key), fun c => urlSafe_ofText⟩, ?_, ?_⟩
  · have hordered' := hordered.unchangeable
    rw [unchangeable, unchangeableEntries_eq] at hordered'
    obtain ⟨htree, hread⟩ := held_toEntries hordered'
    refine ⟨_, decode_ofKey hordered hkey hplain, (map_same_iff htree hk hread hheld).mpr ?_⟩
    rw [List.map_map]
    exact List.map_congr_left fun e _ => congrArg (Prod.mk e.1) (unchangeable_idem e.2)
  · intro k' token' hk' hne' h'
    obtain ⟨entries', key', rfl, hheld', hplain', rfl⟩ := (encode_eq_ok hk' hne').mp h'
    rw [map_same_iff hk hk' hheld hheld']
    have hordered' := ordered_of_held hk' hheld'
    exact ofKey_eq_iff hordered hordered' hkey (hfilled hne' hheld') hplain hplain'

/-- A key with a map inside and changeable bytes, in no particular order. -/
def nestedKey : Value :=
  .map (keyed [("id", single .text (.text "é")),
    ("at", single .map (.map (keyed [("y", single .bytes (.bytes true [255, 0])),
      ("x", single .number (.text "1"))])))])

/-- The same key, in another order and with unchangeable bytes. -/
def shuffledKey : Value :=
  .map (keyed [("at", single .map (.map (keyed [("x", single .number (.text "1")),
      ("y", single .bytes (.bytes false [255, 0]))]))),
    ("id", single .text (.text "é"))])

theorem encode_faithful_nested :
    ∃ token, encode nestedKey = .ok token ∧ encode shuffledKey = .ok token ∧
      ∃ k', decode (.text token) = .ok k' ∧ k'.same nestedKey = true := by
  have htree : Value.Tree Value.Simple nestedKey := by
    refine .keyed (by decide) (List.forall_mem_cons.mpr ⟨tree_single (.leaf trivial), ?_⟩)
    refine List.forall_mem_singleton.mpr (tree_single (.keyed (by decide) ?_))
    exact List.forall_mem_cons.mpr ⟨tree_single (.leaf trivial),
      List.forall_mem_singleton.mpr (tree_single (.leaf trivial))⟩
  have htree' : Value.Tree Value.Simple shuffledKey := by
    refine .keyed (by decide) (List.forall_mem_cons.mpr ⟨tree_single (.keyed (by decide) ?_), ?_⟩)
    · exact List.forall_mem_cons.mpr ⟨tree_single (.leaf trivial),
        List.forall_mem_singleton.mpr (tree_single (.leaf trivial))⟩
    · exact List.forall_mem_singleton.mpr (tree_single (.leaf trivial))
  have hok : (encode nestedKey).isOk = true ∧ (encode shuffledKey).isOk = true := by decide +kernel
  obtain ⟨token, htoken⟩ := Outcome.exists_of_isOk hok.1
  obtain ⟨token', htoken'⟩ := Outcome.exists_of_isOk hok.2
  obtain ⟨-, hdecode, hunique⟩ := encode_faithful htree (by decide) htoken
  have hsame : nestedKey.same shuffledKey = true := by decide +kernel
  have heq := (hunique shuffledKey token' htree' (by decide) htoken').mpr hsame
  exact ⟨token, htoken, heq ▸ htoken', hdecode⟩

end KeyToken

end DocTable
