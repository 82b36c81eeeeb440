import DocTable.Proofs.Table.Positions
import DocTable.Proofs.Token.Native
import DocTable.Proofs.Token.Nesting

/-! Tokens from outside. A text is no token, and then it is blamed at one of the stages of decoding;
or it gives a key as the store gives keys. That key has a token, which need not be the one that was
given, but gives the same key. -/

namespace DocTable

open Entries

namespace Attr

variable {a : Attr} {v : Value}

/-- What is sent for attribute values in order is as the store gives it. -/
theorem Ordered.native (h : Ordered a) : Native a.toValue := by
  induction h with
  | @simple a hlist hmap =>
    cases a with
    | text s => exact .text s
    | number s => exact .number s
    | bytes changeable content => exact .bytes changeable content
    | bool b => exact .bool b
    | null => exact .null
    | texts members => exact .texts members
    | numbers members => exact .numbers members
    | byteSets members =>
      have hbytes := Native.byteSets (members.map (Prod.mk false))
      rwa [List.map_map] at hbytes
    | list items => exact absurd rfl (hlist items)
    | map entries => exact absurd rfl (hmap entries)
  | @list items h ih =>
    rw [toValue, toValues_eq]
    exact .list (List.forall_mem_map.mpr ih)
  | @map entries hnames h ih =>
    refine .map (named_toEntries hnames) ?_
    rw [toEntries_eq, keyed, List.map_map]
    exact List.forall_mem_map.mpr ih

/-- Byte strings that are read of texts are unchangeable. -/
theorem unchangeable_of_read (hv : Value.Tree Value.Simple v)
    (h : read none portableBytes v = .ok a) : a.unchangeable = a := by
  have hleaf : ∀ v : Value, v.Simple → v.Simple := fun _ => id
  induction a using byParts generalizing v with
  | bytes changeable content =>
    obtain ⟨p, rfl, hheld⟩ := (read_eq_ok hv).mp h
    cases p with
    | text s =>
      obtain ⟨content', -, heq⟩ := Outcome.bind_eq_ok.mp hheld
      cases heq
      rfl
    | _ => cases hheld
  | list items ih =>
    obtain ⟨p, rfl, vs, rfl, hvs⟩ := (read_eq_ok hv).mp h
    have ht := hv.of_mem_entries hleaf List.mem_cons_self
    have hitems : items.map unchangeable = items.map id := List.map_congr_left fun a ha => by
      obtain ⟨v, hmem, hread⟩ := Outcome.exists_of_mem_forall₂ hvs ha
      exact ih a ha (ht.of_mem_items hleaf hmem) hread
    rw [unchangeable, unchangeableItems_eq, hitems, List.map_id]
  | map entries ih =>
    obtain ⟨p, rfl, held, rfl, hheld⟩ := (read_eq_ok hv).mp h
    have ht := hv.of_mem_entries hleaf List.mem_cons_self
    have hentries : entries.map (Prod.map id unchangeable) = entries.map id :=
      List.map_congr_left fun r hr => by
        obtain ⟨e, he, -, hread⟩ := hheld.exists_entry hr
        exact Prod.ext rfl (ih r hr (ht.of_mem_entries hleaf he) hread)
    rw [unchangeable, unchangeableEntries_eq, hentries, List.map_id]
  | _ => rfl

end Attr

namespace KeyToken

open Attr

variable {key : List (Spelling × Attr)}

/-- What is read of a tree as a key is in order, with unchangeable byte strings. -/
theorem ordered_of_keyOf {v : Value} (hv : Value.Tree Value.Simple v) (h : keyOf v = .ok key) :
    Ordered (.map key) ∧ key.map (Prod.map id unchangeable) = key := by
  obtain ⟨_, _, held, -, -, htree, hheld, -⟩ := exists_held hv h
  refine ⟨ordered_of_held htree hheld, ?_⟩
  refine (List.map_congr_left fun r hr => ?_).trans (List.map_id key)
  obtain ⟨e, he, -, hread⟩ := hheld.exists_entry hr
  exact Prod.ext rfl (unchangeable_of_read (htree.of_mem_entries (fun _ => id) he) hread)

/-- A key in order stands as attribute values under distinct names. -/
theorem wellFormed_toEntries (h : Ordered (.map key)) : WellFormed (toEntries key) := by
  cases h with
  | simple hlist hmap => exact absurd rfl (hmap key)
  | map hnames hattrs =>
    refine ⟨named_toEntries hnames, ?_⟩
    rw [toEntries_eq, keyed, List.map_map]
    exact List.forall_mem_map.mpr fun e he => (hattrs e he).native

/-- A key that was read within limits, and that has no halves of pairs, has a token within these
limits, which gives it back. -/
theorem encode_of_keyOf {v : Value} {limits : Nesting} (hv : Value.Tree Value.Simple v)
    (h : keyOf v = .ok key) (hne : key ≠ []) (hplain : (Value.map (toEntries key)).Plain)
    (hdepth : Json.Allows limits.text v.height)
    (hheight : ∀ r ∈ key, Json.Allows limits.values r.2.height) :
    encode (.map (toEntries key)) limits = .ok (ofKey key) ∧
      decode (.text (ofKey key)) limits = .ok (.map (toEntries key)) := by
  obtain ⟨hordered, hunchangeable⟩ := ordered_of_keyOf hv h
  obtain ⟨htree, hheld⟩ := held_toEntries hordered
  have htreePlain := isPlain_treeOf htree hplain hheld
  have htreeDepth := hdepth.mono (depth_treeOf_le hv h)
  have hkeyOf := keyOf_treeOf hordered hne
  rw [hunchangeable] at hkeyOf
  constructor
  · have htruthy : (Value.map (toEntries key)).truthy = true := by
      simpa [Value.truthy] using toEntries_ne_nil hne
    rw [encode, if_pos htruthy, sortedAttrs_of_allows htree hheld hheight, Outcome.ok_bind,
      payload_eq_ok.mpr ⟨htreeDepth, htreePlain, rfl⟩]
    rfl
  · rw [ofKey, decode_ofText (textOf_ne_empty key), keyIn, parse_textOf htreePlain htreeDepth,
      Outcome.ok_bind,
      keyOf_of_allows (Json.tree_toValue _) hkeyOf hheight]
    rfl

theorem stripped_text (token : Spelling) :
    stripped (.text token) = .ok (Text.strip token.mended) := by
  by_cases hempty : token = ""
  · subst hempty
    rfl
  · have htruthy : (Value.text token).truthy = true := decide_eq_true hempty
    rw [stripped, if_pos htruthy, Value.plainText_text]
    rfl

/-- Decoding under limits is ended by one of them, blames the token, or gives a key that stands in a
tree within the limits. -/
theorem decode_text_cases (token : Spelling) (limits : Nesting) :
    (decode (.text token) limits = .error .endless ∧
      ∃ text, contents (Text.strip token.mended) = .ok text ∧ ¬ limits.Allow (text.length + 1)) ∨
    (∃ f, f.isMalformed = true ∧ decode (.text token) limits = .error f) ∨
    ∃ (j : Json) (key : List (Spelling × Attr)),
      decode (.text token) limits = .ok (.map (toEntries key)) ∧ keyOf j.toValue = .ok key ∧
        Json.Allows limits.text j.depth ∧ ∀ r ∈ key, Json.Allows limits.values r.2.height := by
  rw [decode, stripped_text, Outcome.ok_bind]
  split
  next => exact .inr (.inl ⟨_, rfl, rfl⟩)
  cases hcontents : contents (Text.strip token.mended) with
  | error f => exact .inr (.inl ⟨f, blames_contents _ f hcontents, rfl⟩)
  | ok text =>
    rw [Outcome.ok_bind]
    rcases limited_keyIn text limits with ⟨hended, hsmall⟩ | ⟨hsame, hwithin⟩
    · exact .inl ⟨hended, text, rfl, hsmall⟩
    rw [hsame]
    cases hkeyIn : keyIn text {} with
    | error f => exact .inr (.inl ⟨f, blames_keyIn text f hkeyIn, rfl⟩)
    | ok k =>
      obtain ⟨j, key, rfl, hkey, hdepth, hheight⟩ := hwithin k hkeyIn
      exact .inr (.inr ⟨j, key, rfl, hkey, hdepth, hheight⟩)

end KeyToken

/-- **Every text is a token or is refused.** A text is refused for its value, and a cursor that is
to resume from it stays where it is; or it gives a key of attribute values, which is not empty and
which its own token gives back if a token can hold it, and the cursor is behind that key. The only
way out of this is a limit to nesting that is not above the length of what is in the token. -/
theorem KeyToken.decode_validates (token : Spelling) (limits : Nesting) (c : Cursor) (h : Handle) :
    (decode (.text token) limits = .error .endless ∧
      (∃ text, contents (Text.strip token.mended) = .ok text ∧ ¬ limits.Allow (text.length + 1)) ∧
      Turn.shaped c h (c.resume (.text token) limits) = (.error .endless, c, h)) ∨
    (∃ f, decode (.text token) limits = .error f ∧
      f.kind ∈ ["ValueError", "Error", "JSONDecodeError", "UnicodeDecodeError"] ∧
      Turn.shaped c h (c.resume (.text token) limits) = (.error (.request .cursor), c, h)) ∨
    ∃ key, decode (.text token) limits = .ok (.map key) ∧ key ≠ [] ∧ WellFormed key ∧
      ((Value.map key).Plain → ∃ token', encode (.map key) limits = .ok token' ∧
        decode (.text token') limits = .ok (.map key)) ∧
      Turn.shaped c h (c.resume (.text token) limits) =
        (.ok none, { c with continuationKey := some key, hasMore := true }, h) := by
  rcases decode_text_cases token limits with
    ⟨hended, hsmall⟩ | ⟨f, hf, hdecode⟩ | ⟨j, key, hdecode, hkey, hdepth, hheight⟩
  · refine .inl ⟨hended, hsmall, ?_⟩
    rw [Cursor.resume, hended]
    rfl
  · refine .inr (.inl ⟨f, hdecode, Failure.kind_of_isMalformed hf, ?_⟩)
    rw [Cursor.resume, hdecode]
    show (Except.error (if f.isBadValue = true then _ else f), c, h) = _
    rw [if_pos (Failure.isBadValue_of_isMalformed hf)]
  · have htree := j.tree_toValue
    have hne := (keyOf_cases htree).2 key hkey
    refine .inr (.inr ⟨Attr.toEntries key, hdecode, Attr.toEntries_ne_nil hne,
      wellFormed_toEntries (ordered_of_keyOf htree hkey).1, fun hplain => ?_, ?_⟩)
    · have hheightValue := hdepth.mono (Json.height_toValue j)
      exact ⟨ofKey key, encode_of_keyOf htree hkey hne hplain hheightValue hheight⟩
    · rw [Cursor.resume, hdecode]
      rfl

/-- A token with brackets in brackets. -/
def KeyToken.brackets (n : Nat) : String :=
  ofText (String.ofList (List.replicate n '['))

theorem KeyToken.decode_brackets {limit n : Nat} (h : limit < n) (values : Option Nat) :
    decode (.text (brackets n)) { text := some limit, values } = .error .endless := by
  have hne : String.ofList (List.replicate n '[') ≠ "" := by
    intro hempty
    have hlength := congrArg String.length hempty
    rw [String.length_ofList, List.length_replicate] at hlength
    exact absurd hlength (Nat.ne_zero_of_lt h)
  rw [brackets, decode_ofText hne, keyIn, Json.parse_brackets h]
  rfl

/-- Brackets that are nested more deeply than the reader goes are no token, and are not refused for
their value either. -/
theorem KeyToken.not_validated_brackets :
    ∃ f, decode (.text (brackets 100000)) { text := some 10000, values := some 980 } = .error f ∧
      f.kind ∉ ["ValueError", "Error", "JSONDecodeError", "UnicodeDecodeError"] :=
  ⟨.endless, decode_brackets (by decide) _, by decide⟩

end DocTable
