import DocTable.Proofs.Json.RoundTrip
import DocTable.Proofs.Json.Values
import DocTable.Proofs.Stored.RoundTrip
import DocTable.Proofs.Token.Base64
import DocTable.Proofs.Token.Equality

/-! Attribute values in the two forms in which they travel: as they are sent to the store, and as
they stand in tokens, with byte strings in base 64. Each form is read as the attribute value. -/

namespace DocTable

namespace Attr

open Entries

variable {a : Attr} {v : Value}

/-- Whether the names in every map ascend. -/
inductive Ordered : Attr → Prop where
  | simple {a : Attr} (hlist : ∀ items, a ≠ list items) (hmap : ∀ entries, a ≠ map entries) :
    Ordered a
  | list {items : List Attr} (h : ∀ a ∈ items, Ordered a) : Ordered (list items)
  | map {entries : List (Spelling × Attr)} (hnames : Ascending entries)
    (h : ∀ e ∈ entries, Ordered e.2) : Ordered (map entries)

/-- What is read is in order. -/
theorem ordered_of_read {bytesOf : ByteReader} (hv : Value.Tree Value.Simple v)
    (h : read none bytesOf v = .ok a) : Ordered a := by
  have hleaf : ∀ v : Value, v.Simple → v.Simple := fun _ => id
  induction a using byParts generalizing v with
  | list items ih =>
    obtain ⟨p, rfl, vs, rfl, hvs⟩ := (read_eq_ok hv).mp h
    have ht := hv.of_mem_entries hleaf List.mem_cons_self
    refine .list fun a ha => ?_
    obtain ⟨v, hmem, hread⟩ := Outcome.exists_of_mem_forall₂ hvs ha
    exact ih a ha (ht.of_mem_items hleaf hmem) hread
  | map entries ih =>
    obtain ⟨p, rfl, held, rfl, hheld⟩ := (read_eq_ok hv).mp h
    have ht := hv.of_mem_entries hleaf List.mem_cons_self
    refine .map hheld.1 fun r hr => ?_
    obtain ⟨e, he, -, hread⟩ := hheld.exists_entry hr
    exact ih r hr (ht.of_mem_entries hleaf he) hread
  | _ => exact .simple (by simp) (by simp)

theorem Ordered.unchangeable (h : Ordered a) : Ordered a.unchangeable := by
  induction h with
  | @simple a hlist hmap =>
    cases a with
    | list items => exact absurd rfl (hlist items)
    | map entries => exact absurd rfl (hmap entries)
    | _ => exact .simple (by simp [Attr.unchangeable]) (by simp [Attr.unchangeable])
  | @list items h ih =>
    rw [Attr.unchangeable, unchangeableItems_eq]
    exact .list (List.forall_mem_map.mpr ih)
  | @map entries hnames h ih =>
    rw [Attr.unchangeable, unchangeableEntries_eq]
    exact .map (ascending_unchangeable.mpr hnames) (List.forall_mem_map.mpr ih)

/-! ## Attribute values as they are sent -/

theorem named_toEntries {entries : List (Spelling × Attr)} (h : Ascending entries) :
    Named (toEntries entries) := by
  rw [toEntries_eq, named_keyed, List.map_map]
  exact h.nodup

theorem tree_single {t : Tag} {payload : Value} (h : Value.Tree Value.Simple payload) :
    Value.Tree Value.Simple (single t payload) :=
  .map (named_singleton _ _) (List.forall_mem_singleton.mpr h)

theorem Ordered.tree_toValue (h : Ordered a) : Value.Tree Value.Simple a.toValue := by
  induction h with
  | @simple a hlist hmap =>
    cases a with
    | list items => exact absurd rfl (hlist items)
    | map entries => exact absurd rfl (hmap entries)
    | texts | numbers | byteSets =>
      exact tree_single (.list (List.forall_mem_map.mpr fun _ _ => .leaf trivial))
    | _ => exact tree_single (.leaf trivial)
  | @list items h ih =>
    rw [toValue, toValues_eq]
    exact tree_single (.list (List.forall_mem_map.mpr ih))
  | @map entries hnames h ih =>
    refine tree_single (.map (named_toEntries hnames) ?_)
    rw [toEntries_eq, keyed, List.map_map]
    exact List.forall_mem_map.mpr ih

/-- Entries under ascending names are read one by one. -/
theorem entriesHeld_keyed {bytesOf : ByteReader} {named : List (Spelling × Attr)} {f : Attr → Attr}
    {g : Attr → Value} (hnames : Ascending named)
    (h : ∀ e ∈ named, read none bytesOf (g e.2) = .ok (f e.2)) :
    EntriesHeld bytesOf (keyed (named.map (Prod.map id g))) (named.map (Prod.map id f)) := by
  refine ⟨ascending_map.mpr hnames, .of_eq ?_⟩
  simp only [keyed, List.map_map]
  exact List.map_congr_left fun e he => congrArg (Prod.mk _) (h e he)

/-- What is sent is read as what it was sent for. -/
theorem Ordered.read_toValue (h : Ordered a) : read none nativeBytes a.toValue = .ok a := by
  induction h with
  | @simple a hlist hmap =>
    refine (read_eq_ok (Ordered.simple hlist hmap).tree_toValue).mpr ?_
    cases a with
    | list items => exact absurd rfl (hlist items)
    | map entries => exact absurd rfl (hmap entries)
    | byteSets bs =>
      refine ⟨_, rfl, _, rfl, ?_⟩
      rw [List.forall₂_map_left_iff]
      exact List.forall₂_same.mpr fun b _ => ⟨false, rfl⟩
    | _ => exact ⟨_, rfl, rfl⟩
  | @list items h ih =>
    refine (read_eq_ok (Ordered.list h).tree_toValue).mpr ⟨_, rfl, _, rfl, ?_⟩
    rw [toValues_eq, List.forall₂_map_left_iff]
    exact List.forall₂_same.mpr ih
  | @map entries hnames h ih =>
    refine (read_eq_ok (Ordered.map hnames h).tree_toValue).mpr ⟨_, rfl, _, rfl, ?_⟩
    have hheld := entriesHeld_keyed (f := id) hnames ih
    rwa [← toEntries_eq, Prod.map_id, List.map_id] at hheld

/-! ## Attribute values as they stand in tokens -/

theorem toJsons_eq (items : List Attr) : toJsons items = items.map toJson := by
  induction items with
  | nil => rfl
  | cons a items ih => rw [toJsons, ih, List.map_cons]

theorem toMembers_eq (entries : List (Spelling × Attr)) :
    toMembers entries = entries.map (Prod.map id toJson) := by
  induction entries with
  | nil => rfl
  | cons e entries ih => rw [toMembers, ih]; rfl

theorem toValue_texts (ss : List Spelling) :
    (Json.array (ss.map .text)).toValue = .list (ss.map .text) := by
  rw [Json.toValue, Json.toValues_eq, List.map_map]
  rfl

theorem portableBytes_base64Text (code : String) (content : List UInt8) :
    portableBytes code (base64Text content).toValue = .ok (false, content) := by
  rw [base64Text, Json.toValue, portableBytes, Spelling.mended_plain, String.toList_ofList,
    Base64.decode_encode]
  rfl

theorem toValue_members {entries : List (Spelling × Attr)} (h : Ascending entries) :
    Json.toEntries [] (toMembers entries) =
      keyed (entries.map (Prod.map id fun a => a.toJson.toValue)) := by
  have hnodup : ((toMembers entries).map (·.1)).Nodup := by
    rw [toMembers_eq, List.map_map]
    exact h.nodup
  rw [Json.toEntries_of_nodup hnodup, toMembers_eq, List.map_map]
  rfl

theorem Ordered.read_toJson (h : Ordered a) :
    read none portableBytes a.toJson.toValue = .ok a.unchangeable := by
  induction h with
  | @simple a hlist hmap =>
    refine (read_eq_ok (Json.tree_toValue _)).mpr ?_
    cases a with
    | list items => exact absurd rfl (hlist items)
    | map entries => exact absurd rfl (hmap entries)
    | texts ss => exact ⟨_, rfl, toValue_texts ss⟩
    | numbers ss => exact ⟨_, rfl, toValue_texts ss⟩
    | bytes c content => exact ⟨_, rfl, portableBytes_base64Text _ content⟩
    | byteSets bs =>
      refine ⟨_, rfl, _, rfl, ?_⟩
      rw [Json.toValues_eq, List.map_map, List.forall₂_map_left_iff]
      exact List.forall₂_same.mpr fun b _ => ⟨false, portableBytes_base64Text _ b⟩
    | _ => exact ⟨_, rfl, rfl⟩
  | @list items h ih =>
    refine (read_eq_ok (Json.tree_toValue _)).mpr ⟨_, rfl, _, rfl, ?_⟩
    rw [Json.toValues_eq, toJsons_eq, unchangeableItems_eq, List.map_map, List.forall₂_map_left_iff,
      List.forall₂_map_right_iff]
    exact List.forall₂_same.mpr ih
  | @map entries hnames h ih =>
    refine (read_eq_ok (Json.tree_toValue _)).mpr ⟨_, rfl, _, rfl, ?_⟩
    rw [toValue_members hnames, unchangeableEntries_eq]
    exact entriesHeld_keyed hnames ih

theorem toJson_unchangeable (a : Attr) : a.unchangeable.toJson = a.toJson := by
  induction a using byParts with
  | list items ih =>
    have hitems : items.map (toJson ∘ unchangeable) = items.map toJson := List.map_congr_left ih
    simp only [unchangeable, toJson, unchangeableItems_eq, toJsons_eq, List.map_map, hitems]
  | map entries ih =>
    have hentries : entries.map (Prod.map id toJson ∘ Prod.map id unchangeable) =
        entries.map (Prod.map id toJson) :=
      List.map_congr_left fun e he => congrArg (Prod.mk e.1) (ih e he)
    simp only [unchangeable, toJson, unchangeableEntries_eq, toMembers_eq, List.map_map, hentries]
  | _ => rfl

theorem toMembers_unchangeable (entries : List (Spelling × Attr)) :
    toMembers (entries.map (Prod.map id unchangeable)) = toMembers entries := by
  rw [toMembers_eq, toMembers_eq, List.map_map]
  exact List.map_congr_left fun e _ => congrArg (Prod.mk e.1) (toJson_unchangeable e.2)

theorem readable_single {name : String} {j : Json} (h : j.Readable) :
    (Json.object [(name, j)]).Readable :=
  .object (List.forall_mem_singleton.mpr h)

theorem readable_toJson (a : Attr) : a.toJson.Readable := by
  induction a using byParts with
  | list items ih =>
    refine readable_single (.array ?_)
    rw [toJsons_eq]
    exact List.forall_mem_map.mpr ih
  | map entries ih =>
    refine readable_single (.object ?_)
    rw [toMembers_eq]
    exact List.forall_mem_map.mpr ih
  | texts ss | numbers ss | byteSets bs =>
    exact readable_single (.array (List.forall_mem_map.mpr fun _ _ => .text _))
  | bool b => exact readable_single (.bool b)
  | null => exact readable_single (.bool true)
  | _ => exact readable_single (.text _)

end Attr

end DocTable
