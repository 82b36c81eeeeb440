import DocTable.Proofs.Token.Refusals
import DocTable.Proofs.Token.RoundTrip

/-! Keys as the store gives them. An attribute value in such a key is of one of the ten kinds and
holds what its kind demands, so that it can be read. A key of them has a token if no text in it has
halves of pairs, and the token is decoded to an equal key. -/

namespace DocTable

open Entries

namespace Attr

/-- Attribute values in the form in which the store gives them. -/
inductive Native : Value → Prop where
  | text (s : Spelling) : Native (single .text (.text s))
  | number (s : Spelling) : Native (single .number (.text s))
  | bytes (changeable : Bool) (content : List UInt8) :
      Native (single .bytes (.bytes changeable content))
  | bool (b : Bool) : Native (single .bool (.bool b))
  | null : Native (single .null (.bool true))
  | texts (ss : List Spelling) : Native (single .texts (.list (ss.map .text)))
  | numbers (ss : List Spelling) : Native (single .numbers (.list (ss.map .text)))
  | byteSets (members : List (Bool × List UInt8)) :
      Native (single .byteSets (.list (members.map fun b => .bytes b.1 b.2)))
  | list {items : List Value} (h : ∀ v ∈ items, Native v) : Native (single .list (.list items))
  | map {entries : Entries} (hnames : Named entries) (h : ∀ e ∈ entries, Native e.2) :
      Native (single .map (.map entries))

theorem Native.tree {v : Value} (h : Native v) : Value.Tree Value.Simple v := by
  induction h with
  | texts ss | numbers ss =>
    exact tree_single (.list (List.forall_mem_map.mpr fun _ _ => .leaf trivial))
  | byteSets members =>
    exact tree_single (.list (List.forall_mem_map.mpr fun _ _ => .leaf trivial))
  | list h ih => exact tree_single (.list ih)
  | map hnames h ih => exact tree_single (.map hnames ih)
  | _ => exact tree_single (.leaf trivial)

theorem isPlain_single {name : String} {j : Json} :
    (Json.object [(name, j)]).isPlain = true ↔ j.isPlain = true := by
  simp [Json.isPlain, Json.membersPlain, Spelling.isPlain]

theorem plain_single {t : Tag} {payload : Value} (h : payload.Plain) :
    (single t payload).Plain := by
  show (Value.map (keyed [(Spelling.plain t.code, payload)])).Plain
  exact .keyed (List.forall_mem_singleton.mpr ⟨rfl, h⟩)

theorem isPlain_texts {ss : List Spelling} (h : (Value.list (ss.map .text)).Plain) :
    (Json.array (ss.map .text)).isPlain = true := by
  refine Json.itemsPlain_iff.mpr (List.forall_mem_map.mpr fun s hs => ?_)
  exact (h.of_list _ (List.mem_map_of_mem hs)).of_text

/-- The tree for what is read of a value has no halves of pairs if the value has none. -/
theorem isPlain_toJson {v : Value} {a : Attr} (hv : Value.Tree Value.Simple v) (hplain : v.Plain)
    (h : read none nativeBytes v = .ok a) : a.toJson.isPlain = true := by
  have hleaf : ∀ v : Value, v.Simple → v.Simple := fun _ => id
  induction a using byParts generalizing v with
  | bool b | null | bytes c content => rfl
  | text s =>
    obtain ⟨p, rfl, rfl⟩ := (read_eq_ok hv).mp h
    exact isPlain_single.mpr (hplain.of_map.2 _ List.mem_cons_self).of_text
  | number s =>
    obtain ⟨p, rfl, rfl⟩ := (read_eq_ok hv).mp h
    exact isPlain_single.mpr (hplain.of_map.2 _ List.mem_cons_self).of_text
  | texts ss =>
    obtain ⟨p, rfl, rfl⟩ := (read_eq_ok hv).mp h
    exact isPlain_single.mpr (isPlain_texts (hplain.of_map.2 _ List.mem_cons_self))
  | numbers ss =>
    obtain ⟨p, rfl, rfl⟩ := (read_eq_ok hv).mp h
    exact isPlain_single.mpr (isPlain_texts (hplain.of_map.2 _ List.mem_cons_self))
  | byteSets bs =>
    exact isPlain_single.mpr
      (Json.itemsPlain_iff.mpr (List.forall_mem_map.mpr fun _ _ => rfl))
  | list items ih =>
    obtain ⟨p, rfl, vs, rfl, hvs⟩ := (read_eq_ok hv).mp h
    have ht := hv.of_mem_entries hleaf List.mem_cons_self
    have hitems := (hplain.of_map.2 _ List.mem_cons_self).of_list
    rw [toJson, isPlain_single, toJsons_eq]
    refine Json.itemsPlain_iff.mpr (List.forall_mem_map.mpr fun a ha => ?_)
    obtain ⟨v, hmem, hread⟩ := Outcome.exists_of_mem_forall₂ hvs ha
    exact ih a ha (ht.of_mem_items hleaf hmem) (hitems v hmem) hread
  | map entries ih =>
    obtain ⟨p, rfl, held, rfl, hheld⟩ := (read_eq_ok hv).mp h
    have ht := hv.of_mem_entries hleaf List.mem_cons_self
    obtain ⟨hnames, hvalues⟩ := (hplain.of_map.2 _ List.mem_cons_self).of_map
    rw [toJson, isPlain_single, toMembers_eq]
    refine Json.membersPlain_iff.mpr (List.forall_mem_map.mpr fun r hr => ?_)
    obtain ⟨e, he, hkey, hread⟩ := hheld.exists_entry hr
    exact ⟨hnames e he r.1 hkey, ih r hr (ht.of_mem_entries hleaf he) (hvalues e he) hread⟩

end Attr

namespace KeyToken

open Attr

/-- Attribute values under distinct names. -/
structure WellFormed (key : Entries) : Prop where
  names : Named key
  attrs : ∀ e ∈ key, Attr.Native e.2

/-- Keys as the store gives them: no text or name in them has halves of pairs. -/
structure Native (key : Entries) : Prop extends WellFormed key where
  plain : (Value.map key).Plain

theorem WellFormed.tree {key : Entries} (h : WellFormed key) :
    Value.Tree Value.Simple (.map key) :=
  .map h.names fun e he => (h.attrs e he).tree

/-- The tree in a token has no halves of pairs if the key has none. -/
theorem isPlain_treeOf {key : Entries} {attrs : List (Spelling × Attr)}
    (htree : Value.Tree Value.Simple (.map key)) (hplain : (Value.map key).Plain)
    (h : EntriesHeld nativeBytes key attrs) : (treeOf attrs).isPlain = true := by
  obtain ⟨hnames, hvalues⟩ := hplain.of_map
  rw [treeOf, isPlain_single, toMembers_eq]
  refine Json.membersPlain_iff.mpr (List.forall_mem_map.mpr fun r hr => ?_)
  obtain ⟨e, he, hkey, hread⟩ := h.exists_entry hr
  have htree' := htree.of_mem_entries (fun _ => id) he
  exact ⟨hnames e he r.1 hkey, isPlain_toJson htree' (hvalues e he) hread⟩

theorem plain_nestedKey : nestedKey.Plain := by
  have hname (s : String) : (Spelling.plain s).isPlain = true := rfl
  have htext (s : String) : (Value.text s).Plain := .text (hname s)
  have hbytes : (Value.bytes true [255, 0]).Plain := .simple trivial nofun
  have hinner : (Value.map (keyed [("y", single .bytes (.bytes true [255, 0])),
      ("x", single .number (.text "1"))])).Plain :=
    .keyed (List.forall_mem_cons.mpr ⟨⟨hname "y", plain_single hbytes⟩,
      List.forall_mem_singleton.mpr ⟨hname "x", plain_single (htext "1")⟩⟩)
  show (Value.map (keyed [_, _])).Plain
  exact .keyed (List.forall_mem_cons.mpr ⟨⟨hname "id", plain_single (htext "é")⟩,
    List.forall_mem_singleton.mpr ⟨hname "at", plain_single hinner⟩⟩)

end KeyToken

end DocTable
