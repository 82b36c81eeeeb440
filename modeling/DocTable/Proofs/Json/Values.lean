import DocTable.Json.Basic
import DocTable.Proofs.Value.Tree

/-! The values that trees stand for, part by part. -/

namespace DocTable.Json

open Entries

theorem toValues_eq (items : List Json) : toValues items = items.map toValue := by
  induction items with
  | nil => rfl
  | cons j items ih => rw [toValues, ih, List.map_cons]

theorem toEntries_eq (done : Entries) (members : List (Spelling × Json)) :
    toEntries done members = done.overlay (keyed (members.map (Prod.map id toValue))) := by
  induction members generalizing done with
  | nil => rfl
  | cons m members ih => rw [toEntries, ih]; rfl

/-- Members with distinct names stand for as many entries. -/
theorem toEntries_of_nodup {members : List (Spelling × Json)} (h : (members.map (·.1)).Nodup) :
    toEntries [] members = keyed (members.map (Prod.map id toValue)) := by
  have hnamed : Named (keyed (members.map (Prod.map id toValue))) := by
    rw [named_keyed, List.map_map]
    exact h
  rw [toEntries_eq]
  exact OrderedMap.ofList_of_distinct hnamed.2

mutual

/-- All maps in what a tree stands for are under distinct names. -/
theorem tree_toValue (j : Json) : Value.Tree Value.Simple j.toValue := by
  match j with
  | .null | .bool _ | .int _ | .float _ | .text _ => exact .leaf trivial
  | .array items => exact .list (tree_toValues items)
  | .object members =>
    exact tree_toEntries [] members named_nil fun _ h => absurd h List.not_mem_nil

theorem tree_toValues (items : List Json) :
    ∀ v ∈ toValues items, Value.Tree Value.Simple v := by
  match items with
  | [] => exact fun _ h => absurd h List.not_mem_nil
  | j :: items => exact List.forall_mem_cons.mpr ⟨tree_toValue j, tree_toValues items⟩

theorem tree_toEntries (done : Entries) (members : List (Spelling × Json)) (hnames : Named done)
    (hdone : ∀ e ∈ done, Value.Tree Value.Simple e.2) :
    Value.Tree Value.Simple (.map (toEntries done members)) := by
  match members with
  | [] => exact .map hnames hdone
  | (name, j) :: members =>
    refine tree_toEntries _ members (hnames.put name _) fun e he => ?_
    rcases value_of_mem_put he with hvalue | hmem
    · exact hvalue ▸ tree_toValue j
    · exact hdone e hmem

end

end DocTable.Json
