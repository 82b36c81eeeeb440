import DocTable.Proofs.OrderedMap
import DocTable.Proofs.Outcome
import DocTable.Proofs.Text.Spelling
import DocTable.Proofs.Value.Names
import DocTable.Value.Access
import Mathlib.Data.List.Nodup
import Mathlib.Data.List.Perm.Basic
import Mathlib.Data.List.Sort
import Mathlib.Data.String.Basic

/-! Maps whose keys are distinct names, and what sorting them by their keys gives: the same entries
by ascending names, in the one order there is. -/

namespace DocTable

instance : LinearOrder Spelling :=
  .lift' Spelling.points fun _ _ => Spelling.points_injective

namespace Entries

variable {ν : Type} {entries : OrderedMap Value ν} {named sorted : List (Spelling × ν)}

/-- The entries under some names. -/
def keyed (named : List (Spelling × ν)) : OrderedMap Value ν :=
  named.map (Prod.map .text id)

theorem keyed_cons (e : Spelling × ν) (named : List (Spelling × ν)) :
    keyed (e :: named) = (.text e.1, e.2) :: keyed named := rfl

/-- Whether all keys are names, no two of them equal. -/
def Named (entries : OrderedMap Value ν) : Prop :=
  (∀ e ∈ entries, ∃ name, e.1 = .text name) ∧ entries.Distinct

theorem named_nil : Named ([] : OrderedMap Value ν) :=
  ⟨fun _ h => absurd h List.not_mem_nil, .nil⟩

theorem named_singleton (name : Spelling) (v : ν) : Named [(.text name, v)] := by
  refine ⟨?_, List.pairwise_singleton _ _⟩
  rintro e he
  exact ⟨name, congrArg Prod.fst (List.mem_singleton.mp he)⟩

theorem named_keyed : Named (keyed named) ↔ (named.map (·.1)).Nodup := by
  have hnames : ∀ e ∈ keyed named, ∃ name, e.1 = .text name := by
    intro e he
    obtain ⟨e', -, rfl⟩ := List.mem_map.mp he
    exact ⟨e'.1, rfl⟩
  have hdistinct : (keyed named).Distinct ↔ (named.map (·.1)).Nodup := by
    simp only [OrderedMap.Distinct, keyed, List.pairwise_map, List.Nodup, Prod.map_fst,
      Value.text_beq_text, beq_eq_false_iff_ne]
  exact ⟨fun h => hdistinct.mp h.2, fun h => ⟨hnames, hdistinct.mpr h⟩⟩

theorem Named.exists_keyed (h : Named entries) : ∃ named, entries = keyed named := by
  obtain ⟨hnames, -⟩ := h
  induction entries with
  | nil => exact ⟨[], rfl⟩
  | cons e entries ih =>
    obtain ⟨⟨name, hname⟩, hrest⟩ := List.forall_mem_cons.mp hnames
    obtain ⟨named, rfl⟩ := ih hrest
    exact ⟨(name, e.2) :: named, by rw [keyed_cons, ← hname]⟩

/-- Whether keys are distinct names depends on the keys only. -/
theorem named_iff_keys {entries : OrderedMap Value ν} : Named entries ↔
    (∀ k ∈ entries.keys, ∃ name, k = .text name) ∧ entries.keys.Nodup := by
  simp only [Named, OrderedMap.Distinct, OrderedMap.keys, List.Nodup, List.forall_mem_map,
    List.pairwise_map]
  refine and_congr_right fun hnames => List.Pairwise.iff_of_mem fun _ he' => ?_
  obtain ⟨name, hname⟩ := hnames _ he'
  rw [hname, Bool.eq_false_iff, ne_eq, Value.beq_text]

theorem Named.of_perm {μ : Type} {entries : OrderedMap Value ν} {entries' : OrderedMap Value μ}
    (h : Named entries) (hperm : entries'.keys.Perm entries.keys) : Named entries' := by
  obtain ⟨hnames, hnodup⟩ := named_iff_keys.mp h
  exact named_iff_keys.mpr ⟨fun k hk => hnames k (hperm.subset hk), hperm.nodup_iff.mpr hnodup⟩

/-- Two entries under one name are the same. -/
theorem Named.eq_of_mem {entries : OrderedMap Value ν} (h : Named entries) {e e' : Value × ν}
    (he : e ∈ entries) (he' : e' ∈ entries) (hkey : e.1 = e'.1) : e = e' :=
  List.inj_on_of_nodup_map (named_iff_keys.mp h).2 he he' hkey

theorem Named.map {μ : Type} (h : Named entries) (f : ν → μ) :
    Named (entries.map (Prod.map id f)) :=
  h.of_perm (.of_eq (by simp [OrderedMap.keys, Function.comp_def]))

theorem Named.put {entries : Entries} (h : Named entries) (name : Spelling) (v : Value) :
    Named (entries.put (.text name) v) := by
  obtain ⟨hnames, hdistinct⟩ := h
  constructor
  · intro e he
    rcases mem_put he with hkey | ⟨e', he', hkey⟩
    · exact ⟨name, hkey⟩
    · exact hkey ▸ hnames e' he'
  · clear hnames
    induction entries with
    | nil => exact List.pairwise_singleton _ _
    | cons e entries ih =>
      obtain ⟨hfirst, hrest⟩ := List.pairwise_cons.mp hdistinct
      rw [OrderedMap.put]
      split
      next => exact List.pairwise_cons.mpr ⟨hfirst, hrest⟩
      next hne =>
        refine List.pairwise_cons.mpr ⟨?_, ih hrest⟩
        intro e' he'
        rcases mem_put he' with hkey | ⟨e'', he'', hkey⟩
        · rw [hkey]
          exact Bool.eq_false_iff.mpr hne
        · exact hkey ▸ hfirst e'' he''

theorem keyed_perm_iff : (keyed named).Perm (keyed sorted) ↔ named.Perm sorted :=
  List.map_perm_map_iff (.prodMap (fun _ _ => Value.text.inj) Function.injective_id)

/-- Whether the names ascend. -/
def Ascending (named : List (Spelling × ν)) : Prop :=
  named.Pairwise fun e e' => e.1 < e'.1

theorem ascending_map {μ : Type} {f : ν → μ} :
    Ascending (named.map (Prod.map id f)) ↔ Ascending named :=
  List.pairwise_map

theorem Ascending.nodup (h : Ascending named) : (named.map (·.1)).Nodup :=
  List.pairwise_map.mpr (h.imp fun hlt => ne_of_lt hlt)

/-- There is one ascending order. -/
theorem Ascending.eq_of_perm (h : Ascending named) (h' : Ascending sorted)
    (hperm : named.Perm sorted) : named = sorted :=
  hperm.eq_of_pairwise (fun _ _ _ _ hlt hgt => absurd hlt (not_lt_of_gt hgt)) h h'

end Entries

namespace Value

open Entries Outcome

section

variable {α : Type} {before : α → α → Outcome Bool} {x : α} {xs ys : List α}

theorem perm_of_insertSorted (h : insertSorted before x xs = .ok ys) : ys.Perm (x :: xs) := by
  induction xs generalizing ys with
  | nil => exact Except.ok.inj h ▸ .rfl
  | cons y xs ih =>
    obtain ⟨b, -, h⟩ := bind_eq_ok.mp h
    cases b with
    | true => exact Except.ok.inj h ▸ .rfl
    | false =>
      obtain ⟨rest, hrest, h⟩ := bind_eq_ok.mp h
      exact Except.ok.inj h ▸ ((ih hrest).cons y).trans (.swap x y xs)

/-- Sorting that succeeds keeps all that was there. -/
theorem perm_of_sortedBy (h : sortedBy before xs = .ok ys) : ys.Perm xs := by
  have hfold : ∀ done ys, xs.foldlM (fun done x => insertSorted before x done) done = .ok ys →
      ys.Perm (done ++ xs) := by
    clear h
    induction xs with
    | nil =>
      intro done ys h
      rw [List.append_nil]
      exact Except.ok.inj h ▸ .rfl
    | cons x xs ih =>
      intro done ys h
      rw [List.foldlM_cons] at h
      obtain ⟨done', hinsert, h⟩ := bind_eq_ok.mp h
      have hperm := (perm_of_insertSorted hinsert).append_right xs
      exact (ih done' ys h).trans (hperm.trans List.perm_middle.symm)
  exact hfold [] ys h

theorem insertSorted_map {β : Type} {f : β → α} {before' : β → β → Outcome Bool}
    (h : ∀ b b', before (f b) (f b') = before' b b') (b : β) (bs : List β) :
    insertSorted before (f b) (bs.map f) = (insertSorted before' b bs).map (List.map f) := by
  induction bs with
  | nil => rfl
  | cons b' bs ih =>
    rw [List.map_cons, insertSorted, insertSorted, h, ih]
    cases before' b b' with
    | error x => rfl
    | ok first => cases first <;> cases insertSorted before' b bs <;> rfl

/-- What stands for some values is sorted as they are. -/
theorem sortedBy_map {β : Type} {f : β → α} {before' : β → β → Outcome Bool}
    (h : ∀ b b', before (f b) (f b') = before' b b') (bs : List β) :
    sortedBy before (bs.map f) = (sortedBy before' bs).map (List.map f) := by
  have hfold : ∀ done : List β,
      (bs.map f).foldlM (fun done x => insertSorted before x done) (done.map f) =
        (bs.foldlM (fun done b => insertSorted before' b done) done).map (List.map f) := by
    induction bs with
    | nil => exact fun done => rfl
    | cons b bs ih =>
      intro done
      rw [List.map_cons, List.foldlM_cons, List.foldlM_cons, insertSorted_map h]
      cases insertSorted before' b done with
      | error x => rfl
      | ok done => exact ih done
  exact hfold []

end

variable {ν : Type}

/-- Sorting by keys, for names: inserting goes by the names. -/
theorem insertSorted_keyed (e : Spelling × ν) (named : List (Spelling × ν)) :
    insertSorted (fun a b : Value × ν => a.1.less b.1) (.text e.1, e.2) (keyed named) =
      .ok (keyed (named.orderedInsert (fun a b => a.1 < b.1) e)) := by
  induction named with
  | nil => rfl
  | cons e' named ih =>
    by_cases hlt : e.1 < e'.1
    · rw [List.orderedInsert_cons, if_pos hlt]
      simp only [keyed_cons, insertSorted, less, decide_eq_true hlt]
      rfl
    · rw [List.orderedInsert_cons, if_neg hlt]
      simp only [keyed_cons, insertSorted, less, decide_eq_false hlt, ih]
      rfl

theorem pairwise_orderedInsert (e : Spelling × ν) {named : List (Spelling × ν)}
    (h : named.Pairwise fun e e' => e.1 ≤ e'.1) :
    (named.orderedInsert (fun a b => a.1 < b.1) e).Pairwise fun e e' => e.1 ≤ e'.1 := by
  induction named with
  | nil => exact List.pairwise_singleton _ _
  | cons e' named ih =>
    obtain ⟨hfirst, hrest⟩ := List.pairwise_cons.mp h
    rw [List.orderedInsert_cons]
    split
    next hlt =>
      refine List.pairwise_cons.mpr ⟨?_, h⟩
      intro e'' he''
      rcases List.mem_cons.mp he'' with rfl | hmem
      · exact le_of_lt hlt
      · exact (le_of_lt hlt).trans (hfirst e'' hmem)
    next hge =>
      refine List.pairwise_cons.mpr ⟨?_, ih hrest⟩
      intro e'' he''
      rcases (List.mem_orderedInsert _).mp he'' with rfl | hmem
      · exact not_lt.mp hge
      · exact hfirst e'' hmem

/-- **Sorting by names** succeeds; it brings the entries in order and keeps them all. -/
theorem exists_sortedBy_keyed (named : List (Spelling × ν)) :
    ∃ sorted, sortedBy (fun a b : Value × ν => a.1.less b.1) (keyed named) = .ok (keyed sorted) ∧
      sorted.Perm named ∧ sorted.Pairwise fun e e' => e.1 ≤ e'.1 := by
  -- what was inserted before comes first, and is in order
  have hfold : ∀ done : List (Spelling × ν), (done.Pairwise fun e e' => e.1 ≤ e'.1) →
      ∃ sorted, (keyed named).foldlM
          (fun done x => insertSorted (fun a b : Value × ν => a.1.less b.1) x done) (keyed done) =
          .ok (keyed sorted) ∧
        sorted.Perm (done ++ named) ∧ sorted.Pairwise fun e e' => e.1 ≤ e'.1 := by
    induction named with
    | nil => exact fun done hdone => ⟨done, rfl, by rw [List.append_nil], hdone⟩
    | cons e named ih =>
      intro done hdone
      obtain ⟨sorted, hsorted, hperm, hpairwise⟩ := ih _ (pairwise_orderedInsert e hdone)
      refine ⟨sorted, ?_, ?_, hpairwise⟩
      · rw [keyed_cons, List.foldlM_cons, insertSorted_keyed]
        exact hsorted
      · have hinsert := List.perm_orderedInsert (fun a b : Spelling × ν => a.1 < b.1) e done
        exact hperm.trans ((hinsert.append_right named).trans List.perm_middle.symm)
  exact hfold [] .nil

theorem ascending_of_nodup {sorted : List (Spelling × ν)}
    (h : sorted.Pairwise fun e e' => e.1 ≤ e'.1) (hnodup : (sorted.map (·.1)).Nodup) :
    Ascending sorted :=
  (h.and (List.pairwise_map.mp hnodup)).imp fun h => lt_of_le_of_ne h.1 h.2

/-- Distinct names are sorted into strictly ascending ones. -/
theorem exists_sortedBy {entries : OrderedMap Value ν} (h : Named entries) :
    ∃ sorted, sortedBy (fun a b => a.1.less b.1) entries = .ok (keyed sorted) ∧
      (keyed sorted).Perm entries ∧ Ascending sorted := by
  obtain ⟨named, rfl⟩ := h.exists_keyed
  obtain ⟨sorted, hsorted, hperm, hpairwise⟩ := exists_sortedBy_keyed named
  have hnodup : (sorted.map (·.1)).Nodup :=
    (hperm.map _).nodup_iff.mpr (named_keyed.mp h)
  exact ⟨sorted, hsorted, hperm.map _, ascending_of_nodup hpairwise hnodup⟩

end Value

end DocTable
