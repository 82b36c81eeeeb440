import DocTable.Proofs.Json.Joined
import DocTable.Proofs.Json.RoundTrip
import DocTable.Proofs.Json.Values
import DocTable.Proofs.Outcome
import DocTable.Proofs.Value.Parts
import DocTable.Proofs.Value.Restored
import DocTable.Stored.Reading
import Mathlib.Data.Set.List

/-! Values that have a text in the JSON format, and what is read from it: the value again, but for
the order of the entries of maps, since these are written by ascending names, and but for halves of
pairs that follow each other, since these are read as one code point. -/

namespace DocTable

open Entries Outcome

namespace Json

/-- What the leaves of trees are that can be written and read. -/
inductive Leaf : Value → Prop where
  | null : Leaf .null
  | bool (b : Bool) : Leaf (.bool b)
  | int {n : Int} (h : digitCount n.natAbs ≤ Text.digitLimit) : Leaf (.int n)
  | text (s : Spelling) : Leaf (.text s)

variable {v : Value}

theorem Leaf.simple (h : Leaf v) : v.Simple := by
  cases h <;> trivial

theorem Leaf.same_self (h : Leaf v) : v.same v = true := by
  cases h <;> simp [Value.same, Value.sameAtom]

/-! ## Writing -/

theorem ofEntries_eq (entries : Entries) :
    ofEntries entries = entries.map (Prod.map id ofValue) := by
  induction entries with
  | nil => rfl
  | cons e entries ih => rw [ofEntries, ih, List.map_cons, Prod.map, id]

theorem ofItems_eq (items : List Value) : ofItems items = items.mapM ofValue := by
  induction items with
  | nil => rfl
  | cons v items ih => rw [ofItems, ih, List.mapM_cons]

/-- A member of an object is the tree of an entry, under the name of its key. -/
theorem exists_of_mem_sortedMembers {entries : Entries} {members : List (Spelling × Json)}
    (h : sortedMembers (ofEntries entries) = .ok members) {m : Spelling × Json} (hm : m ∈ members) :
    ∃ e ∈ entries, nameOf e.1 = .ok m.1 ∧ ofValue e.2 = .ok m.2 := by
  obtain ⟨sorted, hsorted, hmembers⟩ := bind_eq_ok.mp h
  obtain ⟨e, he, hstep⟩ := exists_of_mem_forall₂ (mapM_eq_ok.mp hmembers) hm
  have hmem := (Value.perm_of_sortedBy hsorted).subset he
  rw [ofEntries_eq] at hmem
  obtain ⟨e', he', rfl⟩ := List.mem_map.mp hmem
  obtain ⟨name, hname, hstep⟩ := bind_eq_ok.mp hstep
  obtain ⟨j, hj, hstep⟩ := bind_eq_ok.mp hstep
  exact Except.ok.inj hstep ▸ ⟨e', he', hname, hj⟩

/-- **The tree of a value** can be read back from its text. -/
theorem readable_of_ofValue {j : Json} (h : ofValue v = .ok j) : j.Readable := by
  induction v using Value.byParts generalizing j with
  | null => exact Except.ok.inj h ▸ .null
  | bool b => exact Except.ok.inj h ▸ .bool b
  | int n =>
    rw [ofValue, ofInt] at h
    split at h
    next => cases h
    next hlimit => exact Except.ok.inj h ▸ .int (Nat.not_lt.mp hlimit)
  | float x => exact Except.ok.inj h ▸ .float x
  | text s => exact Except.ok.inj h ▸ .text s
  | list items ih | tuple items ih =>
    obtain ⟨js, hjs, h⟩ := bind_eq_ok.mp h
    rw [ofItems_eq, mapM_eq_ok] at hjs
    refine Except.ok.inj h ▸ .array fun j hj => ?_
    obtain ⟨v, hv, hvalue⟩ := exists_of_mem_forall₂ hjs hj
    exact ih v hv hvalue
  | map entries ih =>
    obtain ⟨members, hmembers, h⟩ := bind_eq_ok.mp h
    refine Except.ok.inj h ▸ .object fun m hm => ?_
    obtain ⟨e, he, -, hvalue⟩ := exists_of_mem_sortedMembers hmembers hm
    exact ih e he hvalue
  | _ => cases h

theorem exists_sortedMembers {entries : List (Value × Outcome Json)} (h : Named entries)
    (hok : ∀ e ∈ entries, ∃ j, e.2 = .ok j) :
    ∃ members, sortedMembers entries = .ok members ∧ (members.map (·.1)).Nodup ∧
      (keyed (members.map (Prod.map id .ok))).Perm entries := by
  obtain ⟨sorted, hsorted, hperm, hascending⟩ := Value.exists_sortedBy h
  obtain ⟨members, rfl⟩ : ∃ members : List (Spelling × Json),
      members.map (Prod.map id .ok) = sorted := by
    have hrange : sorted ∈ Set.range (List.map (Prod.map id Except.ok)) := by
      rw [Set.range_list_map]
      intro e he
      obtain ⟨j, hj⟩ := hok _ (hperm.subset (List.mem_map_of_mem he))
      exact ⟨(e.1, j), Prod.ext rfl hj.symm⟩
    exact hrange
  refine ⟨members, ?_, by simpa [Function.comp_def] using hascending.nodup, hperm⟩
  rw [sortedMembers, hsorted]
  refine mapM_eq_ok.mpr ?_
  rw [keyed, List.forall₂_map_left_iff, List.forall₂_map_left_iff, List.forall₂_same]
  exact fun m _ => rfl

/-- **A tree** has a text that is read as the same tree, the order of entries apart. -/
theorem exists_ofValue (hv : Value.Tree Leaf v) :
    ∃ j, ofValue v = .ok j ∧ j.Readable ∧ j.toValue.Restores List.Perm v := by
  induction hv with
  | leaf h =>
    cases h with
    | null => exact ⟨_, rfl, .null, .refl _⟩
    | bool b => exact ⟨_, rfl, .bool b, .refl _⟩
    | int h => exact ⟨_, if_neg (Nat.not_lt.mpr h), .int h, .refl _⟩
    | text s => exact ⟨_, rfl, .text s, .refl _⟩
  | @list items _ ih =>
    obtain ⟨js, hjs⟩ := exists_forall₂ ih
    have hitems : ofItems items = .ok js := by
      rw [ofItems_eq, mapM_eq_ok]
      exact hjs.imp fun _ _ h => h.1
    refine ⟨array js, ?_, .array fun j hj => ?_, ?_⟩
    · rw [ofValue, hitems]
      rfl
    · obtain ⟨v, -, -, hreadable, -⟩ := exists_of_mem_forall₂ hjs hj
      exact hreadable
    · rw [toValue, toValues_eq]
      exact .list (List.forall₂_map_left_iff.mpr (hjs.flip.imp fun _ _ h => h.2.2))
  | @map entries hnames _ ih =>
    have hok : ∀ e ∈ ofEntries entries, ∃ j, e.2 = .ok j := by
      rw [ofEntries_eq, List.forall_mem_map]
      exact fun e he => (ih e he).imp fun j h => h.1
    obtain ⟨members, hmembers, hnodup, hperm⟩ :=
      exists_sortedMembers (ofEntries_eq entries ▸ hnames.map ofValue) hok
    rw [ofEntries_eq] at hperm
    -- each member stands for the entry under its name
    have hentry : ∀ m ∈ members, ∃ e ∈ entries, e.1 = .text m.1 ∧ ofValue e.2 = .ok m.2 := by
      intro m hm
      have hmem : (Value.text m.1, Except.ok m.2) ∈ entries.map (Prod.map id ofValue) :=
        hperm.subset (List.mem_map_of_mem (List.mem_map_of_mem hm))
      obtain ⟨e, he, heq⟩ := List.mem_map.mp hmem
      exact ⟨e, he, congrArg Prod.fst heq, congrArg Prod.snd heq⟩
    refine ⟨object members, ?_, .object fun m hm => ?_, ?_⟩
    · rw [ofValue, hmembers]
      rfl
    · obtain ⟨e, he, -, hm⟩ := hentry m hm
      obtain ⟨j, hj, hreadable, -⟩ := ih e he
      exact Except.ok.inj (hj.symm.trans hm) ▸ hreadable
    · rw [toValue, toEntries_of_nodup hnodup]
      refine .map ?_ fun e' he' e he hkey => ?_
      · have hkeys := hperm.map Prod.fst
        simpa [keyed, Function.comp_def] using hkeys
      · obtain ⟨e'', he'', rfl⟩ := List.mem_map.mp he'
        obtain ⟨m, hm, rfl⟩ := List.mem_map.mp he''
        obtain ⟨e₁, he₁, hkey₁, hm⟩ := hentry m hm
        obtain rfl := hnames.eq_of_mem he he₁ (hkey.symm.trans hkey₁.symm)
        obtain ⟨j, hj, -, hrestores⟩ := ih e he
        obtain rfl := Except.ok.inj (hj.symm.trans hm)
        exact hrestores

theorem eq_null_of_ofValue (h : ofValue v = .ok .null) : v = .null := by
  cases v with
  | null => rfl
  | int n =>
    rw [ofValue, ofInt] at h
    split at h <;> cases h
  | list items | tuple items | map entries =>
    obtain ⟨_, -, h⟩ := bind_eq_ok.mp h
    cases h
  | _ => cases h

/-! ## Halves of pairs -/

theorem unpaired_of_ofValue {j : Json} (hv : Value.Tree Leaf v) (hpairs : v.Unpaired)
    (h : ofValue v = .ok j) : j.Unpaired := by
  induction hv generalizing j with
  | leaf hv =>
    cases hv with
    | null => exact Except.ok.inj h ▸ .null
    | bool b => exact Except.ok.inj h ▸ .bool b
    | @int n hlimit =>
      rw [ofValue, ofInt, if_neg (Nat.not_lt.mpr hlimit)] at h
      exact Except.ok.inj h ▸ .int n
    | text s => exact Except.ok.inj h ▸ .text hpairs.of_text
  | @list items _ ih =>
    obtain ⟨js, hjs, h⟩ := bind_eq_ok.mp h
    rw [ofItems_eq, mapM_eq_ok] at hjs
    refine Except.ok.inj h ▸ .array fun j hj => ?_
    obtain ⟨v, hv, hvalue⟩ := exists_of_mem_forall₂ hjs hj
    exact ih v hv (hpairs.of_list v hv) hvalue
  | @map entries hnames _ ih =>
    obtain ⟨hkeys, hentries⟩ := hpairs.of_map
    obtain ⟨members, hmembers, h⟩ := bind_eq_ok.mp h
    refine Except.ok.inj h ▸ .object (fun m hm => ?_) fun m hm => ?_
    · obtain ⟨e, he, hname, -⟩ := exists_of_mem_sortedMembers hmembers hm
      obtain ⟨name, hkey⟩ := hnames.1 e he
      rw [hkey] at hname
      exact Except.ok.inj hname ▸ hkeys e he name hkey
    · obtain ⟨e, he, -, hvalue⟩ := exists_of_mem_sortedMembers hmembers hm
      exact ih e he (hentries e he) hvalue

theorem unpaired_toEntries {done : Entries} {members : List (Spelling × Json)}
    (hdone : (Value.map done).Unpaired) (hnames : ∀ m ∈ members, m.1.Unpaired)
    (hmembers : ∀ m ∈ members, m.2.toValue.Unpaired) :
    (Value.map (toEntries done members)).Unpaired := by
  induction members generalizing done with
  | nil => exact hdone
  | cons m members ih =>
    obtain ⟨hname, hnames⟩ := List.forall_mem_cons.mp hnames
    obtain ⟨hvalue, hmembers⟩ := List.forall_mem_cons.mp hmembers
    obtain ⟨hkeys, hentries⟩ := hdone.of_map
    refine ih (.map (fun e he s hs => ?_) fun e he => ?_) hnames hmembers
    · rcases mem_put he with hkey | ⟨e', he', hkey⟩
      · exact Value.text.inj (hkey.symm.trans hs) ▸ hname
      · exact hkeys e' he' s (hkey.trans hs)
    · rcases value_of_mem_put he with heq | hmem
      · exact heq ▸ hvalue
      · exact hentries e hmem

theorem Unpaired.toValue {j : Json} (h : j.Unpaired) : j.toValue.Unpaired := by
  induction h with
  | null | bool | int | float => exact .simple trivial nofun
  | text h => exact .simple trivial fun s hs => Value.text.inj hs ▸ h
  | @array items _ ih =>
    rw [Json.toValue, toValues_eq]
    exact .list (List.forall_mem_map.mpr ih)
  | object names _ ih =>
    exact unpaired_toEntries (.map (List.forall_mem_nil _) (List.forall_mem_nil _)) names ih

/-- A tree that is equal to a value without pairs has none. -/
theorem unpaired_of_same {u : Value} (hu : Value.Tree Value.Simple u) (hpairs : u.Unpaired)
    (hv : Value.Tree Leaf v) (h : u.same v = true) : v.Unpaired := by
  induction hv generalizing u with
  | leaf hv =>
    refine .simple hv.simple fun s hs => ?_
    subst hs
    obtain rfl := Value.beq_text.mp h
    exact hpairs.of_text
  | @list items _ ih =>
    obtain ⟨us, rfl⟩ : ∃ us, u = .list us := by
      cases u <;> simp [Value.same, Value.sameAtom, Value.number?] at h ⊢
    rw [Value.same, Value.sameItems_iff] at h
    refine .list fun v hv => ?_
    obtain ⟨u, hmem, hsame⟩ := exists_of_mem_forall₂ h hv
    exact ih v hv (hu.of_mem_items (fun _ => id) hmem) (hpairs.of_list u hmem) hsame
  | @map entries hnames _ ih =>
    obtain ⟨us, rfl⟩ : ∃ us, u = .map us := by
      cases u <;> simp [Value.same, Value.sameAtom, Value.number?] at h ⊢
    obtain ⟨hkeys, hus⟩ := hpairs.of_map
    have hnamesUs := hu.named fun _ => id
    obtain ⟨hlength, hmem⟩ := (Value.map_same_iff hnamesUs hnames).mp h
    -- as many different names, all of them names of the tree: there are no others
    have hsubset : OrderedMap.keys us ⊆ OrderedMap.keys entries := by
      refine List.forall_mem_map.mpr fun e he => ?_
      obtain ⟨e', he', hkey, -⟩ := hmem e he
      exact hkey ▸ List.mem_map_of_mem he'
    have hperm : (OrderedMap.keys us).Perm (OrderedMap.keys entries) :=
      (List.subperm_of_subset (named_iff_keys.mp hnamesUs).2 hsubset).perm_of_length_le
        (by simpa [OrderedMap.keys] using hlength.ge)
    have hback : ∀ e ∈ entries, ∃ e' ∈ us, e'.1 = e.1 ∧ e'.2.same e.2 = true := by
      intro e he
      obtain ⟨e', he', hkey⟩ := List.mem_map.mp (hperm.symm.subset (List.mem_map_of_mem he))
      obtain ⟨e'', he'', hkey', hsame⟩ := hmem e' he'
      obtain rfl := hnames.eq_of_mem he'' he (hkey'.trans hkey)
      exact ⟨e', he', hkey, hsame⟩
    refine .map (fun e he s hs => ?_) fun e he => ?_
    · obtain ⟨e', he', hkey, -⟩ := hback e he
      exact hkeys e' he' s (hkey.trans hs)
    · obtain ⟨e', he', -, hsame⟩ := hback e he
      exact ih e he (hu.of_mem_entries (fun _ => id) he') (hus e' he') hsame

/-- **What is read** of the text of a tree is equal to the tree exactly if it has no pairs. -/
theorem joined_same_iff {j : Json} (hv : Value.Tree Leaf v) (hj : ofValue v = .ok j) :
    j.joined.toValue.same v = true ↔ v.Unpaired := by
  refine ⟨unpaired_of_same (tree_toValue _) (unpaired_joined j).toValue hv, fun hpairs => ?_⟩
  obtain ⟨j', hj', -, hrestores⟩ := exists_ofValue hv
  obtain rfl := Except.ok.inj (hj.symm.trans hj')
  rw [(unpaired_of_ofValue hv hpairs hj).joined_eq]
  exact hv.same_of_restores (fun _ => Leaf.simple) (fun _ => Leaf.same_self) (fun _ _ => id)
    hrestores

/-- Such a tree holds no decimals. -/
theorem simplified_of_tree (hv : Value.Tree Leaf v) : v.simplified = .ok v := by
  induction hv with
  | leaf h => cases h <;> rfl
  | @list items htrees ih =>
    clear htrees
    have hitems : Value.simplifiedItems items = .ok items := by
      induction items with
      | nil => rfl
      | cons v items ih' =>
        obtain ⟨hv, hrest⟩ := List.forall_mem_cons.mp ih
        rw [Value.simplifiedItems, hv, ih' hrest]
        rfl
    rw [Value.simplified, hitems]
    rfl
  | @map entries hnames htrees ih =>
    clear hnames htrees
    have hentries : Value.simplifiedEntries entries = .ok entries := by
      induction entries with
      | nil => rfl
      | cons e entries ih' =>
        obtain ⟨hv, hrest⟩ := List.forall_mem_cons.mp ih
        rw [Value.simplifiedEntries, hv, ih' hrest]
        rfl
    rw [Value.simplified, hentries]
    rfl

end Json

end DocTable
