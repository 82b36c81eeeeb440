import DocTable.Proofs.Json.Nesting
import DocTable.Proofs.Token.Forms
import DocTable.Proofs.Value.Parts

/-! Reading attribute values of limited nesting. What is read under a limit is what is read without
one, and attribute values that are within the limit are always read. -/

namespace DocTable

open Entries Outcome

namespace Attr

mutual

/-- How many attribute values stand in one another at most. -/
def height : Attr → Nat
  | list items => itemsHeight items + 1
  | map entries => entriesHeight entries + 1
  | _ => 1

def itemsHeight : List Attr → Nat
  | [] => 0
  | a :: rest => max (height a) (itemsHeight rest)

def entriesHeight : List (Spelling × Attr) → Nat
  | [] => 0
  | (_, a) :: rest => max (height a) (entriesHeight rest)

end

variable {bytesOf : ByteReader} {limit : Option Nat} {n : Nat} {a : Attr} {v : Value}

theorem itemsHeight_le_iff {items : List Attr} :
    itemsHeight items ≤ n ↔ ∀ a ∈ items, a.height ≤ n := by
  induction items with
  | nil => simp [itemsHeight]
  | cons a items ih => simp [itemsHeight, ih]

theorem entriesHeight_le_iff {entries : List (Spelling × Attr)} :
    entriesHeight entries ≤ n ↔ ∀ e ∈ entries, e.2.height ≤ n := by
  induction entries with
  | nil => simp [entriesHeight]
  | cons e entries ih => simp [entriesHeight, ih]

/-! ## Under a limit -/

/-- Entries that are read: sorted first, and then read one by one. -/
theorem sortedAttrs_readEntries_eq (limit : Option Nat) (bytesOf : ByteReader) (entries : Entries) :
    sortedAttrs (readEntries limit bytesOf entries) =
      Value.sortedBy (fun a b => a.1.less b.1) entries >>= fun sorted =>
        (sorted.mapM fun e => do return (← e.1.spelled, ← read limit bytesOf e.2)) >>= fun attrs =>
          .ok (OrderedMap.ofList attrs) := by
  have hsorted : Value.sortedBy (fun a b => a.1.less b.1)
      (entries.map (Prod.map id (read limit bytesOf))) =
        (Value.sortedBy (fun a b : Value × Value => a.1.less b.1) entries).map
          (List.map (Prod.map id (read limit bytesOf))) :=
    Value.sortedBy_map (fun _ _ => rfl) entries
  rw [readEntries_eq, sortedAttrs, hsorted]
  cases Value.sortedBy (fun a b => a.1.less b.1) entries with
  | error f => rfl
  | ok sorted =>
    show (List.mapM _ (sorted.map (Prod.map id (read limit bytesOf))) >>= _ : Outcome _) = _
    rw [List.mapM_map]
    rfl

theorem limited_sortedAttrs {most : Nat} {entries : Entries}
    (h : ∀ e ∈ entries, Json.Limited limit most (fun n a => a.height ≤ n)
      (read limit bytesOf e.2) (read none bytesOf e.2)) :
    Json.Limited limit most (fun n attrs => ∀ r ∈ attrs, r.2.height ≤ n)
      (sortedAttrs (readEntries limit bytesOf entries))
      (sortedAttrs (readEntries none bytesOf entries)) := by
  rw [sortedAttrs_readEntries_eq, sortedAttrs_readEntries_eq]
  cases hsorted : Value.sortedBy (fun a b => a.1.less b.1) entries with
  | error f => exact .error f
  | ok sorted =>
    have hperm := Value.perm_of_sortedBy hsorted
    have hmapM : Json.Limited limit most (fun n attrs => ∀ r ∈ attrs, r.2.height ≤ n)
        (sorted.mapM fun e => do return (← e.1.spelled, ← read limit bytesOf e.2))
        (sorted.mapM fun e => do return (← e.1.spelled, ← read none bytesOf e.2)) := by
      refine Json.Limited.mapM fun e he => ?_
      cases e.1.spelled with
      | error f => exact .error f
      | ok name => exact (h e (hperm.subset he)).bind fun a ha ha' => .ok ha ha'
    refine hmapM.bind fun attrs hattrs hattrs' => .ok ?_ fun n hn => ?_
    · exact fun r hr => hattrs r (OrderedMap.mem_of_mem_ofList hr)
    · exact fun r hr => hattrs' n hn r (OrderedMap.mem_of_mem_ofList hr)

theorem limited_readMap {most : Nat} {entries : Entries}
    (h : ∀ e ∈ entries, Json.Limited limit most (fun n a => a.height ≤ n)
      (read limit bytesOf e.2) (read none bytesOf e.2)) :
    Json.Limited limit most (fun n a => a.height ≤ n + 1)
      (readMap limit bytesOf (.map entries)) (readMap none bytesOf (.map entries)) := by
  rw [readMap, readMap]
  exact (limited_sortedAttrs h).bind fun attrs hattrs hattrs' =>
    .ok (Nat.succ_le_succ (entriesHeight_le_iff.mpr hattrs)) fun n hn =>
      Nat.succ_le_succ (entriesHeight_le_iff.mpr (hattrs' n hn))

theorem limited_readList {most : Nat} {items : List Value}
    (h : ∀ v ∈ items, Json.Limited limit most (fun n a => a.height ≤ n)
      (read limit bytesOf v) (read none bytesOf v)) :
    Json.Limited limit most (fun n a => a.height ≤ n + 1)
      (readList limit bytesOf (.list items)) (readList none bytesOf (.list items)) := by
  rw [readList, readList, readItems_eq, readItems_eq]
  exact (Json.Limited.mapM h).bind fun attrs hattrs hattrs' =>
    .ok (Nat.succ_le_succ (itemsHeight_le_iff.mpr hattrs)) fun n hn =>
      Nat.succ_le_succ (itemsHeight_le_iff.mpr (hattrs' n hn))

theorem height_le_of_flat {o : Outcome Attr} (h : ∀ a, o = .ok a → a.height = 1) :
    ∀ n a, o = .ok a → a.height ≤ n + 1 :=
  fun n a ha => (h a ha).le.trans (Nat.le_add_left 1 n)

/-- An attribute value is one level, and what its kind says of the payload is further in. -/
theorem limited_read_single {k payload : Value} {most : Nat}
    (hlist : ∀ inner, Json.Limited inner most (fun n a => a.height ≤ n + 1)
      (readList inner bytesOf payload) (readList none bytesOf payload))
    (hmap : ∀ inner, Json.Limited inner most (fun n a => a.height ≤ n + 1)
      (readMap inner bytesOf payload) (readMap none bytesOf payload)) (limit : Option Nat) :
    Json.Limited limit (most + 1) (fun n a => a.height ≤ n)
      (read limit bytesOf (.map [(k, payload)])) (read none bytesOf (.map [(k, payload)])) := by
  rw [read.eq_def, read.eq_def none]
  refine Json.Limited.deeper (fun inner => (?_ : Json.Limited inner most
    (fun n (a : Attr) => a.height ≤ n + 1) _ _)) fun _ _ h => h
  dsimp only
  cases k.plainText with
  | error f => exact .error f
  | ok code =>
    rw [ok_bind, ok_bind]
    cases Tag.ofCode? code with
    | none => exact .error _
    | some t =>
      cases t with
      | list => exact hlist inner
      | map => exact hmap inner
      | text | number | bool | null =>
        refine .flat (height_le_of_flat fun a ha => ?_)
        dsimp only at ha
        split at ha
        next => exact Except.ok.inj ha ▸ rfl
        next => cases ha
      | texts | numbers | bytes =>
        refine .flat (height_le_of_flat fun a ha => ?_)
        obtain ⟨_, -, hread⟩ := bind_eq_ok.mp ha
        exact Except.ok.inj hread ▸ rfl
      | byteSets =>
        refine .flat (height_le_of_flat fun a ha => ?_)
        dsimp only at ha
        split at ha
        next =>
          obtain ⟨_, -, hread⟩ := bind_eq_ok.mp ha
          exact Except.ok.inj hread ▸ rfl
        next => cases ha

/-- What stands under a limit is looked into in three ways, depending on the kind that is told
around it. Two levels of lists and maps make one of attribute values. -/
theorem limited_read (bytesOf : ByteReader) (v : Value) :
    (∀ limit, Json.Limited limit (v.height / 2 + 1) (fun n a => a.height ≤ n)
      (read limit bytesOf v) (read none bytesOf v)) ∧
    (∀ limit, Json.Limited limit ((v.height + 1) / 2) (fun n a => a.height ≤ n + 1)
      (readList limit bytesOf v) (readList none bytesOf v)) ∧
    ∀ limit, Json.Limited limit ((v.height + 1) / 2) (fun n a => a.height ≤ n + 1)
      (readMap limit bytesOf v) (readMap none bytesOf v) := by
  have hother : ∀ {most limit}, Json.Limited limit (most + 1) (fun n (a : Attr) => a.height ≤ n)
      (deeper limit >>= fun _ => throw (.token .singleKey))
      (deeper none >>= fun _ => throw (.token .singleKey)) :=
    Json.Limited.deeper (fun inner => (.error _ : Json.Limited inner _
      (fun n (a : Attr) => a.height ≤ n + 1) _ _)) fun _ _ h => h
  induction v using Value.byParts with
  | list items ih =>
    refine ⟨fun _ => hother, fun limit => ?_, fun _ => .error _⟩
    have hmost : ((Value.list items).height + 1) / 2 = Value.itemsHeight items / 2 + 1 := by
      rw [Value.height]
      omega
    rw [hmost]
    refine limited_readList fun v hv => ((ih v hv).1 limit).mono ?_ fun a ha => ha.trans ?_
    all_goals
      have hheight := Value.itemsHeight_le_iff.mp (Nat.le_refl _) v hv
      omega
  | map entries ih =>
    refine ⟨fun limit => ?_, fun _ => .error _, fun limit => ?_⟩
    · match entries, ih with
      | [], _ | _ :: _ :: _, _ => exact hother
      | [(k, payload)], ih =>
        obtain ⟨-, hlist, hmap⟩ := ih _ List.mem_cons_self
        have hmost : (Value.map [(k, payload)]).height / 2 + 1 = (payload.height + 1) / 2 + 1 := by
          simp [Value.height, Value.entriesHeight]
        rw [hmost]
        exact limited_read_single hlist hmap limit
    · have hmost : ((Value.map entries).height + 1) / 2 = Value.entriesHeight entries / 2 + 1 := by
        rw [Value.height]
        omega
      rw [hmost]
      refine limited_readMap fun e he => ((ih e he).1 limit).mono ?_ fun a ha => ha.trans ?_
      all_goals
        have hheight := Value.entriesHeight_le_iff.mp (Nat.le_refl _) e he
        omega
  | _ => exact ⟨fun _ => hother, fun _ => .error _, fun _ => .error _⟩

/-! ## Within the limit -/

theorem read_single_of_deeper {t : Tag} {payload : Value} {inner : Option Nat}
    (h : deeper limit = .ok inner) :
    read limit bytesOf (single t payload) =
      match t with
      | .list => readList inner bytesOf payload
      | .map => readMap inner bytesOf payload
      | _ => read none bytesOf (single t payload) := by
  rw [single, read.eq_def, read.eq_def none, h]
  simp only [deeper, ok_bind, Value.plainText_text, Spelling.mended_plain, Tag.ofCode?_code]
  cases t <;> rfl

/-- Entries are read under a limit as they are without one, if that is so for each of them. -/
theorem sortedAttrs_readEntries_of_forall {entries : Entries} {attrs : List (Spelling × Attr)}
    (hnames : Named entries) (hheld : EntriesHeld bytesOf entries attrs)
    (h : ∀ e ∈ entries, ∀ r ∈ attrs, read none bytesOf e.2 = .ok r.2 →
      read limit bytesOf e.2 = .ok r.2) :
    sortedAttrs (readEntries limit bytesOf entries) = .ok attrs := by
  have hread : readEntries limit bytesOf entries = readEntries none bytesOf entries := by
    rw [readEntries_eq, readEntries_eq]
    refine List.map_congr_left fun e he => congrArg (Prod.mk e.1) ?_
    obtain ⟨r, hr, -, hread⟩ := hheld.exists_attr he
    exact (h e he r hr hread).trans hread.symm
  rw [hread, (sortedAttrs_readEntries hnames).mpr hheld]

/-- What stands no deeper than the limit is read as without it. -/
theorem read_of_allows (hv : Value.Tree Value.Simple v) (h : read none bytesOf v = .ok a)
    (hlimit : Json.Allows limit a.height) : read limit bytesOf v = .ok a := by
  have hleaf : ∀ v : Value, v.Simple → v.Simple := fun _ => id
  induction a using byParts generalizing v limit with
  | list items ih =>
    obtain ⟨p, rfl, vs, rfl, hvs⟩ := (read_eq_ok hv).mp h
    have ht := hv.of_mem_entries hleaf List.mem_cons_self
    obtain ⟨inner, hdeeper, hinner⟩ := hlimit.exists_deeper
    have hread : vs.map (read inner bytesOf) = vs.map (read none bytesOf) := by
      refine List.map_congr_left fun v hv => ?_
      obtain ⟨a, ha, hread⟩ := exists_of_mem_forall₂ hvs.flip hv
      have hle := itemsHeight_le_iff.mp le_rfl a ha
      exact (ih a ha (ht.of_mem_items hleaf hv) hread (hinner.mono hle)).trans hread.symm
    have hitems : vs.mapM (read inner bytesOf) = .ok items := by
      have hmapM := congrArg (List.mapM id) hread
      rw [List.mapM_map, List.mapM_map] at hmapM
      exact hmapM.trans (mapM_eq_ok.mpr hvs)
    rw [tag, read_single_of_deeper hdeeper]
    dsimp only
    rw [readList, readItems_eq, hitems]
    rfl
  | map entries ih =>
    obtain ⟨p, rfl, held, rfl, hheld⟩ := (read_eq_ok hv).mp h
    have ht := hv.of_mem_entries hleaf List.mem_cons_self
    obtain ⟨inner, hdeeper, hinner⟩ := hlimit.exists_deeper
    have hread : sortedAttrs (readEntries inner bytesOf held) = .ok entries := by
      refine sortedAttrs_readEntries_of_forall (ht.named hleaf) hheld fun e he r hr hread => ?_
      have hle := entriesHeight_le_iff.mp le_rfl r hr
      exact ih r hr (ht.of_mem_entries hleaf he) hread (hinner.mono hle)
    rw [tag, read_single_of_deeper hdeeper]
    dsimp only
    rw [readMap, hread]
    rfl
  | _ =>
    obtain ⟨p, rfl, -⟩ := (read_eq_ok hv).mp h
    have hone : Json.Allows limit (0 + 1) := hlimit
    obtain ⟨inner, hdeeper, -⟩ := hone.exists_deeper
    exact (read_single_of_deeper hdeeper).trans h

theorem sortedAttrs_of_allows {entries : Entries} {attrs : List (Spelling × Attr)}
    (hv : Value.Tree Value.Simple (.map entries)) (hheld : EntriesHeld bytesOf entries attrs)
    (hlimit : ∀ r ∈ attrs, Json.Allows limit r.2.height) :
    sortedAttrs (readEntries limit bytesOf entries) = .ok attrs :=
  sortedAttrs_readEntries_of_forall (hv.named fun _ => id) hheld fun _ he r hr hread =>
    read_of_allows (hv.of_mem_entries (fun _ => id) he) hread (hlimit r hr)

/-! ## Trees -/

theorem depth_single {name : String} {j : Json} :
    (Json.object [(name, j)]).depth = j.depth + 1 := by
  simp [Json.depth, Json.membersDepth]

theorem height_single {t : Tag} {payload : Value} :
    (single t payload).height = payload.height + 1 := by
  simp [single, Value.height, Value.entriesHeight]

theorem depth_flat {α : Type} {f : α → Json} (h : ∀ b, (f b).depth = 0) (bs : List α) :
    (Json.array (bs.map f)).depth ≤ 1 :=
  Nat.succ_le_succ (Json.itemsDepth_le_iff.mpr (List.forall_mem_map.mpr fun b _ => (h b).le))

/-- The tree for what is read of a value is no deeper than the value. -/
theorem depth_toJson_le (hv : Value.Tree Value.Simple v) (h : read none bytesOf v = .ok a) :
    a.toJson.depth ≤ v.height := by
  have hleaf : ∀ v : Value, v.Simple → v.Simple := fun _ => id
  induction a using byParts generalizing v with
  | text | number | bytes | bool | null =>
    obtain ⟨p, rfl, -⟩ := (read_eq_ok hv).mp h
    rw [toJson, depth_single, height_single]
    exact Nat.succ_le_succ (Nat.zero_le _)
  | texts ss | numbers ss =>
    obtain ⟨p, rfl, rfl⟩ := (read_eq_ok hv).mp h
    rw [toJson, depth_single, height_single, Value.height]
    exact Nat.succ_le_succ ((depth_flat (fun _ => rfl) ss).trans (Nat.le_add_left 1 _))
  | byteSets bs =>
    obtain ⟨p, rfl, items, rfl, -⟩ := (read_eq_ok hv).mp h
    rw [toJson, depth_single, height_single, Value.height]
    exact Nat.succ_le_succ ((depth_flat (fun _ => rfl) bs).trans (Nat.le_add_left 1 _))
  | list items ih =>
    obtain ⟨p, rfl, vs, rfl, hvs⟩ := (read_eq_ok hv).mp h
    have ht := hv.of_mem_entries hleaf List.mem_cons_self
    rw [toJson, depth_single, height_single, toJsons_eq]
    refine Nat.succ_le_succ (Nat.succ_le_succ (Json.itemsDepth_le_iff.mpr ?_))
    refine List.forall_mem_map.mpr fun a ha => ?_
    obtain ⟨v, hmem, hread⟩ := exists_of_mem_forall₂ hvs ha
    exact (ih a ha (ht.of_mem_items hleaf hmem) hread).trans
      (Value.itemsHeight_le_iff.mp le_rfl v hmem)
  | map entries ih =>
    obtain ⟨p, rfl, held, rfl, hheld⟩ := (read_eq_ok hv).mp h
    have ht := hv.of_mem_entries hleaf List.mem_cons_self
    rw [toJson, depth_single, height_single, toMembers_eq]
    refine Nat.succ_le_succ (Nat.succ_le_succ (Json.membersDepth_le_iff.mpr ?_))
    refine List.forall_mem_map.mpr fun r hr => ?_
    obtain ⟨e, he, -, hread⟩ := hheld.exists_entry hr
    exact (ih r hr (ht.of_mem_entries hleaf he) hread).trans
      (Value.entriesHeight_le_iff.mp le_rfl e he)

end Attr

namespace KeyToken

open Attr

variable {limit : Option Nat} {limits : Nesting} {key : List (Spelling × Attr)} {v : Value}

theorem limited_keyOf (v : Value) (limit : Option Nat) :
    Json.Limited limit v.height (fun n key => ∀ r ∈ key, r.2.height ≤ n) (keyOf v limit)
      (keyOf v) := by
  unfold keyOf
  split
  next entries =>
    split
    next e rest hfind =>
      obtain ⟨k, -, hmem⟩ := OrderedMap.exists_mem_of_find? hfind
      refine limited_sortedAttrs fun e' he' => ?_
      have hentry := Value.entriesHeight_le_iff.mp (Nat.le_refl _) _ hmem
      have hvalue := Value.entriesHeight_le_iff.mp (Nat.le_refl _) e' he'
      dsimp only [Value.height] at hentry ⊢
      exact ((limited_read portableBytes e'.2).1 limit).mono (by omega) fun a ha => by omega
    next => exact .error _
  next => exact .error _

theorem keyOf_of_allows (hv : Value.Tree Value.Simple v) (h : keyOf v = .ok key)
    (hlimit : ∀ r ∈ key, Json.Allows limit r.2.height) : keyOf v limit = .ok key := by
  obtain ⟨_, _, held, -, -, htree, hheld, hkeyOf⟩ := exists_held hv h
  rw [hkeyOf, sortedAttrs_of_allows htree hheld hlimit]

/-- What a tree holds as a key is as deep as the tree at most. -/
theorem depth_treeOf_le (hv : Value.Tree Value.Simple v) (h : keyOf v = .ok key) :
    (treeOf key).depth ≤ v.height := by
  obtain ⟨entries, k, held, rfl, hmem, htree, hheld, -⟩ := exists_held hv h
  have hentry := Value.entriesHeight_le_iff.mp (Nat.le_refl _) _ hmem
  rw [treeOf, depth_single, toMembers_eq]
  refine Nat.succ_le_succ (Nat.le_trans (Nat.succ_le_succ ?_) hentry)
  refine Json.membersDepth_le_iff.mpr (List.forall_mem_map.mpr fun r hr => ?_)
  obtain ⟨e, he, -, hread⟩ := hheld.exists_entry hr
  exact (depth_toJson_le (htree.of_mem_entries (fun _ => id) he) hread).trans
    (Value.entriesHeight_le_iff.mp le_rfl e he)

/-- Whether both limits leave room for some depth. -/
structure Nesting.Allow (limits : Nesting) (depth : Nat) : Prop where
  text : Json.Allows limits.text depth
  values : Json.Allows limits.values depth

/-- Under limits a text holds what it holds without them, and that is within the limits; or one of
them ends the decoding, and is not above the length of the text. -/
theorem limited_keyIn (text : String) (limits : Nesting) :
    (keyIn text limits = .error .endless ∧ ¬ limits.Allow (text.length + 1)) ∨
      keyIn text limits = keyIn text {} ∧ ∀ k, keyIn text {} = .ok k →
        ∃ (j : Json) (key : List (Spelling × Attr)), k = .map (toEntries key) ∧
          keyOf j.toValue = .ok key ∧ Json.Allows limits.text j.depth ∧
          ∀ r ∈ key, Json.Allows limits.values r.2.height := by
  rw [keyIn, keyIn]
  rcases Json.limited_parse text limits.text with ⟨hparse, hsmall⟩ | ⟨hparse, hdepth⟩
  · exact .inl ⟨hparse ▸ rfl, fun hallow => hsmall hallow.text⟩
  rw [hparse] at hdepth ⊢
  cases htext : Json.parse text with
  | error f => exact .inr ⟨rfl, nofun⟩
  | ok j =>
    obtain ⟨hlength, htextLimit⟩ := hdepth j htext
    have hheight := (Json.height_toValue j).trans hlength
    rw [ok_bind, ok_bind]
    rcases limited_keyOf j.toValue limits.values with ⟨hkey, hsmall⟩ | ⟨hkey, hheights⟩
    · exact .inl ⟨hkey ▸ rfl, fun hallow => hsmall (hallow.values.mono hheight)⟩
    rw [hkey] at hheights ⊢
    refine .inr ⟨rfl, fun k hk => ?_⟩
    obtain ⟨key, hread, hk⟩ := bind_eq_ok.mp hk
    obtain ⟨-, hwithin⟩ := hheights key hread
    exact ⟨j, key, (Except.ok.inj hk).symm, hread, htextLimit, fun r hr n hn => hwithin n hn r hr⟩

end KeyToken

end DocTable
