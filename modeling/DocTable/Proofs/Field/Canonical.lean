import DocTable.Proofs.Field.RoundTrip
import DocTable.Proofs.Json.Canonical

/-! What JSON fields store is canonical: comparing stored texts compares the values that they were
written for, whatever the order in which the entries of maps were put there. Only halves of pairs
that follow each other are not told from the code point that they are the units of. -/

namespace DocTable

open Outcome

namespace Definition

variable {d : Definition} {v w : Value}

/-- **A JSON field** without a converter writes trees, and the same for two of them if and only if
they are written as trees that are the same when halves of pairs are joined. So it does for two
that are the same but for the order of entries; for no others, if there are no pairs in them. -/
theorem encode_eq_iff_reordered (hjson : d.json = true) (hconverter : d.converter = none)
    (hv : Value.Tree Json.Leaf v) (hw : Value.Tree Json.Leaf w) (hvne : v ≠ .null)
    (hwne : w ≠ .null) :
    ∃ a b j j', d.encode v = .ok a ∧ d.encode w = .ok b ∧
      Json.ofValue v = .ok j ∧ Json.ofValue w = .ok j' ∧
      (a = b ↔ j.joined = j'.joined) ∧ (v.Reordered w → a = b) ∧
      (v.Unpaired → w.Unpaired → (a = b ↔ v.Reordered w)) := by
  have hencode : ∀ {u : Value} {j : Json}, Value.Tree Json.Leaf u → u ≠ .null →
      Json.ofValue u = .ok j → d.encode u = .ok (.text (j.render .ascii)) := by
    intro u j hu hne hj
    rw [encode_eq hne, hconverter]
    exact encodeHeld_of_json hjson hu hj
  obtain ⟨j, hj, hreadable, -⟩ := Json.exists_ofValue hv
  obtain ⟨j', hj', hreadable', -⟩ := Json.exists_ofValue hw
  have hiff : Attr.text (j.render .ascii) = .text (j'.render .ascii) ↔ j.joined = j'.joined := by
    rw [Attr.text.injEq, Spelling.plain.injEq]
    exact Json.render_eq_iff hreadable hreadable'
  refine ⟨_, _, j, j', hencode hv hvne hj, hencode hw hwne hj', hj, hj', hiff, fun h => ?_,
    fun hpairs hpairs' => hiff.trans (Json.joined_eq_iff hv hw hpairs hpairs' hj hj')⟩
  obtain rfl := Except.ok.inj (hj.symm.trans ((Json.ofValue_of_reordered hv h).trans hj'))
  exact hiff.mpr rfl

/-- A JSON field for places. -/
def places : Definition :=
  { fieldName := "places", storedName := "places", type := "S", json := true }

/-- A place, by the entries that tell where it is. -/
def place (named : List (Spelling × Value)) : Value :=
  .map (Entries.keyed [("at", .map (Entries.keyed named))])

theorem place_ne_null (named : List (Spelling × Value)) : place named ≠ .null := by
  rw [place]
  exact Value.noConfusion

theorem tree_place {x y : Value} (hx : Json.Leaf x) (hy : Json.Leaf y) {k k' : String}
    (hne : k ≠ k') : Value.Tree Json.Leaf (place [(k, x), (k', y)]) := by
  have hinner : Value.Tree Json.Leaf (.map (Entries.keyed [(↑k, x), (↑k', y)])) :=
    .keyed (by simpa using hne)
      (List.forall_mem_cons.mpr ⟨.leaf hx, List.forall_mem_singleton.mpr (.leaf hy)⟩)
  exact .keyed (List.nodup_singleton _) (List.forall_mem_singleton.mpr hinner)

theorem unpaired_place {x y : Value} (hx : x.Unpaired) (hy : y.Unpaired) (k k' : String) :
    (place [(k, x), (k', y)]).Unpaired := by
  have hinner : (Value.map (Entries.keyed [(↑k, x), (↑k', y)])).Unpaired :=
    .keyed (List.forall_mem_cons.mpr ⟨⟨Spelling.unpaired_plain k, hx⟩,
      List.forall_mem_singleton.mpr ⟨Spelling.unpaired_plain k', hy⟩⟩)
  exact .keyed (List.forall_mem_singleton.mpr ⟨Spelling.unpaired_plain _, hinner⟩)

theorem places_encode :
    (∃ a, places.encode (place [("x", .int 1), ("y", .int 2)]) = .ok a ∧
      places.encode (place [("y", .int 2), ("x", .int 1)]) = .ok a) ∧
    ∃ a b, places.encode (place [("x", .int 1), ("y", .int 2)]) = .ok a ∧
      places.encode (place [("x", .bool true), ("y", .int 2)]) = .ok b ∧ a ≠ b := by
  have hone : Json.Leaf (.int 1) := .int (by decide)
  have htwo : Json.Leaf (.int 2) := .int (by decide)
  have hint (n : Int) : (Value.int n).Unpaired := .simple trivial nofun
  have hbool : (Value.bool true).Unpaired := .simple trivial nofun
  have htree := tree_place hone htwo (show "x" ≠ "y" by decide)
  have hreordered : (place [("x", .int 1), ("y", .int 2)]).Reordered
      (place [("y", .int 2), ("x", .int 1)]) := by
    refine .map (.refl _) ?_
    simp only [Entries.keyed, List.map_cons, List.map_nil, Prod.map, id, List.forall_mem_singleton]
    refine fun _ => .map (.swap _ _ _) ?_
    simp [Value.Reordered.refl]
  have hdifferent : ¬ (place [("x", .int 1), ("y", .int 2)]).Reordered
      (place [("x", .bool true), ("y", .int 2)]) := by
    intro h
    have hat := h.of_mem (htree.named fun _ => Json.Leaf.simple) List.mem_cons_self
      List.mem_cons_self rfl
    have hx := hat.of_mem (Entries.named_keyed.mpr (by decide)) List.mem_cons_self
      List.mem_cons_self rfl
    cases hx
  obtain ⟨a, b, -, -, ha, hb, -, -, -, hsame, -⟩ := encode_eq_iff_reordered (d := places) rfl rfl
    htree (tree_place htwo hone (show "y" ≠ "x" by decide)) (place_ne_null _) (place_ne_null _)
  obtain ⟨a', b', -, -, ha', hb', -, -, -, -, hiff⟩ := encode_eq_iff_reordered (d := places) rfl rfl
    htree (tree_place (.bool true) htwo (show "x" ≠ "y" by decide))
    (place_ne_null _) (place_ne_null _)
  obtain rfl := hsame hreordered
  have hiff := hiff (unpaired_place (hint 1) (hint 2) "x" "y")
    (unpaired_place hbool (hint 2) "x" "y")
  exact ⟨⟨a, ha, hb⟩, a', b', ha', hb', fun heq => hdifferent (hiff.mp heq)⟩

/-- Two halves of a pair, and the code point that they are the units of, are written alike. -/
theorem not_encode_eq_iff_halves : ¬ ∀ (d : Definition) (v w : Value), d.json = true →
    d.converter = none → Value.Tree Json.Leaf v → Value.Tree Json.Leaf w → v ≠ .null → w ≠ .null →
    ∃ a b, d.encode v = .ok a ∧ d.encode w = .ok b ∧ (a = b ↔ v.Reordered w) := by
  intro h
  obtain ⟨a, b, ha, hb, hiff⟩ := h places (.text (.ofPoints [0xD83D, 0xDE00])) (.text "😀")
    rfl rfl (.leaf (.text _)) (.leaf (.text _)) nofun nofun
  have hencode (s : Spelling) :
      places.encode (.text s) = .ok (.text ((Json.text s).render .ascii)) := by
    rw [encode_eq (show Value.text s ≠ .null from nofun)]
    exact encodeHeld_of_json (d := places) rfl (.leaf (.text s)) rfl
  have hjoined : (Json.text (.ofPoints [0xD83D, 0xDE00])).joined = .text "😀" :=
    congrArg Json.text (by decide)
  have hrender := Json.render_joined (.text (.ofPoints [0xD83D, 0xDE00]))
  rw [hjoined] at hrender
  rw [hencode, ← hrender] at ha
  obtain rfl : a = b := Except.ok.inj (ha.symm.trans ((hencode _).symm.trans hb))
  have hreordered := hiff.mp rfl
  cases hreordered

end Definition

end DocTable
