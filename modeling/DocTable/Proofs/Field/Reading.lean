import DocTable.Proofs.Field.Writing
import DocTable.Proofs.Stored.Reading

/-! Reading what a field has written. Without a converter it succeeds unless a number was written
that no plain number stands for; such numbers in the text of a JSON field are floating point numbers
already when they are written, and do come back. -/

namespace DocTable

open Outcome

theorem Attr.StandsFor.readsIf {a : Attr} {w : Value} (h : a.StandsFor w) :
    a.ReadsIf (¬ w.Has Value.Illegible) := by
  cases h with
  | value h => exact readsIf_of_ofValue h
  | bytes changeable content =>
    rw [Value.has_of_whole (v := .bytes changeable content) trivial]
    exact readsIf_atom (m := .bytes false content) (Value.ofStored_single _ _) rfl nofun

namespace Definition

variable {d : Definition} {v w : Value} {a : Attr}

theorem decode_eq_decodeHeld (hconverter : d.converter = none) (stored : Value) :
    d.decode stored = d.decodeHeld stored := by
  rw [decode_eq, hconverter]
  exact bind_pure _

theorem heldValue_eq (hconverter : d.converter = none) (v : Value) :
    d.heldValue v = if d.json then jsonText v else .ok v := by
  rw [heldValue, hconverter]
  rfl

theorem jsonText_eq_ok : jsonText v = .ok w ↔
    ∃ m j, v.simplified = .ok m ∧ Json.ofValue m = .ok j ∧ w = .text (j.render .ascii) := by
  simp only [jsonText, bind_eq_ok]
  constructor
  · rintro ⟨m, hm, j, hj, h⟩
    exact ⟨m, j, hm, hj, (Except.ok.inj h).symm⟩
  · rintro ⟨m, j, hm, hj, rfl⟩
    exact ⟨m, hm, j, hj, rfl⟩

/-- What a JSON field writes is the text of a tree, which is read back. -/
theorem exists_decode_of_json (hconverter : d.converter = none) (hjson : d.json = true)
    (h : d.encode v = .ok a) : ∃ w, d.decode a.toValue = .ok w := by
  obtain ⟨w, hheld, hstands⟩ := exists_standsFor_of_encode h
  rw [heldValue_eq hconverter, hjson, if_pos rfl] at hheld
  obtain ⟨m, j, -, hj, rfl⟩ := jsonText_eq_ok.mp hheld
  obtain rfl : a = .text (j.render .ascii) := by
    cases hstands with
    | value h => exact (Except.ok.inj h).symm
  refine ⟨j.joined.toValue, ?_⟩
  rw [decode_eq_decodeHeld hconverter, decodeHeld, ofAttribute_toValue, Attr.toValue,
    Value.ofStored_single, hjson]
  show (Json.parse (j.render .ascii)).map Json.toValue = _
  rw [Json.parse_render (Json.readable_of_ofValue hj) .ascii (Json.allows_none _)]
  rfl

theorem decode_of_ofStored (hconverter : d.converter = none) (hjson : d.json = false)
    (h : Value.ofStored a.toValue = .ok w) : d.decode a.toValue = w.simplified := by
  rw [decode_eq_decodeHeld hconverter, decodeHeld, ofAttribute_toValue, h, hjson]
  exact bind_pure _

theorem exists_decode_iff (hconverter : d.converter = none) (hjson : d.json = false)
    (h : d.encode v = .ok a) :
    (∃ w, d.decode a.toValue = .ok w) ↔ ¬ v.Has Value.Illegible := by
  obtain ⟨w, hheld, hstands⟩ := exists_standsFor_of_encode h
  rw [heldValue_eq hconverter, hjson, if_neg Bool.false_ne_true] at hheld
  obtain rfl := Except.ok.inj hheld
  obtain ⟨m, hm, hlegible⟩ := hstands.readsIf
  rw [decode_of_ofStored hconverter hjson hm, ← hlegible]
  exact .rfl

/-- **What a field without a converter has written can be read**, unless it was written as a number
of its own and is an infinity or a signaling not-a-number. -/
theorem reads_back_iff (hconverter : d.converter = none) (h : d.encode v = .ok a) :
    (∃ w, d.decode a.toValue = .ok w) ↔ d.json = true ∨ ¬ v.Has Value.Illegible := by
  cases hjson : d.json with
  | true => exact iff_of_true (exists_decode_of_json hconverter hjson h) (.inl rfl)
  | false => rw [exists_decode_iff hconverter hjson h, or_iff_right Bool.false_ne_true]

/-- A rating, which may be any number. -/
def rating : Definition :=
  { fieldName := "rating", storedName := "r", type := "N" }

theorem reads_back_iff_rating :
    (rating.encode (.float (.infinite true)) = .ok (.number "-Infinity") ∧
      ¬ ∃ w, rating.decode (Attr.number "-Infinity").toValue = .ok w) ∧
    (rating.encode (.decimal (.nan true false 7)) = .ok (.number "-NaN7") ∧
      ∃ w, rating.decode (Attr.number "-NaN7").toValue = .ok w) := by
  have hinfinite : rating.encode (.float (.infinite true)) = .ok (.number "-Infinity") := rfl
  have hnan : rating.encode (.decimal (.nan true false 7)) = .ok (.number "-NaN7") := rfl
  refine ⟨⟨hinfinite, fun hread => ?_⟩, hnan, ?_⟩
  · have hillegible : (Value.float (.infinite true)).Has Value.Illegible := .here (.float true)
    exact ((reads_back_iff rfl hinfinite).mp hread).elim nofun (· hillegible)
  · refine (reads_back_iff rfl hnan).mpr (.inr ?_)
    rw [Value.has_of_whole (v := .decimal (.nan true false 7)) trivial]
    intro h
    cases h with
    | decimal h => cases h

/-- Minus infinity is written as a number, which is then refused as too large. -/
theorem not_reads_back : ¬ ∀ (d : Definition) (v : Value) (a : Attr), d.converter = none →
    d.encode v = .ok a → ∃ w, d.decode a.toValue = .ok w := by
  intro h
  obtain ⟨w, hw⟩ := h rating (.float (.infinite true)) (.number "-Infinity") rfl rfl
  have hread : rating.decode (Attr.number "-Infinity").toValue = .error .tooLarge := rfl
  rw [hread] at hw
  cases hw

end Definition

end DocTable
