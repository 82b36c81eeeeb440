import DocTable.Proofs.Number.Floats
import DocTable.Proofs.Outcome
import DocTable.Stored.Reading
import DocTable.Stored.Writing

/-! The texts of decimals: each is read as the decimal again, and so is what the store holds for a
number. -/

namespace DocTable

namespace Decimal

variable {negative : Bool} {body : List Char} {c : Char} {d : Decimal}

theorem code_of_isDigit (h : c.isDigit = true) : 48 ≤ c.toNat ∧ c.toNat ≤ 57 := by
  simpa [Char.isDigit, Char.le_def, UInt32.le_iff_toNat_le] using h

theorem asciiDigit_of_isDigit (h : c.isDigit = true) : asciiDigit c = c := by
  have hbounds := code_of_isDigit h
  have hvalue : Text.digitValue? c = some (c.toNat - 48) := by
    rw [Text.digitValue?, if_pos (by omega), if_pos h]
  have hcode : 48 + (c.toNat - 48) = c.toNat := by omega
  simp only [asciiDigit, hvalue, hcode, Char.ofNat_toNat]

theorem asciiDigit_of_ascii (h : c.toNat < 128) : asciiDigit c = c := by
  by_cases hc : c.isDigit = true
  · exact asciiDigit_of_isDigit hc
  · rw [asciiDigit, Text.digitValue?, if_pos h, if_neg hc]

/-- Characters that are read as they are, the first of which is no sign. -/
structure Body (cs : List Char) : Prop where
  ascii : ∀ c ∈ cs, c.toNat < 128
  unsigned : ∀ c ∈ cs.head?, c ≠ '-' ∧ c ≠ '+'

theorem ofText?_signed (h : Body body) (negative : Bool) :
    ofText? (String.ofList (if negative then '-' :: body else body)) =
      (readMagnitude? negative body).or (readSpecial? negative (lowered body)) := by
  have hascii : body.map asciiDigit = body := by
    simpa using List.map_congr_left fun c hc => asciiDigit_of_ascii (h.ascii c hc)
  have hunsigned : splitSign body = (false, body) := by
    unfold splitSign
    split
    next => exact absurd rfl (h.unsigned _ rfl).1
    next => exact absurd rfl (h.unsigned _ rfl).2
    next => rfl
  have hminus : asciiDigit '-' = '-' := by decide
  rw [ofText?, String.toList_ofList]
  cases negative with
  | true =>
    rw [if_pos rfl, List.map_cons, hminus, hascii, splitSign]
    dsimp only
    cases readMagnitude? true body <;> rfl
  | false =>
    rw [if_neg Bool.false_ne_true, hascii, hunsigned]
    dsimp only
    cases readMagnitude? false body <;> rfl

theorem lt_of_isDigit (h : c.isDigit = true) : c.toNat < 128 :=
  Nat.lt_of_le_of_lt (code_of_isDigit h).2 (by decide)

theorem body_numeral (n : Numeral) : Body n.chars := by
  constructor
  · intro c hc
    rcases List.mem_append.mp hc with hdigit | hc
    · exact lt_of_isDigit (n.digits c (List.mem_append_left _ hdigit))
    rcases List.mem_append.mp hc with hpointed | hexponent
    · rcases Numeral.mem_pointed hpointed with rfl | hdigit
      · decide
      · exact lt_of_isDigit (n.digits c (List.mem_append_right _ hdigit))
    · obtain ⟨x, -, hx⟩ := n.exists_of_mem_exponentChars hexponent
      rcases x.mem_chars hx with rfl | rfl | rfl | rfl | hdigit
      iterate 4 decide
      exact lt_of_isDigit hdigit
  · obtain ⟨c, cs, hchars, hhead⟩ := n.exists_chars_cons
    intro d hd
    rw [hchars] at hd
    obtain rfl : c = d := Option.some.inj hd
    exact ⟨ne_of_isDigit hhead (by decide), ne_of_isDigit hhead (by decide)⟩

theorem ofText?_numeral (n : Numeral) (negative : Bool) :
    ofText? (String.ofList (if negative then '-' :: n.chars else n.chars)) =
      some (.finite negative n.coefficient n.scale) := by
  rw [ofText?_signed (body_numeral n), n.readMagnitude?_chars, Option.some_or]

/-! ## Special values -/

theorem toLower_of_isDigit (h : c.isDigit = true) : c.toLower = c := by
  have hupper : ¬ ('A' ≤ c ∧ c ≤ 'Z') := by
    simp only [Char.isDigit, Bool.and_eq_true, decide_eq_true_eq, Char.le_def,
      UInt32.le_iff_toNat_le] at h ⊢
    exact fun hupper => absurd (Nat.le_trans hupper.1 h.2) (by decide)
  exact dif_neg hupper

theorem readMagnitude?_eq_none {cs : List Char} (hdigit : c.isDigit = false) (hpoint : c ≠ '.')
    (negative : Bool) : readMagnitude? negative (c :: cs) = none := by
  have htake : (c :: cs).takeWhile Char.isDigit = [] :=
    List.takeWhile_cons_of_neg (by simp [hdigit])
  have hdrop : (c :: cs).dropWhile Char.isDigit = c :: cs :=
    List.dropWhile_cons_of_neg (by simp [hdigit])
  simp only [readMagnitude?, htake, hdrop]
  split
  next heq => exact absurd (List.cons.inj heq).1 hpoint
  next => rfl

/-- The digits of a payload, of which there are none for zero. -/
def payloadDigits (payload : Nat) : List Char :=
  if payload = 0 then [] else decimalDigits payload

theorem isDigit_of_mem_payloadDigits {payload : Nat} (h : c ∈ payloadDigits payload) :
    c.isDigit = true := by
  unfold payloadDigits at h
  split at h
  · cases h
  · exact isDigit_of_mem_decimalDigits h

theorem readPayload?_payloadDigits (payload : Nat) :
    readPayload? (lowered (payloadDigits payload)) = some payload := by
  have hdigits : ∀ c ∈ payloadDigits payload, c.isDigit = true := fun _ =>
    isDigit_of_mem_payloadDigits
  have hlowered : lowered (payloadDigits payload) = payloadDigits payload := by
    simpa [lowered] using List.map_congr_left fun c hc => toLower_of_isDigit (hdigits c hc)
  rw [hlowered, readPayload?, if_pos (List.all_eq_true.mpr hdigits), payloadDigits]
  split
  next hzero => rw [hzero]; rfl
  next => rw [ofDigitChars_decimalDigits]

theorem body_payload {mark : Char} {marks : List Char} (h : Body (mark :: marks)) (payload : Nat) :
    Body (mark :: marks ++ payloadDigits payload) where
  ascii c hc := (List.mem_append.mp hc).elim (h.ascii c) fun hdigit =>
    lt_of_isDigit (isDigit_of_mem_payloadDigits hdigit)
  unsigned := h.unsigned

theorem ofText?_nan (negative signaling : Bool) (payload : Nat) :
    ofText? (nan negative signaling payload).toText = some (nan negative signaling payload) := by
  cases signaling with
  | true =>
    have hmarks : Body ['s', 'N', 'a', 'N'] := ⟨by simp, by simp⟩
    refine (ofText?_signed (body_payload hmarks payload) negative).trans ?_
    rw [List.cons_append, readMagnitude?_eq_none (by decide) (by decide), Option.none_or]
    show (readPayload? (lowered (payloadDigits payload))).map _ = _
    rw [readPayload?_payloadDigits, Option.map_some]
  | false =>
    have hmarks : Body ['N', 'a', 'N'] := ⟨by simp, by simp⟩
    refine (ofText?_signed (body_payload hmarks payload) negative).trans ?_
    rw [List.cons_append, readMagnitude?_eq_none (by decide) (by decide), Option.none_or]
    show (readPayload? (lowered (payloadDigits payload))).map _ = _
    rw [readPayload?_payloadDigits, Option.map_some]

/-- **A decimal is read from its text.** -/
theorem ofText?_toText (d : Decimal) : ofText? d.toText = some d := by
  cases d with
  | finite negative k e =>
    obtain ⟨n, hchars, rfl, rfl⟩ := exists_numeral k e
    rw [toText, ← hchars]
    exact ofText?_numeral n negative
  | infinite negative => cases negative <;> rfl
  | nan negative signaling payload => exact ofText?_nan negative signaling payload

theorem toText_injective {d d' : Decimal} (h : d.toText = d'.toText) : d = d' := by
  have hread := ofText?_toText d
  rw [h, ofText?_toText d'] at hread
  exact (Option.some.inj hread).symm

end Decimal

/-! ## Floating point numbers -/

/-- A finite number is shown as its shortest decimal, but for zeros behind the digits. -/
theorem Value.exists_shownDecimal (negative : Bool) (m : Binary64.Magnitude) :
    ∃ j : Nat, shownDecimal (.finite negative m) =
      .finite negative (m.shortest.1 * 10 ^ j) (m.shortest.2 - j) := by
  obtain ⟨n, j, -, htext, hcoefficient, hscale⟩ := Binary64.exists_numeral_of_shortest m
  refine ⟨j, ?_⟩
  rw [shownDecimal, htext, Decimal.ofText?_numeral, Option.getD_some, hcoefficient, hscale]

theorem Value.shownDecimal_infinite (negative : Bool) :
    shownDecimal (.infinite negative) = .infinite negative := by
  cases negative <;> rfl

theorem Value.shownDecimal_nan : shownDecimal .nan = .nan false false 0 :=
  rfl

/-! ## Numbers of the store -/

variable {d d' : Decimal} {s : String}

/-- What the store admits is the number itself, but for a payload that is too long. -/
theorem eq_of_admitted (h : admitted d = .ok d') : d' = d ∨ d' = .nan false false 0 := by
  unfold admitted at h
  split at h
  next d₁ hrestrict =>
    obtain rfl := Except.ok.inj h
    cases d with
    | finite negative k e => exact .inl (Decimal.Context.restrict_finite hrestrict)
    | infinite negative => exact .inl (Except.ok.inj hrestrict).symm
    | nan negative signaling payload =>
      unfold Decimal.Context.restrict at hrestrict
      split at hrestrict
      next heq => cases heq
      next =>
        split at hrestrict
        · exact .inr (Except.ok.inj hrestrict).symm
        · exact .inl (Except.ok.inj hrestrict).symm
      next heq => cases heq
  next => cases h

/-- What is held for a number is its text, and is read as the number. -/
theorem Attr.numberText_eq_ok : numberText d = .ok s ↔
    admitted d = .ok d ∧ d ≠ .infinite false ∧ d ≠ .nan false false 0 ∧ s = d.toText := by
  have hinfinity : (Decimal.infinite false).toText = "Infinity" := rfl
  have hnan : (Decimal.nan false false 0).toText = "NaN" := rfl
  rw [numberText, Outcome.bind_eq_ok]
  constructor
  · rintro ⟨d', hadmitted, h⟩
    obtain ⟨hspecial, h⟩ := Outcome.unless_eq_ok.mp h
    obtain ⟨hinfinite, hplain⟩ := not_or.mp hspecial
    rcases eq_of_admitted hadmitted with rfl | rfl
    · refine ⟨hadmitted, ?_, ?_, (Except.ok.inj h).symm⟩
      · rintro rfl
        exact hinfinite hinfinity
      · rintro rfl
        exact hplain hnan
    · exact absurd hnan hplain
  · rintro ⟨hadmitted, hinfinite, hplain, rfl⟩
    refine ⟨d, hadmitted, Outcome.unless_eq_ok.mpr ⟨not_or_intro ?_ ?_, rfl⟩⟩
    · exact fun heq => hinfinite (Decimal.toText_injective (heq.trans hinfinity.symm))
    · exact fun heq => hplain (Decimal.toText_injective (heq.trans hnan.symm))

theorem Value.toDecimal_of_numberText (h : Attr.numberText d = .ok s) :
    (Value.text s).toDecimal = .ok d := by
  obtain ⟨hadmitted, -, -, rfl⟩ := Attr.numberText_eq_ok.mp h
  rw [toDecimal, Spelling.mended_plain, Decimal.ofText?_toText, Option.getD_some, hadmitted]

end DocTable
