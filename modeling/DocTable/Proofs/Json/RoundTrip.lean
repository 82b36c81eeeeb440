import DocTable.Json.Reader
import DocTable.Proofs.Json.Joined
import DocTable.Proofs.Number.Floats
import DocTable.Proofs.Outcome

/-! Trees are read back from their compact text, with their halves of pairs joined. Each part is
followed by what the part around it goes on with, so the statements are about a text with something
behind it. -/

namespace DocTable

namespace Json

variable {e : Escaping} {n : Nat} {c : Char} {rest : List Char}

/-! ## Texts -/

theorem readUnits?_unitEscape (h : n < 0x10000) (rest : List Char) :
    readUnits? (unitEscape n ++ rest) = (readUnits? rest).map fun r => (n :: r.1, r.2) := by
  have hunit : unit? (n / 0x1000).digitChar (n / 0x100 % 16).digitChar (n / 0x10 % 16).digitChar
      (n % 16).digitChar = some n := by
    have hvalue : ((n / 0x1000 * 16 + n / 0x100 % 16) * 16 + n / 0x10 % 16) * 16 + n % 16 = n := by
      omega
    simp only [unit?, Text.hexValue?_digitChar _ (show n / 0x1000 < 16 by omega),
      Text.hexValue?_digitChar _ (Nat.mod_lt _ (by decide : 0 < 16)), Option.bind_eq_bind,
      Option.bind_some, Option.pure_def, hvalue]
  rw [unitEscape, Text.hexDigits_four h]
  simp only [List.cons_append, List.nil_append, readUnits?, hunit, Option.bind_eq_bind,
    Option.bind_some]
  cases readUnits? rest <;> rfl

theorem readUnits?_plain (hquote : c ≠ '"') (hslash : c ≠ '\\') (h : 32 ≤ c.toNat)
    (rest : List Char) :
    readUnits? (c :: rest) = (readUnits? rest).map fun r => (c.toNat :: r.1, r.2) := by
  have hplain : ¬ (c = '\\' ∨ c.toNat < 32) := by
    rintro (hc | hc)
    · exact hslash hc
    · omega
  rw [readUnits?, if_neg hplain]
  · cases readUnits? rest <;> rfl
  all_goals simp_all

/-- Reading one character of a quoted text gives its units. -/
theorem readUnits?_escaped (e : Escaping) (c : Char) (rest : List Char) :
    readUnits? (escaped e c ++ rest) = (readUnits? rest).map fun r =>
      (Text.units (decide (e = .ascii)) c.toNat ++ r.1, r.2) := by
  have hvalid : c.toNat < 0xD800 ∨ 0xDFFF < c.toNat ∧ c.toNat < 0x110000 := c.valid
  have hone (h : ¬ (decide (e = .ascii) = true ∧ 0x10000 ≤ c.toNat)) :
      Text.units (decide (e = .ascii)) c.toNat = [c.toNat] := if_neg h
  unfold escaped
  split
  -- the characters with a letter of their own
  iterate 7
    rw [hone (by simp), List.cons_append, List.cons_append, List.nil_append, readUnits?]
    · simp only [letterEscape?, Option.bind_eq_bind, Option.bind_some]
      cases readUnits? rest <;> rfl
    · simp
  next hquote hslash _ _ _ _ _ =>
    dsimp only
    split
    next hcontrol =>
      rw [readUnits?_unitEscape (by omega), hone (by omega)]
      rfl
    next hcontrol =>
      split
      next hplain =>
        have hunits : ¬ (decide (e = .ascii) = true ∧ 0x10000 ≤ c.toNat) := by
          rintro ⟨he, hc⟩
          rcases hplain with h | rfl
          · omega
          · cases he
        rw [List.singleton_append, readUnits?_plain hquote hslash (by omega), hone hunits]
        rfl
      next hplain =>
        split
        next hbasic =>
          rw [readUnits?_unitEscape (by omega), hone (by omega)]
          rfl
        next hbasic =>
          have hascii : e = .ascii := by
            cases e
            · rfl
            · exact absurd (.inr rfl) hplain
          rw [List.append_assoc, readUnits?_unitEscape (by omega), readUnits?_unitEscape (by omega),
            Text.units, if_pos ⟨decide_eq_true hascii, by omega⟩]
          cases readUnits? rest <;> rfl

/-- So does reading one code point. -/
theorem readUnits?_escapedPoint (e : Escaping) (hn : n < 0x110000) (rest : List Char) :
    readUnits? (escapedPoint e n ++ rest) = (readUnits? rest).map fun r =>
      (Text.units (decide (e = .ascii)) n ++ r.1, r.2) := by
  unfold escapedPoint
  split
  next hhalf =>
    have hunit : n < 0x10000 := by
      simp only [Text.isHalf, Text.isHigh, Text.isLow, Bool.or_eq_true, Bool.and_eq_true,
        decide_eq_true_eq] at hhalf
      omega
    rw [readUnits?_unitEscape hunit, Text.units_of_isHalf hhalf]
    rfl
  next hwhole =>
    have hnat := Text.toNat_ofNat hn (Bool.eq_false_iff.mpr hwhole)
    rw [readUnits?_escaped, hnat]

/-- A text is read with its halves joined. -/
theorem readText?_quoted (e : Escaping) (s : Spelling) (rest : List Char) :
    readText? (s.points.flatMap (escapedPoint e) ++ '"' :: rest) = some (s.joined, rest) := by
  have hunits : ∀ ns : List Nat, (∀ n ∈ ns, n < 0x110000) →
      readUnits? (ns.flatMap (escapedPoint e) ++ '"' :: rest) =
        some (ns.flatMap (Text.units (decide (e = .ascii))), rest) := by
    intro ns hns
    induction ns with
    | nil => rw [List.flatMap_nil, List.nil_append, readUnits?]; rfl
    | cons n ns ih =>
      obtain ⟨hn, hrest⟩ := List.forall_mem_cons.mp hns
      rw [List.flatMap_cons, List.append_assoc, readUnits?_escapedPoint e hn, ih hrest]
      rfl
  rw [readText?, hunits s.points s.points_lt, Option.map_some, Spelling.joined,
    ← Text.joinUnits_flatMap_units (decide (e = .ascii)) s.points_lt]

/-! ## Numbers -/

/-- What can stand behind a tree: nothing, or what separates or closes. -/
def Delimited (rest : List Char) : Prop :=
  rest = [] ∨ ∃ c cs, rest = c :: cs ∧ (c = ',' ∨ c = ']' ∨ c = '\x7d')

theorem delimited_nil : Delimited [] :=
  .inl rfl

theorem delimited_cons (h : c = ',' ∨ c = ']' ∨ c = '\x7d') : Delimited (c :: rest) :=
  .inr ⟨c, rest, rfl, h⟩

/-- A number ends where its surroundings go on. -/
theorem Delimited.head (hrest : Delimited rest) :
    ∀ c ∈ rest.head?, c.isDigit = false ∧ c ≠ '.' ∧ ¬ (c = 'e' ∨ c = 'E') := by
  rcases hrest with rfl | ⟨c, cs, rfl, rfl | rfl | rfl⟩ <;> simp

theorem splitDigits_append {cs : List Char} (hcs : ∀ c ∈ cs, c.isDigit = true)
    (hrest : ∀ c ∈ rest.head?, c.isDigit = false) : splitDigits (cs ++ rest) = (cs, rest) := by
  obtain ⟨htake, hdrop⟩ := Numeral.span_digits hcs hrest
  rw [splitDigits, htake, hdrop]

/-- Digits before the point are read if no zero at their head can be left out. -/
theorem readWhole?_append {cs : List Char} (hcs : ∀ c ∈ cs, c.isDigit = true)
    (hhead : cs = ['0'] ∨ ∃ c ds, cs = c :: ds ∧ c ≠ '0')
    (hrest : ∀ c ∈ rest.head?, c.isDigit = false) : readWhole? (cs ++ rest) = some (cs, rest) := by
  rcases hhead with rfl | ⟨c, ds, rfl, hne⟩
  · rfl
  · have hsplit := splitDigits_append hcs hrest
    rw [List.cons_append] at hsplit ⊢
    rw [readWhole?.eq_def]
    split
    next heq => exact absurd (List.cons.inj heq).1 hne
    next => rw [hsplit]

theorem readWhole?_digits (n : Nat) (hrest : Delimited rest) :
    readWhole? (decimalDigits n ++ rest) = some (decimalDigits n, rest) := by
  refine readWhole?_append (fun c => isDigit_of_mem_decimalDigits) ?_ fun c hc => ?_
  rotate_left
  · exact (hrest.head c hc).1
  by_cases hn : n = 0
  · exact .inl (hn ▸ rfl)
  · exact .inr (decimalDigits_head hn)

theorem readNumber_digits (negative : Bool) (h : digitCount n ≤ Text.digitLimit)
    (hrest : Delimited rest) :
    readNumber negative (decimalDigits n ++ rest) =
      .ok (int (if negative then -(n : Int) else n), rest) := by
  have hfraction : readFraction rest = ([], rest) ∧ readExponent rest = (none, rest) := by
    rcases hrest with rfl | ⟨c, cs, rfl, rfl | rfl | rfl⟩ <;> exact ⟨rfl, rfl⟩
  have hlimit : ¬ Text.digitLimit < (decimalDigits n).length := Nat.not_lt.mpr h
  simp only [readNumber, readWhole?_digits n hrest, hfraction, List.append_nil, and_self, if_true,
    if_neg hlimit, ofDigitChars_decimalDigits]

theorem readFraction_pointed {ds : List Char} (hds : ∀ c ∈ ds, c.isDigit = true)
    (hrest : ∀ c ∈ rest.head?, c.isDigit = false ∧ c ≠ '.') :
    readFraction (Numeral.pointed ds ++ rest) = (ds, rest) := by
  cases ds with
  | nil =>
    rw [Numeral.pointed, List.nil_append]
    unfold readFraction
    split
    next => exact absurd rfl (hrest '.' rfl).2
    next => rfl
  | cons d ds =>
    have hsplit := splitDigits_append hds fun c hc => (hrest c hc).1
    rw [Numeral.pointed, List.cons_append, readFraction, hsplit]
    exact List.cons_ne_nil d ds

theorem readExponent_exponentChars (n : Numeral) (hrest : Delimited rest) :
    readExponent (n.exponentChars ++ rest) = (n.exponent.map Numeral.Exponent.value, rest) := by
  unfold Numeral.exponentChars
  cases n.exponent with
  | none =>
    show readExponent rest = (none, rest)
    unfold readExponent
    split
    next c cs => exact if_neg (hrest.head c rfl).2.2
    next => rfl
  | some x =>
    have hdigits := splitDigits_append (fun c => x.digits) fun c hc => (hrest.head c hc).1
    obtain ⟨d, ds, heq⟩ := List.exists_cons_of_ne_nil
      (List.append_ne_nil_of_right_ne_nil (List.replicate x.zeros '0')
        (decimalDigits_ne_nil x.value.natAbs))
    have hvalue := x.signed_digits
    show readExponent (x.chars ++ rest) = (some x.value, rest)
    rw [Numeral.Exponent.chars, List.cons_append, List.cons_append, readExponent,
      if_pos x.isLetter, x.splitSign_chars]
    simp only [hdigits]
    rw [heq] at hvalue ⊢
    exact congrArg (fun e => (some e, rest)) hvalue

/-- **A numeral that is no integer** is read as the floating point number nearest to it. -/
theorem readNumber_numeral {n : Numeral} (hn : n.Fractional) (negative : Bool)
    (hrest : Delimited rest) : readNumber negative (n.chars ++ rest) =
      .ok (float (.ofScientific negative n.coefficient n.scale), rest) := by
  have hexponent : ∀ c ∈ (n.exponentChars ++ rest).head?, c.isDigit = false ∧ c ≠ '.' := by
    intro c hc
    rw [List.head?_append] at hc
    rcases Option.or_eq_some_iff.mp hc with h | ⟨-, h⟩
    · exact n.exponentChars_head c h
    · exact (hrest.head c h).imp_right And.left
  have hpoint : ∀ c ∈ (Numeral.pointed n.fraction ++ (n.exponentChars ++ rest)).head?,
      c.isDigit = false := by
    cases n.fraction with
    | nil => exact fun c hc => (hexponent c hc).1
    | cons d ds =>
      rintro c hc
      obtain rfl : '.' = c := Option.some.inj hc
      rfl
  have hdigits : ∀ c ∈ n.whole, c.isDigit = true :=
    fun c hc => n.digits c (List.mem_append_left _ hc)
  have hwhole := readWhole?_append hdigits hn.head hpoint
  have hfraction := readFraction_pointed (fun c hc => n.digits c (List.mem_append_right _ hc))
    hexponent
  have hshown : ¬ (n.fraction = [] ∧ n.exponent.map Numeral.Exponent.value = none) := by
    rw [Option.map_eq_none_iff]
    exact fun h => hn.shown.elim (· h.1) (· h.2)
  have hvalue : (n.exponent.map Numeral.Exponent.value).getD 0 =
      n.exponent.elim 0 Numeral.Exponent.value := by
    cases n.exponent <;> rfl
  rw [Numeral.chars, List.append_assoc, List.append_assoc]
  simp only [readNumber, hwhole, hfraction, readExponent_exponentChars n hrest, if_neg hshown,
    hvalue]
  rfl

/-! ## Trees -/

/-- The trees that are read back: no integer in them is too long. -/
inductive Readable : Json → Prop where
  | null : Readable null
  | bool (b : Bool) : Readable (bool b)
  | float (x : Binary64) : Readable (float x)
  | int {n : Int} (h : digitCount n.natAbs ≤ Text.digitLimit) : Readable (int n)
  | text (s : Spelling) : Readable (text s)
  | array {items : List Json} (h : ∀ j ∈ items, Readable j) : Readable (array items)
  | object {members : List (Spelling × Json)} (h : ∀ m ∈ members, Readable m.2) :
    Readable (object members)

theorem chars_int (e : Escaping) (n : Int) :
    (int n).chars e = if n < 0 then '-' :: decimalDigits n.natAbs else decimalDigits n.natAbs := by
  rw [chars, integerText]
  split <;> simp [naturalText]

/-- The text of a finite number begins with a sign or a digit, and is read as the number. -/
theorem exists_chars_finite (e : Escaping) (negative : Bool) (m : Binary64.Magnitude) :
    ∃ c cs, c.isDigit = true ∧
      (float (.finite negative m)).chars e = (if negative then '-' :: c :: cs else c :: cs) ∧
      ∀ rest, Delimited rest → readNumber negative (c :: cs ++ rest) =
        .ok (float (.finite negative m), rest) := by
  obtain ⟨n, hn, htext, hread⟩ := Binary64.exists_numeral_of_size m
  obtain ⟨c, cs, hchars, hc⟩ := n.exists_chars_cons
  refine ⟨c, cs, hc, ?_, fun rest hrest => ?_⟩
  · rw [chars, floatText, htext, String.toList_ofList, hchars]
    all_goals nofun
  · rw [← hchars, readNumber_numeral hn negative hrest, hread]

/-- How the text of a readable tree begins: with no blank, and with nothing that closes. -/
theorem Readable.chars_head {j : Json} (hj : Readable j) (e : Escaping) :
    ∃ c cs, j.chars e = c :: cs ∧ isSpace c = false ∧ c ≠ ']' := by
  have hdigit : ∀ c : Char, c.isDigit = true → isSpace c = false ∧ c ≠ ']' := fun c hc =>
    ⟨by simp [isSpace, ne_of_isDigit hc], ne_of_isDigit hc (by decide)⟩
  cases hj with
  | float x =>
    cases x with
    | nan => exact ⟨'N', _, rfl, by decide, by decide⟩
    | infinite negative => cases negative <;> exact ⟨_, _, rfl, by decide, by decide⟩
    | finite negative m =>
      obtain ⟨c, cs, hc, hchars, -⟩ := exists_chars_finite e negative m
      cases negative with
      | true => exact ⟨'-', c :: cs, hchars, by decide, by decide⟩
      | false => exact ⟨c, cs, hchars, hdigit c hc⟩
  | null => exact ⟨'n', _, rfl, by decide, by decide⟩
  | bool b => cases b <;> exact ⟨_, _, rfl, by decide, by decide⟩
  | text s => exact ⟨'"', _, rfl, by decide, by decide⟩
  | array h => exact ⟨'[', _, rfl, by decide, by decide⟩
  | object h => exact ⟨'\x7b', _, rfl, by decide, by decide⟩
  | @int n h =>
    rw [chars_int]
    split
    next => exact ⟨'-', _, rfl, by decide, by decide⟩
    next =>
      obtain ⟨c, cs, heq⟩ := List.exists_cons_of_ne_nil (decimalDigits_ne_nil n.natAbs)
      have hc : c.isDigit = true := isDigit_of_mem_decimalDigits (heq ▸ List.mem_cons_self)
      exact ⟨c, cs, heq, hdigit c hc⟩

theorem readValue_digit (hc : c.isDigit = true) (fuel : Nat) (limit : Option Nat)
    (rest : List Char) :
    readValue (fuel + 1) limit (c :: rest) = readNumber false (c :: rest) := by
  have hword : readWord? (c :: rest) = none := by
    simp [readWord?, words, after?, (ne_of_isDigit hc _).symm]
  rw [readValue.eq_def]
  simp [hword, ne_of_isDigit hc]

theorem readValue_minus (hc : c.isDigit = true) (fuel : Nat) (limit : Option Nat)
    (rest : List Char) :
    readValue (fuel + 1) limit ('-' :: c :: rest) = readNumber true (c :: rest) := by
  have hword : readWord? ('-' :: c :: rest) = none := by
    simp [readWord?, words, after?, (ne_of_isDigit hc _).symm]
  rw [readValue.eq_def]
  simp [hword]

theorem skip_cons (hc : isSpace c = false) (cs : List Char) : skip (c :: cs) = c :: cs :=
  List.dropWhile_cons_of_neg (by simp [hc])

theorem itemChars_cons_cons (e : Escaping) (j j' : Json) (items : List Json) :
    itemChars e (j :: j' :: items) = j.chars e ++ ',' :: itemChars e (j' :: items) := by
  rw [itemChars]
  simp

theorem memberChars_cons_cons (e : Escaping) (name : Spelling) (j : Json) (m : Spelling × Json)
    (members : List (Spelling × Json)) :
    memberChars e ((name, j) :: m :: members) =
      quotedText e name ++ ':' :: (j.chars e ++ ',' :: memberChars e (m :: members)) := by
  rw [memberChars]
  · simp
  · simp

theorem itemChars_head {items : List Json} (h : ∀ j ∈ items, j.Readable) (hne : items ≠ [])
    (e : Escaping) : ∃ c cs, itemChars e items = c :: cs ∧ isSpace c = false ∧ c ≠ ']' := by
  match items with
  | [j] => simpa [itemChars] using (h j List.mem_cons_self).chars_head e
  | j :: j' :: items =>
    obtain ⟨c, cs, heq, hc⟩ := (h j List.mem_cons_self).chars_head e
    exact ⟨c, _, by rw [itemChars_cons_cons, heq, List.cons_append], hc⟩

theorem memberChars_head {members : List (Spelling × Json)} (hne : members ≠ []) (e : Escaping) :
    ∃ cs, memberChars e members = '"' :: cs := by
  match members with
  | [(name, j)] => exact ⟨_, by rw [memberChars, quotedText, List.cons_append]⟩
  | (name, j) :: m :: members =>
    exact ⟨_, by rw [memberChars_cons_cons, quotedText, List.cons_append]⟩

/-- Reading the name of a member, and the tree behind it. -/
theorem readMembers_member {j : Json} {cs : List Char} {fuel : Nat} {limit : Option Nat}
    (e : Escaping) (name : Spelling) (hc : isSpace c = false)
    (hvalue : readValue fuel limit (c :: cs) = .ok (j, rest)) :
    readMembers (fuel + 1) limit (quotedText e name ++ ':' :: c :: cs) =
      match skip rest with
      | '\x7d' :: rest => .ok ([(name.joined, j)], rest)
      | ',' :: rest => do
        let (members, rest) ← readMembers fuel limit (skip rest)
        return ((name.joined, j) :: members, rest)
      | _ => .error .badJson := by
  rw [quotedText, List.cons_append, List.append_assoc, readMembers, List.singleton_append,
    readText?_quoted]
  simp only [skip_cons (show isSpace ':' = false by decide), skip_cons hc, hvalue]
  rfl

/-- Whether a limit leaves room for some depth. -/
def Allows (limit : Option Nat) (depth : Nat) : Prop :=
  ∀ n ∈ limit, depth ≤ n

theorem allows_none (depth : Nat) : Allows none depth :=
  fun _ h => nomatch h

theorem Allows.mono {limit : Option Nat} {depth depth' : Nat} (h : Allows limit depth')
    (hle : depth ≤ depth') : Allows limit depth :=
  fun n hn => hle.trans (h n hn)

theorem Allows.exists_deeper {limit : Option Nat} {depth : Nat} (h : Allows limit (depth + 1)) :
    ∃ inner, deeper limit = .ok inner ∧ Allows inner depth := by
  match limit with
  | none => exact ⟨none, rfl, allows_none depth⟩
  | some 0 => exact absurd (h 0 rfl) (Nat.not_succ_le_zero depth)
  | some (n + 1) =>
    refine ⟨some n, rfl, fun m hm => ?_⟩
    obtain rfl := Option.some.inj hm
    exact Nat.le_of_succ_le_succ (h _ rfl)

mutual

/-- The induction is on the tree; the length of its text bounds the parts that are nested or in
sequence. -/
theorem readValue_chars (e : Escaping) (j : Json) (hj : j.Readable) (fuel : Nat)
    (limit : Option Nat) (rest : List Char) (hfuel : (j.chars e).length ≤ fuel)
    (hlimit : Allows limit j.depth) (hrest : Delimited rest) :
    readValue fuel limit (j.chars e ++ rest) = .ok (j.joined, rest) := by
  obtain ⟨c, cs, hhead, -⟩ := hj.chars_head e
  obtain ⟨fuel, rfl⟩ : ∃ f, fuel = f + 1 := Nat.exists_eq_succ_of_ne_zero (by
    rintro rfl
    simp [hhead] at hfuel)
  match j, hj with
  | .null, _ => rfl
  | .bool true, _ => rfl
  | .bool false, _ => rfl
  | .int n, .int h =>
    obtain ⟨c, cs, heq⟩ := List.exists_cons_of_ne_nil (decimalDigits_ne_nil n.natAbs)
    have hc : c.isDigit = true := isDigit_of_mem_decimalDigits (heq ▸ List.mem_cons_self)
    have hread (negative : Bool) := readNumber_digits negative h hrest
    rw [chars_int]
    split
    next hn =>
      rw [heq, List.cons_append, List.cons_append, readValue_minus hc, ← List.cons_append, ← heq,
        hread true]
      simp only [joined, if_true, Except.ok.injEq, Prod.mk.injEq, Json.int.injEq, and_true]
      omega
    next hn =>
      rw [heq, List.cons_append, readValue_digit hc, ← List.cons_append, ← heq, hread false]
      simp only [joined, Bool.false_eq_true, if_false, Except.ok.injEq, Prod.mk.injEq,
        Json.int.injEq,
        and_true]
      omega
  | .float .nan, _ => rfl
  | .float (.infinite true), _ => rfl
  | .float (.infinite false), _ => rfl
  | .float (.finite negative m), _ =>
    obtain ⟨c, cs, hc, hchars, hread⟩ := exists_chars_finite e negative m
    rw [hchars]
    cases negative with
    | true =>
      rw [if_pos rfl, List.cons_append, List.cons_append, readValue_minus hc]
      exact hread rest hrest
    | false =>
      rw [if_neg nofun, List.cons_append, readValue_digit hc]
      exact hread rest hrest
  | .text s, _ =>
    rw [chars, quotedText, List.cons_append, List.append_assoc, readValue, List.singleton_append,
      readText?_quoted]
    rfl
  | .array [], _ =>
    obtain ⟨inner, hinner, -⟩ := hlimit.exists_deeper
    show (deeper limit >>= fun _ => _) = _
    rw [hinner]
    rfl
  | .array (j :: items), .array h =>
    obtain ⟨c, cs, heq, hspace, hclose⟩ := itemChars_head h (by simp) e
    have hlength : (itemChars e (j :: items)).length + 1 ≤ fuel := by
      simpa [chars] using hfuel
    obtain ⟨inner, hinner, hallows⟩ := hlimit.exists_deeper
    have hitems := readItems_itemChars e (j :: items) h (by simp) fuel inner rest hlength hallows
    rw [chars, List.cons_append, List.append_assoc, List.singleton_append, readValue]
    rw [heq, List.cons_append] at hitems ⊢
    rw [skip_cons hspace, hinner]
    simp only [bind, Except.bind] at hitems ⊢
    split
    next hbracket => exact absurd (List.cons.inj hbracket).1 hclose
    next => rw [hitems]; rfl
  | .object [], _ =>
    obtain ⟨inner, hinner, -⟩ := hlimit.exists_deeper
    show (deeper limit >>= fun _ => _) = _
    rw [hinner]
    rfl
  | .object (m :: members), .object h =>
    obtain ⟨cs, heq⟩ := memberChars_head (List.cons_ne_nil m members) e
    have hlength : (memberChars e (m :: members)).length + 1 ≤ fuel := by
      simpa [chars] using hfuel
    obtain ⟨inner, hinner, hallows⟩ := hlimit.exists_deeper
    have hmembers :=
      readMembers_memberChars e (m :: members) h (by simp) fuel inner rest hlength hallows
    rw [chars, List.cons_append, List.append_assoc, List.singleton_append, readValue]
    rw [heq, List.cons_append] at hmembers ⊢
    rw [skip_cons (by decide), hinner]
    simp only [bind, Except.bind] at hmembers ⊢
    split
    next hbrace => exact absurd (List.cons.inj hbrace).1 (by decide)
    next => rw [hmembers]; rfl

theorem readItems_itemChars (e : Escaping) (items : List Json) (h : ∀ j ∈ items, j.Readable)
    (hne : items ≠ []) (fuel : Nat) (limit : Option Nat) (rest : List Char)
    (hfuel : (itemChars e items).length + 1 ≤ fuel) (hlimit : Allows limit (itemsDepth items)) :
    readItems fuel limit (itemChars e items ++ ']' :: rest) = .ok (joinedItems items, rest) := by
  obtain ⟨fuel, rfl⟩ : ∃ f, fuel = f + 1 := Nat.exists_eq_succ_of_ne_zero (by omega)
  match items with
  | [j] =>
    have hj := h j List.mem_cons_self
    have hvalue := readValue_chars e j hj fuel limit (']' :: rest)
      (by simpa [itemChars] using hfuel) (hlimit.mono (Nat.le_max_left ..))
      (delimited_cons (by simp))
    rw [itemChars, readItems, hvalue]
    rfl
  | j :: j' :: items =>
    obtain ⟨hj, hitems⟩ := List.forall_mem_cons.mp h
    obtain ⟨c, cs, heq, hspace, -⟩ := itemChars_head hitems (by simp) e
    rw [itemChars_cons_cons, List.length_append, List.length_cons] at hfuel
    have hvalue := readValue_chars e j hj fuel limit
      (',' :: (itemChars e (j' :: items) ++ ']' :: rest)) (by omega)
      (hlimit.mono (Nat.le_max_left ..)) (delimited_cons (by simp))
    have hnext := readItems_itemChars e (j' :: items) hitems (by simp) fuel limit rest (by omega)
      (hlimit.mono (Nat.le_max_right ..))
    rw [itemChars_cons_cons, List.append_assoc, List.cons_append, readItems, hvalue]
    rw [heq, List.cons_append] at hnext ⊢
    show (do
      let (items, rest) ← readItems fuel limit (skip (c :: _))
      return (j.joined :: items, rest)) = _
    rw [skip_cons hspace, hnext]
    rfl

theorem readMembers_memberChars (e : Escaping) (members : List (Spelling × Json))
    (h : ∀ m ∈ members, m.2.Readable) (hne : members ≠ []) (fuel : Nat) (limit : Option Nat)
    (rest : List Char) (hfuel : (memberChars e members).length + 1 ≤ fuel)
    (hlimit : Allows limit (membersDepth members)) :
    readMembers fuel limit (memberChars e members ++ '\x7d' :: rest) =
      .ok (joinedMembers members, rest) := by
  obtain ⟨fuel, rfl⟩ : ∃ f, fuel = f + 1 := Nat.exists_eq_succ_of_ne_zero (by omega)
  match members with
  | [(name, j)] =>
    have hj : j.Readable := h _ List.mem_cons_self
    obtain ⟨c, cs, heq, hspace, -⟩ := hj.chars_head e
    simp only [memberChars, List.length_append, List.length_cons] at hfuel
    have hvalue := readValue_chars e j hj fuel limit ('\x7d' :: rest) (by omega)
      (hlimit.mono (Nat.le_max_left ..)) (delimited_cons (by simp))
    rw [memberChars, List.append_assoc, List.cons_append]
    rw [heq, List.cons_append] at hvalue ⊢
    rw [readMembers_member e name hspace hvalue]
    rfl
  | (name, j) :: m :: members =>
    obtain ⟨hj, hmembers⟩ := List.forall_mem_cons.mp h
    obtain ⟨c, cs, heq, hspace, -⟩ := Readable.chars_head hj e
    obtain ⟨cs', heq'⟩ := memberChars_head (List.cons_ne_nil m members) e
    simp only [memberChars_cons_cons, List.length_append, List.length_cons] at hfuel
    have hvalue := readValue_chars e j hj fuel limit
      (',' :: (memberChars e (m :: members) ++ '\x7d' :: rest)) (by omega)
      (hlimit.mono (Nat.le_max_left ..)) (delimited_cons (by simp))
    have hnext := readMembers_memberChars e (m :: members) hmembers (by simp) fuel limit rest
      (by omega) (hlimit.mono (Nat.le_max_right ..))
    rw [memberChars_cons_cons, List.append_assoc, List.cons_append, List.append_assoc,
      List.cons_append]
    rw [heq, List.cons_append] at hvalue ⊢
    rw [heq', List.cons_append] at hvalue hnext ⊢
    rw [readMembers_member e name hspace hvalue]
    show (do let (members, rest) ← readMembers fuel limit (skip ('"' :: _)); _) = _
    rw [skip_cons (by decide), hnext]
    rfl

end

/-- **A tree is read back from its text**, with its halves of pairs joined. -/
theorem parse_render {j : Json} (hj : j.Readable) (e : Escaping) {limit : Option Nat}
    (hlimit : Allows limit j.depth) : parse (j.render e) limit = .ok j.joined := by
  obtain ⟨c, cs, heq, hspace, -⟩ := hj.chars_head e
  have hskip : skip (j.chars e) = j.chars e := by
    rw [heq, skip_cons hspace]
  have hread := readValue_chars e j hj (2 * (j.chars e).length + 2) limit [] (by omega) hlimit
    delimited_nil
  rw [List.append_nil] at hread
  rw [parse, render, String.toList_ofList, ofChars, hskip, hread]
  rfl

end Json

end DocTable
