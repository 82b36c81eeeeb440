import DocTable.Text.Blank
import DocTable.Token.Base64

/-! Bytes in base 64 are read back, with the padding or with what completes it. The alphabet and the
groups of six bits are looked at apart: reading undoes each of the two. -/

namespace DocTable.Base64

variable {a : Alphabet} {n : Nat} {bytes : List UInt8}

theorem digit_facts : ∀ a, ∀ n < 64,
    value? a (digit a n) = some n ∧ digit a n ≠ '=' ∧ (digit a n).toNat < 128 := by
  intro a
  cases a <;> decide

/-- The characters that stand in a URL as they are. -/
def UrlSafe (c : Char) : Prop :=
  c.isAlphanum = true ∨ c = '-' ∨ c = '_'

instance : DecidablePred UrlSafe :=
  fun c => inferInstanceAs (Decidable (c.isAlphanum = true ∨ c = '-' ∨ c = '_'))

theorem urlSafe_digit : ∀ n < 64, UrlSafe (digit .forUrls n) := by
  decide

theorem isBlank_digit : ∀ n < 64, Text.isBlank (digit .forUrls n) = false := by
  decide

theorem lt_of_mem_sextets (h : n ∈ sextets bytes) : n < 64 := by
  induction bytes using sextets.induct with
  | case1 => cases h
  | case2 x =>
    have hx := x.toNat_lt
    simp only [sextets, List.mem_cons, List.not_mem_nil, or_false] at h
    omega
  | case3 x y =>
    have hx := x.toNat_lt
    have hy := y.toNat_lt
    simp only [sextets, List.mem_cons, List.not_mem_nil, or_false] at h
    omega
  | case4 x y z rest ih =>
    have hx := x.toNat_lt
    have hy := y.toNat_lt
    have hz := z.toNat_lt
    rcases List.mem_append.mp h with hfirst | hrest
    · simp only [List.mem_cons, List.not_mem_nil, or_false] at hfirst
      omega
    · exact ih hrest

/-- A last group may be short of bits, but never holds a single six of them. -/
theorem length_sextets (bytes : List UInt8) : (sextets bytes).length % 4 ≠ 1 := by
  induction bytes using sextets.induct with
  | case4 x y z rest ih =>
    rw [sextets, List.length_append]
    simpa using ih
  | _ => simp [sextets]

/-- A byte is what its bits say, however they are cut. -/
theorem ofNat_eq {x : UInt8} (h : n = x.toNat) : UInt8.ofNat n = x := by
  rw [h, UInt8.ofNat_toNat]

theorem ofSextets_sextets (bytes : List UInt8) : ofSextets (sextets bytes) = bytes := by
  induction bytes using sextets.induct with
  | case1 => rfl
  | case2 x =>
    have hx := x.toNat_lt
    simp only [sextets, ofSextets, List.cons.injEq, and_true]
    exact ofNat_eq (by omega)
  | case3 x y =>
    have hx := x.toNat_lt
    have hy := y.toNat_lt
    simp only [sextets, ofSextets, List.cons.injEq, and_true]
    exact ⟨ofNat_eq (by omega), ofNat_eq (by omega)⟩
  | case4 x y z rest ih =>
    have hx := x.toNat_lt
    have hy := y.toNat_lt
    have hz := z.toNat_lt
    simp only [sextets, List.cons_append, List.nil_append, ofSextets, ih, List.cons.injEq, and_true]
    exact ⟨ofNat_eq (by omega), ofNat_eq (by omega), ofNat_eq (by omega)⟩

/-- Characters of the alphabet are read one by one, wherever in a group of four they begin. -/
theorem readSextets?_digits {ns : List Nat} (hns : ∀ n ∈ ns, n < 64) (place : Nat)
    (rest : List Char) (hplace : place < 4) :
    readSextets? a place 0 (ns.map (digit a) ++ rest) =
      (readSextets? a ((place + ns.length) % 4) 0 rest).map (ns ++ ·) := by
  induction ns generalizing place with
  | nil => simp [Nat.mod_eq_of_lt hplace]
  | cons n ns ih =>
    obtain ⟨hn, hrest⟩ := List.forall_mem_cons.mp hns
    obtain ⟨hvalue, hpad, -⟩ := digit_facts a n hn
    have hnext : (place + 1) % 4 < 4 := Nat.mod_lt _ (by decide)
    have hcount : ((place + 1) % 4 + ns.length) % 4 = (place + (ns.length + 1)) % 4 := by omega
    rw [List.map_cons, List.cons_append, readSextets?, if_neg hpad, hvalue]
    simp only [ih hrest _ hnext, hcount, List.length_cons, Option.map_map]
    rfl

theorem readSextets?_padding (h : n % 4 ≠ 1) : readSextets? a (n % 4) 0 (padding n) = some [] := by
  have hcases : n % 4 = 0 ∨ n % 4 = 2 ∨ n % 4 = 3 := by omega
  rcases hcases with h | h | h <;> simp [padding, h, readSextets?, List.replicate]

/-- **What was written is read.** -/
theorem decode_encode (a : Alphabet) (bytes : List UInt8) :
    decode a (encode a bytes) = .ok bytes := by
  have hlt : ∀ n ∈ sextets bytes, n < 64 := fun n => lt_of_mem_sextets
  have hread : readSextets? a 0 0 (encode a bytes) = some (sextets bytes) := by
    rw [encode, encodeBare, readSextets?_digits hlt 0 _ (by decide), List.length_map, Nat.zero_add,
      readSextets?_padding (length_sextets bytes), Option.map_some, List.append_nil]
  have hascii : (encode a bytes).all (·.toNat < 128) = true := by
    rw [List.all_eq_true, encode, encodeBare]
    intro c hc
    rcases List.mem_append.mp hc with hdigit | hpad
    · obtain ⟨n, hn, rfl⟩ := List.mem_map.mp hdigit
      exact decide_eq_true (digit_facts a n (hlt n hn)).2.2
    · rw [List.eq_of_mem_replicate hpad]
      decide
  rw [decode, if_pos hascii, hread]
  simp only [ofSextets_sextets]

theorem urlSafe_of_mem_encodeBare {c : Char} (h : c ∈ encodeBare .forUrls bytes) : UrlSafe c := by
  obtain ⟨n, hn, rfl⟩ := List.mem_map.mp h
  exact urlSafe_digit n (lt_of_mem_sextets hn)

theorem isBlank_of_mem_encodeBare {c : Char} (h : c ∈ encodeBare .forUrls bytes) :
    Text.isBlank c = false := by
  obtain ⟨n, hn, rfl⟩ := List.mem_map.mp h
  exact isBlank_digit n (lt_of_mem_sextets hn)

end DocTable.Base64
