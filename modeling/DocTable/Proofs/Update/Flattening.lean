import DocTable.Proofs.Value.Shown
import DocTable.Update.Basic

/-! Flattening of update documents. `Change.Asks` says which changes an entry asks for, in either of
the two ways in which changes are written; a document flattens to what its entries ask for, one
after the other, and to nothing else. -/

namespace DocTable

theorem Value.isMap_eq_false {v : Value} : v.isMap = false ↔ ∀ entries, v ≠ .map entries := by
  cases v <;> simp [Value.isMap]

namespace ChangeKind

/-- The tokens that stand for kinds of changes. -/
def tokens : List (String × ChangeKind) :=
  [("$set", put), ("$unset", delete), ("$inc", add)]

/-- Whether a text is the name of a kind of change, each letter in either case. -/
def Spelled (s : String) (kind : ChangeKind) : Prop :=
  List.Forall₂ (fun c letter => c = letter ∨ c = letter.toLower) s.toList kind.code.toList

instance : DecidableRel Spelled :=
  fun _ _ => inferInstanceAs (Decidable (List.Forall₂ _ _ _))

/-- A key of a map names a kind of change: by a token, or by its name in any case. -/
inductive Names : Value → ChangeKind → Prop where
  | token {token : String} {kind : ChangeKind} (h : (token, kind) ∈ tokens) :
    Names (.text token) kind
  | spelled {s : String} {kind : ChangeKind} (h : Spelled s kind) : Names (.text s) kind

theorem ofToken?_eq_some {token : String} {kind : ChangeKind} :
    ofToken? token = some kind ↔ (token, kind) ∈ tokens := by
  unfold ofToken?
  split <;> simp_all [tokens, eq_comm]

theorem isToken_of_mem {token : String} {kind : ChangeKind} (h : (token, kind) ∈ tokens) :
    (Value.text token).isToken = true := by
  have hall : ∀ t ∈ tokens, (Value.text t.1).isToken = true := by decide
  exact hall _ h

/-- No name of a kind has a character that stands in for half of a pair. -/
theorem lacksStandIns_of_names {s : String} {kind : ChangeKind} (h : Names (.text s) kind) :
    Text.lacksStandIns s = true := by
  have htokens : ∀ t ∈ tokens, Text.lacksStandIns t.1 = true := by decide
  have hcode : (kind.code.toList.all fun letter =>
      letter.toNat < Text.firstStandIn && letter.toLower.toNat < Text.firstStandIn) = true := by
    cases kind <;> decide
  cases h with
  | token hmem => exact htokens _ hmem
  | spelled hspelled =>
    refine List.all_eq_true.mpr fun c hc => ?_
    obtain ⟨letter, hletter, hor⟩ := Outcome.exists_of_mem_forall₂ hspelled.flip hc
    obtain ⟨hupper, hlower⟩ := Bool.and_eq_true_iff.mp (List.all_eq_true.mp hcode letter hletter)
    rcases hor with rfl | rfl
    · exact hupper
    · exact hlower

theorem not_spelled_of_mem {token : String} {kind kind' : ChangeKind}
    (h : (token, kind) ∈ tokens) : ¬ Spelled token kind' := by
  have hall : ∀ t ∈ tokens, ¬ Spelled t.1 kind' := by cases kind' <;> decide
  exact hall _ h

theorem ofCode?_eq_some {code : String} {kind : ChangeKind} :
    ofCode? code = some kind ↔ code = kind.code := by
  constructor
  · intro h
    simpa [eq_comm] using List.find?_some h
  · rintro rfl
    cases kind <;> decide

/-! ## Letters in either case -/

/-- Whether a character is a capital letter. -/
def Capital (letter : Char) : Prop :=
  'A'.val ≤ letter.val ∧ letter.val ≤ 'Z'.val

theorem toUpper_eq_iff {c letter : Char} (h : Capital letter) :
    c.toUpper = letter ↔ c = letter ∨ c = letter.toLower := by
  have hlower : letter.toLower.val = letter.val + 32 := by
    unfold Char.toLower
    split
    next => rfl
    next hno => exact absurd h hno
  have hcapital : 65 ≤ letter.val.toNat ∧ letter.val.toNat ≤ 90 := h
  simp only [Char.ext_iff, hlower]
  unfold Char.toUpper
  split
  next hc =>
    have hsmall : 97 ≤ c.val.toNat ∧ c.val.toNat ≤ 122 := hc
    have hdiff : 'A'.val - 'a'.val = 4294967264 := rfl
    simp only [← UInt32.toNat_inj, UInt32.toNat_add, hdiff, UInt32.reduceToNat]
    omega
  next hc =>
    have hother : ¬ (97 ≤ c.val.toNat ∧ c.val.toNat ≤ 122) := hc
    simp only [← UInt32.toNat_inj, UInt32.toNat_add, UInt32.reduceToNat]
    omega

theorem map_toUpper_eq_iff {cs letters : List Char} (h : ∀ letter ∈ letters, Capital letter) :
    cs.map Char.toUpper = letters ↔
      List.Forall₂ (fun c letter => c = letter ∨ c = letter.toLower) cs letters := by
  induction letters generalizing cs with
  | nil => simp
  | cons letter letters ih =>
    obtain ⟨hfirst, hrest⟩ := List.forall_mem_cons.mp h
    cases cs with
    | nil => simp
    | cons c cs =>
      rw [List.map_cons, List.cons.injEq, List.forall₂_cons, toUpper_eq_iff hfirst, ih hrest]

theorem spelled_iff {s : String} {kind : ChangeKind} :
    Spelled s kind ↔ ofCode? (String.ofList (s.toList.map Char.toUpper)) = some kind := by
  have hcapital : ∀ letter ∈ kind.code.toList, Capital letter := by
    cases kind <;> simp [code, Capital]
  rw [ofCode?_eq_some, Spelled, ← map_toUpper_eq_iff hcapital, ← String.toList_inj,
    String.toList_ofList]

theorem ofName?_eq_some {s : String} {kind : ChangeKind} :
    ofName? s = some kind ↔ Names (.text s) kind := by
  unfold ofName?
  cases htoken : ofToken? s with
  | some kind' =>
    have hmem := ofToken?_eq_some.mp htoken
    constructor
    · intro h
      exact .token (Option.some.inj h ▸ hmem)
    · intro h
      cases h with
      | token h => exact htoken.symm.trans (ofToken?_eq_some.mpr h)
      | spelled h => exact absurd h (not_spelled_of_mem hmem)
  | none =>
    constructor
    · intro h
      exact .spelled (spelled_iff.mpr h)
    · intro h
      cases h with
      | token h => cases htoken.symm.trans (ofToken?_eq_some.mpr h)
      | spelled h => exact spelled_iff.mp h

end ChangeKind

namespace Change

variable {key value : Value} {e : Value × Value} {entries : List (Value × Value)}
  {changes : List Change}

theorem namedKind?_eq_some {name : Value} {kind : ChangeKind} :
    namedKind? name = some kind ↔ ChangeKind.Names name kind := by
  cases name with
  | text s =>
    refine ChangeKind.ofName?_eq_some.trans ⟨fun h => ?_, fun h => ?_⟩
    · have hplain : s = s.mended :=
        (Spelling.mended_eq_iff (ChangeKind.lacksStandIns_of_names h)).mp rfl
      exact (congrArg (fun s => ChangeKind.Names (.text s) kind) hplain).mpr h
    · cases h with
      | token hmem => exact .token hmem
      | spelled hspelled => exact .spelled hspelled
  | _ => exact ⟨nofun, nofun⟩

theorem kindOf_eq_ok {name : Value} {kind : ChangeKind} :
    kindOf key name = .ok kind ↔ ChangeKind.Names name kind := by
  rw [← namedKind?_eq_some, kindOf]
  cases namedKind? name with
  | some kind' => simp
  | none => exact iff_of_false (Outcome.bind_ne_ok fun _ => Outcome.bind_ne_ok nofun) nofun

/-- The changes that an entry of an update document asks for. Under a token stand fields, each with
its operand, that are named by the texts of the keys. A field by itself has a value that is to be
put, or a map with one entry whose key names a kind of change. -/
inductive Asks : Value × Value → List Change → Prop where
  | token {token : String} {kind : ChangeKind} {operands : Entries}
      (h : (token, kind) ∈ ChangeKind.tokens) (named : ∀ e ∈ operands, e.1.hasText = true) :
    Asks (.text token, .map operands) (operands.map fun e => ⟨.text e.1.spelling, kind, e.2⟩)
  | put {key value : Value} (noToken : key.isToken = false) (noMap : value.isMap = false) :
    Asks (key, value) [⟨key, .put, value⟩]
  | named {key name operand : Value} {kind : ChangeKind} (noToken : key.isToken = false)
      (names : ChangeKind.Names name kind) :
    Asks (key, .map [(name, operand)]) [⟨key, kind, operand⟩]

/-- What an update document flattens to: what its entries ask for, in order. -/
def Flattens (entries : List (Value × Value)) (changes : List Change) : Prop :=
  ∃ parts, List.Forall₂ Asks entries parts ∧ changes = parts.flatten

/-- Operands are asked for by the texts of their keys, which must all have one. -/
theorem mapM_spelled_eq_ok {kind : ChangeKind} {operands : Entries} :
    (operands.mapM fun (name, v) => do return (⟨.text (← name.spelled), kind, v⟩ : Change)) =
        .ok changes ↔ (∀ e ∈ operands, e.1.hasText = true) ∧
      changes = operands.map fun e => ⟨.text e.1.spelling, kind, e.2⟩ := by
  rw [Outcome.mapM_eq_ok]
  induction operands generalizing changes with
  | nil =>
    rw [List.forall₂_nil_left_iff]
    exact ⟨fun h => ⟨fun _ he => absurd he List.not_mem_nil, h⟩, And.right⟩
  | cons e operands ih =>
    rw [List.forall₂_cons_left_iff, List.forall_mem_cons]
    constructor
    · rintro ⟨c, rest, hfirst, hrest, rfl⟩
      obtain ⟨s, hs, hc⟩ := Outcome.bind_eq_ok.mp hfirst
      obtain ⟨htext, rfl⟩ := Value.spelled_eq_ok.mp hs
      obtain ⟨htexts, rfl⟩ := ih.mp hrest
      exact ⟨⟨htext, htexts⟩, by rw [← Except.ok.inj hc, List.map_cons]⟩
    · rintro ⟨⟨htext, htexts⟩, rfl⟩
      refine ⟨_, _, ?_, ih.mpr ⟨htexts, rfl⟩, rfl⟩
      exact Outcome.bind_eq_ok.mpr ⟨_, Value.spelled_eq_ok.mpr ⟨htext, rfl⟩, rfl⟩

/-- A token is a text without halves of pairs. -/
theorem exists_of_ofToken? {s : Spelling} {kind : ChangeKind}
    (h : ChangeKind.ofToken? s.mended = some kind) :
    ∃ token : String, s = token ∧ (token, kind) ∈ ChangeKind.tokens := by
  have hmem := ChangeKind.ofToken?_eq_some.mp h
  exact ⟨s.mended, (Spelling.mended_eq_iff
    (ChangeKind.lacksStandIns_of_names (.token hmem))).mp rfl, hmem⟩

theorem ofEntry_of_token (h : key.isToken = true) :
    ofEntry key value = .ok changes ↔ Asks (key, value) changes := by
  cases key with
  | text s =>
    simp only [ofEntry, h, if_true, Value.plain_text]
    constructor
    · intro hentry
      split at hentry
      next => cases hentry
      next kind hkind =>
        obtain ⟨token, rfl, hmem⟩ := exists_of_ofToken? hkind
        split at hentry
        next operands =>
          obtain ⟨hnamed, rfl⟩ := mapM_spelled_eq_ok.mp hentry
          exact .token hmem hnamed
        next => cases hentry
    · intro hasks
      cases hasks with
      | token hmem hnamed =>
        rw [Spelling.mended_plain, ChangeKind.ofToken?_eq_some.mpr hmem]
        exact mapM_spelled_eq_ok.mpr ⟨hnamed, rfl⟩
      | put hno | named hno => rw [h] at hno; cases hno
  | _ => cases h

theorem ofEntry_of_field (h : key.isToken = false) :
    ofEntry key value = .ok changes ↔ Asks (key, value) changes := by
  unfold ofEntry
  rw [h, if_neg Bool.false_ne_true]
  constructor
  · intro hentry
    split at hentry
    next name operand =>
      obtain ⟨kind, hkind, hentry⟩ := Outcome.bind_eq_ok.mp hentry
      exact Except.ok.inj hentry ▸ .named h (kindOf_eq_ok.mp hkind)
    next => exact absurd hentry (Outcome.bind_ne_ok nofun)
    next hno => exact Except.ok.inj hentry ▸ .put h (Value.isMap_eq_false.mpr hno)
  · intro hasks
    cases hasks with
    | token hmem =>
      rw [ChangeKind.isToken_of_mem hmem] at h
      cases h
    | put hno hvalue =>
      split
      next => cases hvalue
      next => cases hvalue
      next => rfl
    | named hno hnames => exact Outcome.bind_eq_ok.mpr ⟨_, kindOf_eq_ok.mpr hnames, rfl⟩

theorem ofEntry_eq_ok : ofEntry e.1 e.2 = .ok changes ↔ Asks e changes := by
  cases h : e.1.isToken with
  | true => exact ofEntry_of_token h
  | false => exact ofEntry_of_field h

/-- **Documents flatten** to what their entries ask for, if every entry asks for something. -/
theorem flatten_eq_ok : flatten entries = .ok changes ↔ Flattens entries changes := by
  induction entries generalizing changes with
  | nil =>
    simp [flatten, Flattens, eq_comm]
  | cons e entries ih =>
    rw [flatten, Outcome.bind_eq_ok]
    constructor
    · rintro ⟨first, hfirst, h⟩
      obtain ⟨rest, hrest, h⟩ := Outcome.bind_eq_ok.mp h
      obtain ⟨parts, hparts, rfl⟩ := ih.mp hrest
      exact ⟨first :: parts, .cons (ofEntry_eq_ok.mp hfirst) hparts, (Except.ok.inj h).symm⟩
    · rintro ⟨parts, hparts, rfl⟩
      cases hparts with
      | cons hfirst hrest =>
        exact ⟨_, ofEntry_eq_ok.mpr hfirst,
          Outcome.bind_eq_ok.mpr ⟨_, ih.mpr ⟨_, hrest, rfl⟩, rfl⟩⟩

/-- A document flattens in one way at most. -/
theorem Flattens.unique {changes' : List Change} (h : Flattens entries changes)
    (h' : Flattens entries changes') : changes = changes' :=
  Except.ok.inj ((flatten_eq_ok.mpr h).symm.trans (flatten_eq_ok.mpr h'))

/-! ## Refusals -/

/-- Whether an entry of an update document has a key without a text: its own, or one of its map. -/
def Wordless (e : Value × Value) : Prop :=
  e.1.hasText = false ∨ ∃ inner, e.2 = .map inner ∧ ∃ e' ∈ inner, e'.1.hasText = false

/-- A failure for which an entry does not flatten: a refusal, or a key that has no text. -/
def Unflat (entries : List (Value × Value)) (f : Failure) : Prop :=
  (∃ fault, f = .translation fault) ∨ f = .badText ∧ ∃ e ∈ entries, Wordless e

theorem fails_plainText {v : Value} (h : v.hasText = false → Wordless e) :
    Outcome.Fails (Unflat [e]) v.plainText :=
  v.fails_plainText.mono fun _ ⟨hv, hf⟩ => .inr ⟨hf, e, List.mem_singleton_self e, h hv⟩

theorem fails_kindOf (key name operand : Value) :
    Outcome.Fails (Unflat [(key, .map [(name, operand)])]) (kindOf key name) := by
  unfold kindOf
  split
  next => exact Outcome.fails_ok _
  next =>
    have hname : name.hasText = false → Wordless (key, .map [(name, operand)]) := fun h =>
      .inr ⟨_, rfl, _, List.mem_singleton_self _, h⟩
    exact (fails_plainText hname).bind fun _ _ => (fails_plainText .inl).bind fun _ _ =>
      Outcome.fails_error.mpr (.inl ⟨_, rfl⟩)

theorem fails_ofEntry (key value : Value) :
    Outcome.Fails (Unflat [(key, value)]) (ofEntry key value) := by
  unfold ofEntry
  split
  · split
    · exact Outcome.fails_error.mpr (.inl ⟨_, rfl⟩)
    · split
      · refine Outcome.Fails.mapM fun e he => ?_
        refine (e.1.fails_spelled.mono fun f hf => ?_).bind fun _ _ => Outcome.fails_ok _
        exact .inr ⟨hf.2, _, List.mem_singleton_self _, .inr ⟨_, rfl, e, he, hf.1⟩⟩
      · exact Outcome.fails_error.mpr (.inl ⟨_, rfl⟩)
  · split
    · exact (fails_kindOf key _ _).bind fun _ _ => Outcome.fails_ok _
    · exact (fails_plainText .inl).bind fun _ _ => Outcome.fails_error.mpr (.inl ⟨_, rfl⟩)
    · exact Outcome.fails_ok _

/-- A document that does not flatten cannot be translated. -/
theorem fails_flatten (entries : List (Value × Value)) :
    Outcome.Fails (Unflat entries) (flatten entries) := by
  induction entries with
  | nil => exact Outcome.fails_ok []
  | cons e entries ih =>
    have hfirst : Outcome.Fails (Unflat (e :: entries)) (ofEntry e.1 e.2) :=
      (fails_ofEntry e.1 e.2).mono fun f hf => hf.imp id fun ⟨hbad, e', he', hwordless⟩ =>
        ⟨hbad, e', List.mem_cons.mpr (.inl (List.mem_singleton.mp he')), hwordless⟩
    have hrest : Outcome.Fails (Unflat (e :: entries)) (flatten entries) :=
      ih.mono fun f hf => hf.imp id fun ⟨hbad, e', he', hwordless⟩ =>
        ⟨hbad, e', List.mem_cons_of_mem e he', hwordless⟩
    exact hfirst.bind fun _ _ => hrest.bind fun _ _ => Outcome.fails_ok _

end Change

end DocTable
