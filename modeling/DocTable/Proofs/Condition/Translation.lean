import DocTable.Condition.Translation
import DocTable.Proofs.OrderedMap
import DocTable.Proofs.Outcome
import DocTable.Proofs.Value.Names
import DocTable.Proofs.Value.Shown
import Mathlib.Data.List.Nodup
import Mathlib.Data.List.Perm.Basic

/-! Translation of conditions. `Condition.Reads` says how a condition on one field is read and
`Condition.Lists` which operands are sent for it; parsing and writing do just that. A map of
conditions is translated field by field, each under the stored name of its own field, so the fields
have nothing to do with each other. -/

namespace DocTable

namespace Comparison

/-- The tokens that stand for comparisons. -/
def tokens : List (String × Comparison) :=
  [("$gt", gt), ("$gte", ge), ("$lt", lt), ("$lte", le), ("$begins", beginsWith),
    ("$between", between)]

theorem ofToken?_eq_some {token : String} {c : Comparison} :
    ofToken? token = some c ↔ (token, c) ∈ tokens := by
  unfold ofToken?
  split <;> simp_all [tokens, eq_comm]

theorem isToken_of_mem {token : String} {c : Comparison} (h : (token, c) ∈ tokens) :
    (Value.text token).isToken = true := by
  have hall : ∀ t ∈ tokens, (Value.text t.1).isToken = true := by decide
  exact hall _ h

/-- No comparison is known to the store by a name that is a token. -/
theorem isToken_code (c : Comparison) : (Value.text c.code).isToken = false := by
  cases c <;> decide

theorem eq_code_of_ofCode? {code : String} {c : Comparison} (h : ofCode? code = some c) :
    code = c.code := by
  simpa [eq_comm] using List.find?_some h

/-- No name of a comparison has a character that stands in for half of a pair. -/
theorem lacksStandIns_of_mem {token : String} {c : Comparison} (h : (token, c) ∈ tokens) :
    Text.lacksStandIns token = true := by
  have hall : ∀ t ∈ tokens, Text.lacksStandIns t.1 = true := by decide
  exact hall _ h

theorem lacksStandIns_code (c : Comparison) : Text.lacksStandIns c.code = true := by
  cases c <;> decide

/-- Whether a comparison stands alone, with no value to compare with. -/
def Bare (c : Comparison) : Prop :=
  c = null ∨ c = notNull

/-- Whether a comparison looks for something within a value. -/
def LooksInside (c : Comparison) : Prop :=
  c = contains ∨ c = notContains

instance : DecidablePred Bare := fun c => inferInstanceAs (Decidable (c = null ∨ c = notNull))

instance : DecidablePred LooksInside :=
  fun c => inferInstanceAs (Decidable (c = contains ∨ c = notContains))

theorem arity?_eq_zero {c : Comparison} : c.arity? = some 0 ↔ c.Bare := by
  cases c <;> simp [arity?, Bare]

end Comparison

namespace Condition

variable {d : Definition} {c : Condition} {value : Value}

/-! ## Reading -/

/-- A key of a map names a comparison, as the store or as an application calls it. -/
inductive Names : Value → Comparison → Prop where
  | native (comparison : Comparison) : Names (.text comparison.code) comparison
  | token {token : String} {comparison : Comparison} (h : (token, comparison) ∈ Comparison.tokens) :
    Names (.text token) comparison

/-- How a condition on a field is read. A value that is no map is to be equaled. A map with one
entry whose key names a comparison is that comparison. Any other map, if no key of it is a token, is
to be equaled as a whole, by fields that can hold one. -/
inductive Reads (d : Definition) : Value → Condition → Prop where
  | plain {value : Value} (noMap : value.isMap = false) : Reads d value ⟨.eq, value⟩
  | named {key operand : Value} {comparison : Comparison} (names : Names key comparison) :
    Reads d (.map [(key, operand)]) ⟨comparison, operand⟩
  | whole {entries : Entries} (holdsMaps : d.json = true ∨ d.type = "M")
      (noToken : ∀ e ∈ entries, e.1.isToken = false)
      (noName : ∀ e, entries = [e] → ∀ comparison, ¬ Names e.1 comparison) :
    Reads d (.map entries) ⟨.eq, .map entries⟩

/-- The comparison that a key names, if it names one. -/
def named? (key : Value) : Option Comparison :=
  if key.isToken then Comparison.ofToken? key.plain else nativeOf? key

theorem named?_eq_some {key : Value} {comparison : Comparison} :
    named? key = some comparison ↔ Names key comparison := by
  constructor
  · intro h
    unfold named? at h
    split at h
    next htoken =>
      cases key with
      | text s =>
        generalize htext : (Value.text s).plain = token at h
        have hmem := Comparison.ofToken?_eq_some.mp h
        obtain rfl := (Spelling.mended_eq_iff (Comparison.lacksStandIns_of_mem hmem)).mp htext
        exact .token hmem
      | _ => cases htoken
    next =>
      cases key with
      | text s =>
        obtain rfl := (Spelling.mended_eq_iff (Comparison.lacksStandIns_code comparison)).mp
          (Comparison.eq_code_of_ofCode? h)
        exact .native comparison
      | _ => cases h
  · intro h
    cases h with
    | native => simp [named?, comparison.isToken_code, nativeOf?, Comparison.ofCode?_code]
    | token hmem =>
      simp [named?, Comparison.isToken_of_mem hmem, Comparison.ofToken?_eq_some.mpr hmem]

theorem named?_eq_none {key : Value} :
    named? key = none ↔ ∀ comparison, ¬ Names key comparison := by
  rw [Option.eq_none_iff_forall_ne_some]
  simp only [ne_eq, named?_eq_some]

theorem comparedType_eq_map : comparedType d = "M" ↔ d.json = true ∨ d.type = "M" := by
  cases h : d.json <;> simp [comparedType, Definition.heldType, h]

theorem wholeMap_eq_ok {field : String} :
    wholeMap field (some (comparedType d)) value = .ok c ↔
      (d.json = true ∨ d.type = "M") ∧ c = ⟨.eq, value⟩ := by
  rw [← comparedType_eq_map]
  by_cases hmap : comparedType d = "M"
  · simp [wholeMap, hmap, eq_comm]
  · simp only [hmap, false_and, iff_false]
    intro h
    unfold wholeMap at h
    split at h <;> simp_all

theorem parse_single {field : String} {key operand : Value} :
    parse field (.map [(key, operand)]) (some (comparedType d)) = .ok c ↔
      (∃ comparison, Names key comparison ∧ c = ⟨comparison, operand⟩) ∨
      (∀ comparison, ¬ Names key comparison) ∧ key.isToken = false ∧
        (d.json = true ∨ d.type = "M") ∧ c = ⟨.eq, .map [(key, operand)]⟩ := by
  cases hnamed : named? key with
  | some comparison =>
    have hparse : parse field (.map [(key, operand)]) (some (comparedType d)) =
        .ok ⟨comparison, operand⟩ := by
      unfold named? at hnamed
      split at hnamed <;> simp_all [parse]
    have hnames := named?_eq_some.mp hnamed
    rw [hparse]
    constructor
    · intro h
      exact .inl ⟨comparison, hnames, (Except.ok.inj h).symm⟩
    · rintro (⟨comparison', hnames', rfl⟩ | ⟨hno, -⟩)
      · rw [named?_eq_some.mpr hnames'] at hnamed
        exact Option.some.inj hnamed ▸ rfl
      · exact absurd hnames (hno comparison)
  | none =>
    have hno := named?_eq_none.mp hnamed
    have hparse : parse field (.map [(key, operand)]) (some (comparedType d)) = .ok c ↔
        key.isToken = false ∧
          wholeMap field (some (comparedType d)) (.map [(key, operand)]) = .ok c := by
      unfold named? at hnamed
      split at hnamed <;> simp_all [parse]
    rw [hparse, wholeMap_eq_ok]
    constructor
    · rintro ⟨htoken, hmaps, rfl⟩
      exact .inr ⟨hno, htoken, hmaps, rfl⟩
    · rintro (⟨comparison, hnames, -⟩ | ⟨-, htoken, hmaps, rfl⟩)
      · exact absurd hnames (hno comparison)
      · exact ⟨htoken, hmaps, rfl⟩

theorem parse_of_length_ne {field : String} {entries : Entries} (hlen : entries.length ≠ 1) :
    parse field (.map entries) (some (comparedType d)) = .ok c ↔
      (∀ e ∈ entries, e.1.isToken = false) ∧ (d.json = true ∨ d.type = "M") ∧
        c = ⟨.eq, .map entries⟩ := by
  have hparse : parse field (.map entries) (some (comparedType d)) =
      if entries.any (·.1.isToken) then .error (.translation (.severalOperators field))
      else wholeMap field (some (comparedType d)) (.map entries) := by
    match entries with
    | [] | _ :: _ :: _ => rfl
    | [_] => exact absurd rfl hlen
  rw [hparse]
  by_cases htoken : entries.any (·.1.isToken) = true
  · rw [if_pos htoken]
    obtain ⟨e, he, hetoken⟩ := List.any_eq_true.mp htoken
    constructor
    · intro h
      cases h
    · rintro ⟨hnone, -⟩
      rw [hnone e he] at hetoken
      cases hetoken
  · rw [if_neg htoken, wholeMap_eq_ok]
    have hnone : ∀ e ∈ entries, e.1.isToken = false := by simpa using htoken
    exact ⟨fun h => ⟨hnone, h⟩, fun h => h.2⟩

/-- A condition is parsed as it is read. -/
theorem parse_eq_ok {field : String} :
    parse field value (some (comparedType d)) = .ok c ↔ Reads d value c := by
  constructor
  · intro h
    cases value with
    | map entries =>
      match entries with
      | [(key, operand)] =>
        rcases parse_single.mp h with ⟨comparison, hnames, rfl⟩ | ⟨hno, htoken, hmaps, rfl⟩
        · exact .named hnames
        · refine .whole hmaps (fun e he => ?_) fun e he => ?_
          · exact List.mem_singleton.mp he ▸ htoken
          · exact List.singleton_inj.mp he ▸ hno
      | [] | _ :: _ :: _ =>
        obtain ⟨htoken, hmaps, rfl⟩ := (parse_of_length_ne (by simp)).mp h
        exact .whole hmaps htoken (by simp)
    | _ => exact Except.ok.inj h ▸ .plain rfl
  · intro h
    cases h with
    | plain noMap =>
      cases value with
      | map entries => cases noMap
      | _ => rfl
    | named hnames => exact parse_single.mpr (.inl ⟨_, hnames, rfl⟩)
    | @whole entries hmaps htoken hno =>
      by_cases hlen : entries.length = 1
      · obtain ⟨⟨key, operand⟩, rfl⟩ := List.length_eq_one_iff.mp hlen
        exact parse_single.mpr
          (.inr ⟨hno _ rfl, htoken _ (List.mem_singleton_self _), hmaps, rfl⟩)
      · exact (parse_of_length_ne hlen).mpr ⟨htoken, hmaps, rfl⟩

/-- The operands that are sent for a condition: none for a comparison that stands alone, two for
`between`, as many as there are alternatives for `oneOf`, and one for all others. Each is the
attribute value of its operand, or of what the operand may be within for comparisons that look
inside. -/
inductive Lists (d : Definition) : Condition → List Attr → Prop where
  | none {comparison : Comparison} {operand : Value} (alone : comparison.Bare)
      (flag : operand = .null ∨ operand = .bool true) : Lists d ⟨comparison, operand⟩ []
  | pair {operand low high : Value} {a b : Attr} (range : operand.array? = some [low, high])
      (low : d.encode low = .ok a) (high : d.encode high = .ok b) :
    Lists d ⟨.between, operand⟩ [a, b]
  | members {operand : Value} {alternatives : List Value} {as : List Attr}
      (array : operand.array? = some alternatives) (some : alternatives ≠ [])
      (each : List.Forall₂ (fun v a => d.encode v = .ok a) alternatives as) :
    Lists d ⟨.oneOf, operand⟩ as
  | inside {comparison : Comparison} {operand : Value} {a : Attr} (inside : comparison.LooksInside)
      (noArray : operand.isArray = false) (element : d.encodeElement operand = .ok a) :
    Lists d ⟨comparison, operand⟩ [a]
  | one {comparison : Comparison} {operand : Value} {a : Attr} (single : comparison.arity? = some 1)
      (outside : ¬ comparison.LooksInside) (noArray : operand.isArray = false)
      (whole : d.encode operand = .ok a) : Lists d ⟨comparison, operand⟩ [a]

theorem mapM_singleton_eq_ok {f : Value → Outcome Attr} {v : Value} {as : List Attr} :
    [v].mapM f = .ok as ↔ ∃ a, f v = .ok a ∧ as = [a] := by
  rw [Outcome.mapM_eq_ok]
  constructor
  · intro h
    cases h with
    | cons ha hnil =>
      cases hnil
      exact ⟨_, ha, rfl⟩
  · rintro ⟨a, ha, rfl⟩
    exact .cons ha .nil

theorem operands_of_bare {comparison : Comparison} (h : comparison.Bare) {operand : Value}
    {as : List Attr} : operands d ⟨comparison, operand⟩ = .ok as ↔
      (operand = .null ∨ operand = .bool true) ∧ as = [] := by
  have hbare : bare operand = true ↔ operand = .null ∨ operand = .bool true := by
    unfold bare
    split <;> simp_all
  have hoperands : operands d ⟨comparison, operand⟩ =
      if bare operand then .ok [] else .error (.translation (.takesNoValue comparison.code
        d.fieldName.mended)) := by
    rcases h with rfl | rfl <;> rfl
  rw [hoperands, ← hbare]
  by_cases hop : bare operand = true <;> simp [hop, eq_comm]

theorem operands_of_inside {comparison : Comparison} (h : comparison.LooksInside) {operand : Value}
    {as : List Attr} : operands d ⟨comparison, operand⟩ = .ok as ↔
      operand.isArray = false ∧ ∃ a, d.encodeElement operand = .ok a ∧ as = [a] := by
  have hoperands : operands d ⟨comparison, operand⟩ =
      if operand.isArray then
        .error (.translation (.arrayOperand comparison.code d.fieldName.mended))
      else [operand].mapM d.encodeElement := by
    rcases h with rfl | rfl <;> rfl
  rw [hoperands, ← mapM_singleton_eq_ok]
  cases operand.isArray <;> simp

theorem operands_of_single {comparison : Comparison} (h : comparison.arity? = some 1)
    (houtside : ¬ comparison.LooksInside) {operand : Value} {as : List Attr} :
    operands d ⟨comparison, operand⟩ = .ok as ↔
      operand.isArray = false ∧ ∃ a, d.encode operand = .ok a ∧ as = [a] := by
  have hoperands : operands d ⟨comparison, operand⟩ =
      if operand.isArray then
        .error (.translation (.arrayOperand comparison.code d.fieldName.mended))
      else [operand].mapM d.encode := by
    cases comparison with
    | null | notNull | between | oneOf => cases h
    | contains | notContains => exact absurd (by decide) houtside
    | _ => rfl
  rw [hoperands, ← mapM_singleton_eq_ok]
  cases operand.isArray <;> simp

/-- The operands of a condition are what it lists. -/
theorem operands_eq_ok {as : List Attr} : c.operands d = .ok as ↔ Lists d c as := by
  obtain ⟨comparison, operand⟩ := c
  constructor
  · intro h
    cases comparison with
    | null | notNull =>
      obtain ⟨hflag, rfl⟩ := (operands_of_bare (by decide)).mp h
      exact .none (by decide) hflag
    | oneOf =>
      simp only [operands] at h
      split at h
      next v vs harray => exact .members harray (by simp) (Outcome.mapM_eq_ok.mp h)
      next => cases h
    | between =>
      simp only [operands] at h
      split at h
      next low high harray =>
        cases Outcome.mapM_eq_ok.mp h with
        | cons hlow hrest =>
          obtain ⟨b, hhigh, rfl⟩ := mapM_singleton_eq_ok.mp (Outcome.mapM_eq_ok.mpr hrest)
          exact .pair harray hlow hhigh
      next => cases h
    | contains | notContains =>
      obtain ⟨harray, a, ha, rfl⟩ := (operands_of_inside (by decide)).mp h
      exact .inside (by decide) harray ha
    | _ =>
      obtain ⟨harray, a, ha, rfl⟩ := (operands_of_single rfl (by decide)).mp h
      exact .one rfl (by decide) harray ha
  · intro h
    cases h with
    | none halone hflag => exact (operands_of_bare halone).mpr ⟨hflag, rfl⟩
    | pair harray hlow hhigh =>
      simp only [operands, harray]
      exact Outcome.mapM_eq_ok.mpr (.cons hlow (.cons hhigh .nil))
    | @members _ alternatives _ harray hsome heach =>
      match alternatives with
      | [] => exact absurd rfl hsome
      | v :: vs =>
        simp only [operands, harray]
        exact Outcome.mapM_eq_ok.mpr heach
    | inside hinside harray ha => exact (operands_of_inside hinside).mpr ⟨harray, _, ha, rfl⟩
    | one hsingle houtside harray ha =>
      exact (operands_of_single hsingle houtside).mpr ⟨harray, _, ha, rfl⟩

end Condition

namespace Condition

variable {fields : Fields} {e : Value × Value} {o : Spelling × StoredCondition}
  {entries : List (Value × Value)} {out : StoredConditions}

/-! ## One field -/

/-- What a condition on a field becomes: it is read by the field and sent under its stored name,
with the operands that it lists. -/
inductive Becomes (fields : Fields) : Value × Value → Spelling × StoredCondition → Prop where
  | intro {name : Spelling} {d : Definition} {value : Value} {c : Condition} {operands : List Attr}
      (field : fields.find? name = some d) (reads : Reads d value c) (lists : Lists d c operands) :
    Becomes fields (.text name, value) (d.storedName, ⟨c.comparison, operands⟩)

theorem lookup_eq_ok {key : Value} {d : Definition} :
    fields.lookup key = .ok d ↔ ∃ name, key = .text name ∧ fields.find? name = some d := by
  unfold Fields.lookup
  split
  next name =>
    simp only [Value.text.injEq, exists_eq_left']
    cases fields.find? name <;> simp
  next hname =>
    refine iff_of_false (fun h => ?_) fun ⟨name, heq, _⟩ => hname name heq
    obtain ⟨_, -, h⟩ := Outcome.bind_eq_ok.mp h
    cases h

theorem fails_lookup (key : Value) :
    Outcome.Fails (fun f => (∃ name, f = .unknownField name) ∨ key.hasText = false ∧ f = .badText)
      (fields.lookup key) := by
  unfold Fields.lookup
  split
  next =>
    split
    · exact Outcome.fails_ok _
    · exact Outcome.fails_error.mpr (.inl ⟨_, rfl⟩)
  next =>
    refine ((Value.fails_plainText key).mono fun _ h => .inr h).bind fun name _ => ?_
    exact Outcome.fails_error.mpr (.inl ⟨name, rfl⟩)

theorem translateField_eq_ok :
    translateField fields e.1 e.2 = .ok o ↔ Becomes fields e o := by
  constructor
  · intro h
    obtain ⟨key, value⟩ := e
    obtain ⟨d, hd, hrest⟩ := Outcome.bind_eq_ok.mp h
    obtain ⟨c, hc, hrest⟩ := Outcome.bind_eq_ok.mp hrest
    obtain ⟨operands, hoperands, hrest⟩ := Outcome.bind_eq_ok.mp hrest
    cases hrest
    obtain ⟨name, rfl, hfield⟩ := lookup_eq_ok.mp hd
    exact .intro hfield (parse_eq_ok.mp hc) (operands_eq_ok.mp hoperands)
  · intro h
    cases h with
    | intro hfield hreads hlists =>
      refine Outcome.bind_eq_ok.mpr ⟨_, lookup_eq_ok.mpr ⟨_, rfl, hfield⟩, ?_⟩
      refine Outcome.bind_eq_ok.mpr ⟨_, parse_eq_ok.mpr hreads, ?_⟩
      exact Outcome.bind_eq_ok.mpr ⟨_, operands_eq_ok.mpr hlists, rfl⟩

/-! ## All fields -/

theorem translateEntries_eq_ok {done : StoredConditions} :
    translateEntries fields done entries = .ok out ↔
      ∃ os, List.Forall₂ (Becomes fields) entries os ∧ out = done.overlay os := by
  induction entries generalizing done with
  | nil => simp [translateEntries, eq_comm]
  | cons e entries ih =>
    rw [translateEntries, Outcome.bind_eq_ok]
    constructor
    · rintro ⟨o, ho, h⟩
      obtain ⟨os, hos, rfl⟩ := ih.mp h
      exact ⟨o :: os, .cons (translateField_eq_ok.mp ho) hos, rfl⟩
    · rintro ⟨os, hos, rfl⟩
      cases hos with
      | cons ho hos => exact ⟨_, translateField_eq_ok.mpr ho, ih.mpr ⟨_, hos, rfl⟩⟩

/-- The stored names of different fields are different. -/
def Separate (fields : Fields) : Prop :=
  (fields.map (·.2.storedName)).Nodup

theorem Separate.eq_of_storedName (hfields : Separate fields) {name name' : Spelling}
    {d d' : Definition} (h : fields.find? name = some d) (h' : fields.find? name' = some d')
    (heq : d.storedName = d'.storedName) : name = name' :=
  congrArg Prod.fst (List.inj_on_of_nodup_map hfields (OrderedMap.mem_of_find? h)
    (OrderedMap.mem_of_find? h') heq)

/-- Conditions on different fields are sent under different names. -/
theorem distinct_of_becomes (hfields : Separate fields) (hentries : OrderedMap.Distinct entries)
    (h : List.Forall₂ (Becomes fields) entries out) : out.Distinct := by
  induction h with
  | nil => exact .nil
  | @cons e o entries out hfirst hrest ih =>
    obtain ⟨hnew, hdistinct⟩ := List.pairwise_cons.mp hentries
    refine .cons (fun o' ho' => beq_eq_false_iff_ne.mpr fun heq => ?_) (ih hdistinct)
    obtain ⟨e', he', hother⟩ := Outcome.exists_of_mem_forall₂ hrest ho'
    cases hfirst with
    | intro hfield =>
      cases hother with
      | intro hfield' =>
        have hname := hfields.eq_of_storedName hfield hfield' heq
        have hne := hnew _ he'
        rw [hname, Value.beq_text.mpr rfl] at hne
        cases hne

theorem translate_of_becomes {entries : Entries} (h : List.Forall₂ (Becomes fields) entries out)
    (hdistinct : out.Distinct) : translate fields (.map entries) = .ok out :=
  translateEntries_eq_ok.mpr ⟨out, h, (OrderedMap.ofList_of_distinct hdistinct).symm⟩

/-- Translating conditions on different fields is translating each of them. -/
theorem translate_eq_ok {entries : Entries} (hfields : Separate fields)
    (hentries : OrderedMap.Distinct entries) :
    translate fields (.map entries) = .ok out ↔ List.Forall₂ (Becomes fields) entries out := by
  constructor
  · intro h
    obtain ⟨os, hos, rfl⟩ := translateEntries_eq_ok.mp h
    have hdistinct := distinct_of_becomes hfields hentries hos
    rw [OrderedMap.overlay_of_distinct (m := []) hdistinct]
    exact hos
  · intro h
    exact translate_of_becomes h (distinct_of_becomes hfields hentries h)

theorem translate_single (hfields : Separate fields) :
    translate fields (.map [e]) = .ok out ↔ ∃ o, Becomes fields e o ∧ out = [o] := by
  rw [translate_eq_ok hfields (List.pairwise_singleton _ _)]
  constructor
  · intro h
    cases h with
    | cons ho hnil =>
      cases hnil
      exact ⟨_, ho, rfl⟩
  · rintro ⟨o, ho, rfl⟩
    exact .cons ho .nil

/-- What a map of conditions becomes: the union of what its entries become one by one, each under a
name of its own. Operands are sent unless the comparison stands alone. The order of the fields does
not count. -/
structure Translated (fields : Fields) (entries : Entries) (out : StoredConditions) : Prop where
  names : out.keys.Nodup
  each : List.Forall₂ (fun e o => translate fields (.map [e]) = .ok [o] ∧ Becomes fields e o)
    entries out
  sent : ∀ o ∈ out, o.2.toValue = .map ((if o.2.comparison.Bare then []
      else [(.text "AttributeValueList", .list (Attr.toValues o.2.operands))]) ++
    [(.text "ComparisonOperator", .text o.2.comparison.code)])
  order : ∀ entries' : Entries, entries'.Perm entries →
    ∃ out', translate fields (.map entries') = .ok out' ∧ out'.Perm out

theorem translated_of_eq_ok {entries : Entries} (hfields : Separate fields)
    (hentries : OrderedMap.Distinct entries) (h : translate fields (.map entries) = .ok out) :
    Translated fields entries out := by
  have hbecomes := (translate_eq_ok hfields hentries).mp h
  have hnames := OrderedMap.distinct_iff_nodup.mp (distinct_of_becomes hfields hentries hbecomes)
  refine ⟨hnames, ?_, fun o _ => ?_, fun entries' hperm => ?_⟩
  · exact hbecomes.imp fun e o ho => ⟨(translate_single hfields).mpr ⟨o, ho, rfl⟩, ho⟩
  · simp only [StoredCondition.toValue, Comparison.arity?_eq_zero]
  · obtain ⟨out', hbecomes', hperm'⟩ := List.perm_comp_forall₂ hperm hbecomes
    have hdistinct : OrderedMap.Distinct out' :=
      OrderedMap.distinct_iff_nodup.mpr ((hperm'.map _).nodup_iff.mpr hnames)
    exact ⟨out', translate_of_becomes hbecomes' hdistinct, hperm'⟩

/-- **Conditions are translated field by field.** A map of conditions on different fields can be
translated if and only if each of them can be alone, and becomes their union. -/
theorem translate_fieldwise {entries : Entries} (hfields : Separate fields)
    (hentries : OrderedMap.Distinct entries) :
    ((∃ out, translate fields (.map entries) = .ok out) ↔
      ∀ e ∈ entries, ∃ out, translate fields (.map [e]) = .ok out) ∧
    ∀ out, translate fields (.map entries) = .ok out → Translated fields entries out := by
  refine ⟨⟨?_, fun h => ?_⟩, fun out => translated_of_eq_ok hfields hentries⟩
  · rintro ⟨out, h⟩ e he
    obtain ⟨o, -, hsingle, -⟩ :=
      Outcome.exists_of_mem_forall₂ (translated_of_eq_ok hfields hentries h).each.flip he
    exact ⟨[o], hsingle⟩
  · obtain ⟨out, hout⟩ := Outcome.exists_forall₂ fun e he => by
      obtain ⟨out, hout⟩ := h e he
      obtain ⟨o, ho, -⟩ := (translate_single hfields).mp hout
      exact ⟨o, ho⟩
    exact ⟨out, (translate_eq_ok hfields hentries).mpr hout⟩

/-- Fields of scores: who scored, how much, and how the score is described. -/
def scoreFields : Fields :=
  [("player", { fieldName := "player", storedName := "p", type := "S" }),
    ("score", { fieldName := "score", storedName := "s", type := "N" }),
    ("notes", { fieldName := "notes", storedName := "n", type := "SS" }),
    ("extra", { fieldName := "extra", storedName := "x", type := "M" })]

def scoreConditions : Entries :=
  [(.text "score", .map [(.text "$between", .list [.int 1, .int 20])]),
    (.text "notes", .map [(.text "CONTAINS", .text "late")]),
    (.text "player", .map [(.text "NULL", .bool true)]),
    (.text "extra", .map [(.text "NE", .text "a"), (.text "b", .list [])])]

theorem translate_fieldwise_scores : Separate scoreFields ∧ OrderedMap.Distinct scoreConditions ∧
    ∃ out, translate scoreFields (.map scoreConditions) = .ok out ∧
      Translated scoreFields scoreConditions out := by
  have hfields : Separate scoreFields := by unfold Separate; decide
  have hconditions : OrderedMap.Distinct scoreConditions := by
    simp [OrderedMap.Distinct, scoreConditions, Value.text_beq_text]
  have hok : (translate scoreFields (.map scoreConditions)).isOk = true := by decide +kernel
  obtain ⟨out, hout⟩ := Outcome.exists_of_isOk hok
  exact ⟨hfields, hconditions, out, hout, (translate_fieldwise hfields hconditions).2 out hout⟩

end Condition

end DocTable
