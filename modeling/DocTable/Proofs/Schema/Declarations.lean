import DocTable.Proofs.Schema.Keys
import Mathlib.Data.List.Induction
import Mathlib.Data.Set.List

/-! Which declarations make a schema. Going through the keys marks their fields and does nothing
else, so a schema is made of exactly those declarations that are a valid layout. -/

namespace DocTable

open Outcome

namespace KeyRole

theorem ofCode?_eq_some {code : String} {role : KeyRole} :
    ofCode? code = some role ↔ code = role.code := by
  unfold ofCode?
  constructor
  · intro h
    split at h
    next heq => exact Option.some.inj h ▸ heq
    next =>
      split at h
      next heq => exact Option.some.inj h ▸ heq
      next => cases h
  · rintro rfl
    cases role <;> rfl

theorem ofValue?_eq_some {v : Value} {role : KeyRole} :
    ofValue? v = .ok (some role) ↔ v = .text role.code := by
  cases v with
  | text code =>
    rw [ofValue?, Except.ok.injEq, ofCode?_eq_some, Value.text.injEq]
    exact Spelling.mended_eq_iff (by cases role <;> decide)
  | _ =>
    simp only [ofValue?, reduceCtorEq, iff_false]
    split <;> simp

theorem exists_ofValue? {v : Value} (h : v.hashable = true) :
    ∃ role?, ofValue? v = .ok role? := by
  cases v with
  | text code => exact ⟨ofCode? code.mended, rfl⟩
  | _ => exact ⟨none, by simp only [ofValue?, h, if_true]⟩

end KeyRole

/-! ## Marks -/

/-- A field that is declared to be a key, or that is not. -/
def Definition.inRole (d : Definition) : Option KeyRole → Definition
  | some role => { d with keyType := some role.code }
  | none => d

@[simp] theorem Definition.storedName_inRole (d : Definition) (role? : Option KeyRole) :
    (d.inRole role?).storedName = d.storedName := by
  cases role? <;> rfl

@[simp] theorem Definition.type_inRole (d : Definition) (role? : Option KeyRole) :
    (d.inRole role?).type = d.type := by
  cases role? <;> rfl

@[simp] theorem Definition.canBeKey_inRole (d : Definition) (role? : Option KeyRole) :
    (d.inRole role?).canBeKey = d.canBeKey := by
  cases role? <;> rfl

namespace Schema

variable {s : Schema} {fields : OrderedMap Spelling Definition}
  {hashFields rangeFields : List Spelling} {tableName : Option Spelling} {name : Spelling}
  {d : Definition} {roles : List (Spelling × KeyRole)} {role : KeyRole}

/-! ## Going through keys -/

namespace KeyDeclarations

variable {done done' : KeyDeclarations}

/-- The fields after one of them is declared to be a key. -/
def declare (done : KeyDeclarations) (role : KeyRole) (name : Spelling) (d : Definition) :
    KeyDeclarations :=
  let fields := done.fields.put name { d with keyType := some role.code }
  match role with
  | .hash => { done with fields, hashFields := done.hashFields ++ [name] }
  | .range => { done with fields, rangeFields := done.rangeFields ++ [name] }

theorem add_eq_ok {field keyType : Value} : done.add field keyType = .ok done' ↔
    ∃ name role d, field = .text name ∧ keyType = .text role.code ∧
      done.fields.find? name = some d ∧ done' = done.declare role name d := by
  unfold add
  rw [bind_eq_ok]
  constructor
  · rintro ⟨role?, hrole, h⟩
    split at h
    next => exact absurd h (bind_ne_ok fun _ => bind_ne_ok fun _ => nofun)
    next role =>
      split at h
      next name =>
        split at h
        next => cases h
        next d hd =>
          refine ⟨name, role, d, rfl, KeyRole.ofValue?_eq_some.mp hrole, hd, ?_⟩
          cases role <;> exact (Except.ok.inj h).symm
      next => exact absurd h (bind_ne_ok fun _ => nofun)
  · rintro ⟨name, role, d, rfl, rfl, hd, rfl⟩
    refine ⟨some role, KeyRole.ofValue?_eq_some.mpr rfl, ?_⟩
    dsimp only
    rw [hd]
    cases role <;> rfl

end KeyDeclarations

/-! ## Roles -/

/-- The declarations that give fields their roles. -/
def declarations (roles : List (Spelling × KeyRole)) : Entries :=
  roles.map fun r => (.text r.1, .text r.2.code)

/-- The names of the fields that are declared in a role. -/
def namesOf (roles : List (Spelling × KeyRole)) (role : KeyRole) : List Spelling :=
  (roles.filter (·.2 = role)).map (·.1)

/-- The fields after some of them are declared in their roles. -/
def mark (roles : List (Spelling × KeyRole)) (fields : OrderedMap Spelling Definition) :
    OrderedMap Spelling Definition :=
  fields.map fun f => (f.1, f.2.inRole ((OrderedMap.ofList roles).find? f.1))

theorem mem_namesOf : name ∈ namesOf roles role ↔ (name, role) ∈ roles := by
  simp [namesOf]

theorem mem_namesOf_append :
    name ∈ namesOf roles .hash ++ namesOf roles .range ↔ ∃ role, (name, role) ∈ roles := by
  rw [List.mem_append, mem_namesOf, mem_namesOf]
  constructor
  · rintro (h | h) <;> exact ⟨_, h⟩
  · rintro ⟨role, h⟩
    cases role
    exacts [.inl h, .inr h]

theorem namesOf_concat (roles : List (Spelling × KeyRole)) (r : Spelling × KeyRole)
    (role : KeyRole) :
    namesOf (roles ++ [r]) role = namesOf roles role ++ if r.2 = role then [r.1] else [] := by
  simp only [namesOf, List.filter_append, List.map_append]
  by_cases h : r.2 = role <;> simp [h]

theorem keys_mark (roles : List (Spelling × KeyRole)) (fields : OrderedMap Spelling Definition) :
    (mark roles fields).keys = fields.keys := by
  simp [mark, OrderedMap.keys]

theorem find?_mark (roles : List (Spelling × KeyRole)) (fields : OrderedMap Spelling Definition)
    (name : Spelling) : (mark roles fields).find? name =
      (fields.find? name).map (·.inRole ((OrderedMap.ofList roles).find? name)) :=
  OrderedMap.find?_mapWithKey
    (fun name (d : Definition) => d.inRole ((OrderedMap.ofList roles).find? name)) fields name

/-- A field has the key type of the declarations in which it is named. -/
inductive Marked (hashFields rangeFields : List Spelling) (name : Spelling) :
    Option String → Prop where
  | plain (noHash : name ∉ hashFields) (noRange : name ∉ rangeFields) :
    Marked hashFields rangeFields name none
  | hash (h : name ∈ hashFields) : Marked hashFields rangeFields name (some KeyRole.hash.code)
  | range (h : name ∈ rangeFields) : Marked hashFields rangeFields name (some KeyRole.range.code)

/-- The mark of a field tells a role in which it is declared, if it has no other. -/
theorem marked_inRole (h : d.keyType = none ∨ ∃ role, (name, role) ∈ roles) :
    Marked (namesOf roles .hash) (namesOf roles .range) name
      (d.inRole ((OrderedMap.ofList roles).find? name)).keyType := by
  cases hfind : (OrderedMap.ofList roles).find? name with
  | none =>
    have hnot : ∀ role, (name, role) ∉ roles := fun role hmem =>
      OrderedMap.find?_eq_none.mp hfind (OrderedMap.mem_keys_ofList.mpr (List.mem_map_of_mem hmem))
    have hnone : (d.inRole none).keyType = none :=
      h.resolve_right fun ⟨role, hmem⟩ => hnot role hmem
    rw [hnone]
    exact .plain (fun hmem => hnot _ (mem_namesOf.mp hmem)) fun hmem =>
      hnot _ (mem_namesOf.mp hmem)
  | some role =>
    have hmem := OrderedMap.mem_of_find?_ofList hfind
    cases role with
    | hash => exact .hash (mem_namesOf.mpr hmem)
    | range => exact .range (mem_namesOf.mpr hmem)

theorem exists_find?_mark (hdeclared : ∀ r ∈ roles, r.1 ∈ fields.keys)
    (hname : name ∈ namesOf roles .hash ++ namesOf roles .range) :
    ∃ d, (mark roles fields).find? name = some d := by
  obtain ⟨role, hr⟩ := mem_namesOf_append.mp hname
  exact OrderedMap.exists_find? (by rw [keys_mark]; exact hdeclared _ hr)

/-- Declaring one more key marks its field. -/
theorem declare_mark (hnames : fields.keys.Nodup) (hd : (mark roles fields).find? name = some d)
    (role : KeyRole) :
    (⟨mark roles fields, namesOf roles .hash, namesOf roles .range⟩ : KeyDeclarations).declare
        role name d =
      ⟨mark (roles ++ [(name, role)]) fields, namesOf (roles ++ [(name, role)]) .hash,
        namesOf (roles ++ [(name, role)]) .range⟩ := by
  have hkeys : ((mark roles fields).put name { d with keyType := some role.code }).keys =
      (mark (roles ++ [(name, role)]) fields).keys := by
    rw [OrderedMap.keys_put_of_find? hd, keys_mark, keys_mark]
  have hfields : (mark roles fields).put name { d with keyType := some role.code } =
      mark (roles ++ [(name, role)]) fields := by
    refine OrderedMap.ext_of_find? hkeys (by rwa [hkeys, keys_mark]) fun other => ?_
    rw [OrderedMap.find?_put, find?_mark, find?_mark, OrderedMap.ofList_concat,
      OrderedMap.find?_put]
    split
    next heq =>
      obtain rfl := eq_of_beq heq
      rw [find?_mark] at hd
      obtain ⟨d₀, hd₀, rfl⟩ := Option.map_eq_some_iff.mp hd
      rw [hd₀]
      generalize OrderedMap.find? (OrderedMap.ofList roles) name = role?
      cases role? <;> rfl
    next => rfl
  rw [namesOf_concat, namesOf_concat, ← hfields]
  cases role <;> simp [KeyDeclarations.declare]

/-- **Going through the keys** succeeds if each of them gives a declared field a role, and then
marks these fields. -/
theorem foldlM_add_eq_ok {entries : Entries} {done : KeyDeclarations}
    (hnames : fields.keys.Nodup) :
    entries.foldlM (fun done e => done.add e.1 e.2) { fields : KeyDeclarations } = .ok done ↔
      ∃ roles, entries = declarations roles ∧ (∀ r ∈ roles, r.1 ∈ fields.keys) ∧
        done = ⟨mark roles fields, namesOf roles .hash, namesOf roles .range⟩ := by
  induction entries using List.reverseRecOn generalizing done with
  | nil =>
    have hstart : mark [] fields = fields := by simp [mark, Definition.inRole, OrderedMap.ofList]
    constructor
    · intro h
      exact ⟨[], rfl, List.forall_mem_nil _, by rw [← Except.ok.inj h, hstart]; rfl⟩
    · rintro ⟨roles, hroles, -, rfl⟩
      obtain rfl := List.map_eq_nil_iff.mp hroles.symm
      rw [hstart]
      rfl
  | append_singleton entries e ih =>
    rw [List.foldlM_append, bind_eq_ok]
    simp only [List.foldlM_cons, List.foldlM_nil, bind_pure, ih, KeyDeclarations.add_eq_ok]
    constructor
    · rintro ⟨-, ⟨roles, rfl, hdeclared, rfl⟩, name, role, d, hname, hrole, hd, rfl⟩
      obtain ⟨k, v⟩ := e
      obtain rfl : k = .text name := hname
      obtain rfl : v = .text role.code := hrole
      have hmem : name ∈ fields.keys :=
        keys_mark roles fields ▸ List.mem_map_of_mem (OrderedMap.mem_of_find? hd)
      refine ⟨roles ++ [(name, role)], by simp [declarations], ?_, declare_mark hnames hd role⟩
      exact List.forall_mem_append.mpr ⟨hdeclared, List.forall_mem_singleton.mpr hmem⟩
    · rintro ⟨roles, hroles, hdeclared, rfl⟩
      obtain ⟨roles, last, rfl, rfl, hlast⟩ := List.map_eq_append_iff.mp hroles.symm
      obtain ⟨⟨name, role⟩, rfl, rfl⟩ := List.map_eq_singleton_iff.mp hlast
      obtain ⟨hbefore, hname⟩ := List.forall_mem_append.mp hdeclared
      have hmem : name ∈ (mark roles fields).keys := by
        rw [keys_mark]
        exact hname _ (List.mem_singleton_self _)
      obtain ⟨d, hd⟩ := OrderedMap.exists_find? hmem
      exact ⟨_, ⟨roles, rfl, hbefore, rfl⟩, name, role, d, rfl, rfl, hd,
        (declare_mark hnames hd role).symm⟩

theorem defineFrom_eq_ok {entries : Entries} (hnames : fields.keys.Nodup) :
    defineFrom entries fields tableName = .ok s ↔
      ∃ roles, entries = declarations roles ∧ (∀ r ∈ roles, r.1 ∈ fields.keys) ∧
        Laid (mark roles fields) (namesOf roles .hash) (namesOf roles .range) tableName s := by
  rw [defineFrom, bind_eq_ok]
  simp only [foldlM_add_eq_ok hnames, assemble_eq_ok]
  constructor
  · rintro ⟨-, ⟨roles, rfl, hdeclared, rfl⟩, h⟩
    exact ⟨roles, rfl, hdeclared, h⟩
  · rintro ⟨roles, rfl, hdeclared, h⟩
    exact ⟨_, ⟨roles, rfl, hdeclared, rfl⟩, h⟩

/-! ## Valid layouts -/

theorem exists_laid_iff : (∃ s, Laid fields hashFields rangeFields tableName s) ↔
    (fields.map (·.2.storedName)).Nodup ∧
    (∃ hash, hashFields = [hash] ∧ hash ∉ rangeFields ∧ hash ∈ fields.keys) ∧
    rangeFields.length ≤ 1 ∧ (∀ f ∈ fields, Tag.isDeclarable f.2.type = true) ∧
    ∀ name ∈ hashFields ++ rangeFields, ∀ d, fields.find? name = some d → d.canBeKey = true := by
  constructor
  · rintro ⟨s, h⟩
    obtain ⟨hash, rfl, hother, hhash⟩ := h.hash
    have hfields : s.fields = fields := by rw [h.eq]
    have hrangeKey : s.rangeKey = rangeFields.head?.bind fields.find? := by rw [h.eq]
    refine ⟨h.storedNames, ⟨hash, rfl, hother, List.mem_map_of_mem (OrderedMap.mem_of_find? hhash)⟩,
      h.range, hfields ▸ h.typed.fields, List.forall_mem_cons.mpr ⟨fun d hd => ?_, ?_⟩⟩
    · obtain rfl := Option.some.inj (hhash.symm.trans hd)
      exact h.typed.keys (.hash, s.hashKey) List.mem_cons_self
    · intro name hname d hd
      match rangeFields, h.range with
      | [range], _ =>
        obtain rfl := List.mem_singleton.mp hname
        exact h.typed.keys (.range, d) (mem_keyFields.mpr (.inr ⟨d, hrangeKey.trans hd, rfl⟩))
  · rintro ⟨hstored, ⟨hash, rfl, hother, hmem⟩, hrange, htypes, hkeys⟩
    obtain ⟨hashKey, hhash⟩ := OrderedMap.exists_find? hmem
    refine ⟨⟨fields, hashKey, rangeFields.head?.bind fields.find?, tableName⟩, hstored,
      ⟨hash, rfl, hother, hhash⟩, hrange, rfl, htypes, fun k hk => ?_⟩
    rcases mem_keyFields.mp hk with rfl | ⟨d, hd, rfl⟩
    · exact hkeys hash List.mem_cons_self _ hhash
    · obtain ⟨name, hname, hd⟩ := Option.bind_eq_some_iff.mp hd
      exact hkeys name (List.mem_cons_of_mem _ (List.mem_of_head? hname)) d hd

/-- What declarations of keys and fields must be like to make a schema. -/
structure ValidLayout (keys : OrderedMap Spelling Spelling)
    (fields : OrderedMap Spelling Definition) : Prop where
  keyTypes : ∀ k ∈ keys, k.2 = "HASH" ∨ k.2 = "RANGE"
  declared : ∀ k ∈ keys, k.1 ∈ fields.keys
  hash : keys.countP (·.2 = .plain "HASH") = 1
  range : keys.countP (·.2 = .plain "RANGE") ≤ 1
  storedNames : (fields.map (·.2.storedName)).Nodup
  types : ∀ f ∈ fields, f.2.type ∈ ["S", "N", "B", "BOOL", "SS", "NS", "BS", "L", "M"]
  keyFields : ∀ k ∈ keys, ∀ d, fields.find? k.1 = some d →
    d.type ∈ ["S", "N", "B"] ∧ d.json = false

theorem isDeclarable_iff {code : String} : Tag.isDeclarable code = true ↔
    code ∈ ["S", "N", "B", "BOOL", "SS", "NS", "BS", "L", "M"] := by
  simp [Tag.isDeclarable, Tag.declarable, Tag.code, @eq_comm _ _ code]

theorem canBeKey_iff : d.canBeKey = true ↔ d.type ∈ ["S", "N", "B"] ∧ d.json = false := by
  simp [Definition.canBeKey, and_comm, or_assoc]

/-- A field with the key type of its role. -/
def withKeyType (r : Spelling × KeyRole) : Spelling × Spelling :=
  (r.1, r.2.code)

/-- Key types that all name roles. -/
theorem exists_roles_iff {keys : OrderedMap Spelling Spelling} :
    (∀ k ∈ keys, k.2 = "HASH" ∨ k.2 = "RANGE") ↔
      ∃ roles : List (Spelling × KeyRole), roles.map withKeyType = keys := by
  have hrole : ∀ k : Spelling × Spelling,
      k.2 = "HASH" ∨ k.2 = "RANGE" ↔ ∃ r : Spelling × KeyRole, withKeyType r = k := by
    rintro ⟨name, keyType⟩
    constructor
    · rintro (rfl | rfl)
      exacts [⟨(name, .hash), rfl⟩, ⟨(name, .range), rfl⟩]
    · rintro ⟨⟨name, role⟩, h⟩
      cases h
      cases role <;> simp [KeyRole.code]
  simp only [hrole]
  exact (Set.ext_iff.mp (Set.range_list_map withKeyType) keys).symm

theorem length_namesOf (roles : List (Spelling × KeyRole)) (role : KeyRole) :
    (namesOf roles role).length =
      (roles.map withKeyType).countP (·.2 = .plain role.code) := by
  rw [namesOf, List.length_map, ← List.countP_eq_length_filter, List.countP_map]
  refine List.countP_congr fun r _ => ?_
  obtain ⟨name, role'⟩ := r
  cases role' <;> cases role <;> simp [KeyRole.code, withKeyType]

/-- Roles that are declared are a valid layout if the marked fields make one. -/
theorem validLayout_iff (hroles : (roles.map (·.1)).Nodup) :
    ValidLayout (roles.map withKeyType) fields ↔
      (∀ r ∈ roles, r.1 ∈ fields.keys) ∧
      ∃ s, Laid (mark roles fields) (namesOf roles .hash) (namesOf roles .range) tableName s := by
  have hstored : (mark roles fields).map (·.2.storedName) = fields.map (·.2.storedName) := by
    simp [mark]
  have htypes : (∀ f ∈ mark roles fields, Tag.isDeclarable f.2.type = true) ↔
      ∀ f ∈ fields, f.2.type ∈ ["S", "N", "B", "BOOL", "SS", "NS", "BS", "L", "M"] := by
    simp only [mark, List.forall_mem_map, Definition.type_inRole, isDeclarable_iff]
  have hkeys : (∀ name ∈ namesOf roles .hash ++ namesOf roles .range, ∀ d,
      (mark roles fields).find? name = some d → d.canBeKey = true) ↔
      ∀ r ∈ roles, ∀ d, fields.find? r.1 = some d → d.type ∈ ["S", "N", "B"] ∧ d.json = false := by
    constructor
    · intro h r hr d hd
      have hmarked := h r.1 (mem_namesOf_append.mpr ⟨r.2, hr⟩) _ (by rw [find?_mark, hd]; rfl)
      rwa [Definition.canBeKey_inRole, canBeKey_iff] at hmarked
    · intro h name hname d hd
      obtain ⟨role, hr⟩ := mem_namesOf_append.mp hname
      obtain ⟨d₀, hd₀, rfl⟩ := Option.map_eq_some_iff.mp ((find?_mark ..).symm.trans hd)
      rw [Definition.canBeKey_inRole, canBeKey_iff]
      exact h _ hr d₀ hd₀
  rw [exists_laid_iff, hstored, htypes, hkeys, keys_mark]
  constructor
  · rintro ⟨hkeyTypes, hdeclared, hhash, hrange, hstored, htypes, hkeyFields⟩
    rw [List.forall_mem_map] at hdeclared hkeyFields
    obtain ⟨hash, hnames⟩ :=
      List.length_eq_one_iff.mp ((length_namesOf roles .hash).trans hhash)
    have hmem : (hash, .hash) ∈ roles := mem_namesOf.mp (hnames ▸ List.mem_singleton_self hash)
    have hother : hash ∉ namesOf roles .range := fun hrange =>
      nomatch List.inj_on_of_nodup_map hroles hmem (mem_namesOf.mp hrange) rfl
    exact ⟨hdeclared, hstored, ⟨hash, hnames, hother, hdeclared _ hmem⟩,
      (length_namesOf roles .range).trans_le hrange, htypes, hkeyFields⟩
  · rintro ⟨hdeclared, hstored, ⟨hash, hhash, hother, hmem⟩, hrange, htypes, hkeyFields⟩
    rw [length_namesOf] at hrange
    refine ⟨exists_roles_iff.mpr ⟨roles, rfl⟩, List.forall_mem_map.mpr hdeclared, ?_, hrange,
      hstored,
      htypes, List.forall_mem_map.mpr hkeyFields⟩
    exact (length_namesOf roles .hash).symm.trans (by rw [hhash]; rfl)

theorem define_eq_ok {keys : OrderedMap Spelling Spelling} (hnames : fields.keys.Nodup) :
    define keys fields tableName = .ok s ↔
      ∃ roles, keys = roles.map withKeyType ∧ (∀ r ∈ roles, r.1 ∈ fields.keys) ∧
        Laid (mark roles fields) (namesOf roles .hash) (namesOf roles .range) tableName s := by
  let texts (k : Spelling × Spelling) : Value × Value := (.text k.1, .text k.2)
  have hinjective : Function.Injective texts := by
    rintro ⟨name, keyType⟩ ⟨name', keyType'⟩ h
    cases h
    rfl
  have hentries : ∀ roles : List (Spelling × KeyRole),
      keys.map texts = declarations roles ↔ keys = roles.map withKeyType := by
    intro roles
    rw [← (List.map_injective_iff.mpr hinjective).eq_iff, List.map_map]
    rfl
  rw [define, defineFrom_eq_ok hnames]
  exact exists_congr fun roles => and_congr_left' (hentries roles)

/-- **Declarations make a schema if and only if they are a valid layout.** -/
theorem exists_define_iff {keys : OrderedMap Spelling Spelling} (hkeys : keys.keys.Nodup)
    (hnames : fields.keys.Nodup) :
    (∃ s, define keys fields tableName = .ok s) ↔ ValidLayout keys fields := by
  simp only [define_eq_ok hnames]
  constructor
  · rintro ⟨s, roles, rfl, h⟩
    refine (validLayout_iff ?_).mpr ⟨h.1, s, h.2⟩
    simpa [OrderedMap.keys, Function.comp_def, withKeyType] using hkeys
  · intro h
    obtain ⟨roles, rfl⟩ := exists_roles_iff.mp h.keyTypes
    have hroles : (roles.map (·.1)).Nodup := by
      simpa [OrderedMap.keys, Function.comp_def, withKeyType] using hkeys
    obtain ⟨hdeclared, s, hlaid⟩ := (validLayout_iff hroles).mp h
    exact ⟨s, roles, rfl, hdeclared, hlaid⟩

/-! ## Refusals -/

/-- A failure that says what is wrong with a layout. -/
def BadLayout (f : Failure) : Prop :=
  ∃ fault, f = .layout fault

theorem fails_layout {α : Type} (fault : LayoutFault) :
    Fails BadLayout (.error (.layout fault) : Outcome α) :=
  fails_error.mpr ⟨fault, rfl⟩

theorem fails_checkStoredNames (seen : OrderedMap Spelling Spelling) :
    Fails BadLayout (checkStoredNames seen fields) := by
  induction fields generalizing seen with
  | nil => exact fails_ok ()
  | cons f fields ih =>
    rw [checkStoredNames]
    split
    next => exact fails_layout _
    next => exact ih _

theorem fails_checkTypes (s : Schema) : Fails BadLayout s.checkTypes :=
  (Fails.forM fun _ _ => .ite (fails_ok ()) (fails_layout _)).bind fun _ _ =>
    Fails.forM fun _ _ => .ite (fails_ok ()) (fails_layout _)

theorem fails_assemble :
    Fails BadLayout (assemble fields hashFields rangeFields tableName) := by
  unfold assemble
  split
  next hash =>
    refine .ite (fails_layout _) (.ite (fails_layout _) ((fails_checkStoredNames _).bind ?_))
    intro _ _
    split
    next => exact (fails_checkTypes _).bind fun _ _ => fails_ok _
    next => exact fails_layout _
  next => exact fails_layout _

/-- A key type that can be looked up and shown is refused for the layout only. -/
theorem fails_add (done : KeyDeclarations) (name : Spelling) {keyType : Value}
    (hhashable : keyType.hashable = true) (htext : keyType.hasText = true) :
    Fails BadLayout (done.add (.text name) keyType) := by
  obtain ⟨role?, hrole⟩ := KeyRole.exists_ofValue? hhashable
  unfold KeyDeclarations.add
  rw [hrole]
  refine (fails_ok role?).bind fun role? _ => ?_
  cases role? with
  | none =>
    refine (fails_ok name.mended).bind fun name _ => ?_
    rw [Value.plainText, if_pos htext]
    exact fails_layout _
  | some role =>
    dsimp only
    split
    next => exact fails_layout _
    next => cases role <;> exact fails_ok _

/-- Declarations whose key types are texts are refused for their layout only. -/
theorem fails_define (keys : OrderedMap Spelling Spelling) :
    Fails BadLayout (define keys fields tableName) :=
  (Fails.foldlM (fun done e he => by
    obtain ⟨k, -, rfl⟩ := List.mem_map.mp he
    exact fails_add done k.1 rfl rfl) _).bind fun _ _ => fails_assemble

end Schema

end DocTable
