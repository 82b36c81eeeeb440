import DocTable.Proofs.OrderedMap
import DocTable.Value.Basic

/-! Maps with names for keys: what is found under a name after entries were put, and which names
there are. -/

namespace DocTable

theorem Value.beq_text {v : Value} {s : Spelling} : (v == .text s) = true ↔ v = .text s := by
  show v.same (.text s) = true ↔ _
  cases v <;> simp [Value.same, Value.sameAtom, Value.number?]

theorem Value.text_beq_text (s s' : Spelling) :
    (Value.text s == .text s') = (s == s') := by
  rw [Bool.eq_iff_iff, beq_text, beq_iff_eq, Value.text.injEq]

theorem Value.text_plain_inj {s s' : String} (h : Value.text s = .text s') : s = s' :=
  Spelling.plain.inj (Value.text.inj h)

namespace Entries

variable {entries rest : Entries} {k v : Value} {name name' : String}

theorem find?_put_self (entries : Entries) (name : String) (v : Value) :
    (entries.put (.text name) v).find? (.text name) = some v := by
  induction entries with
  | nil => simp [OrderedMap.put, OrderedMap.find?, Value.beq_text]
  | cons e entries ih =>
    by_cases h : e.1 = .text name
    · simp [OrderedMap.put, OrderedMap.find?, Value.beq_text, h]
    · simp [OrderedMap.put, OrderedMap.find?, Value.beq_text, h, ih]

theorem find?_put_of_ne (h : name ≠ name') (entries : Entries) (v : Value) :
    (entries.put (.text name) v).find? (.text name') = entries.find? (.text name') := by
  have hne : Value.text name ≠ .text name' := fun heq => h (Value.text_plain_inj heq)
  induction entries with
  | nil => simp [OrderedMap.put, OrderedMap.find?, Value.beq_text, hne]
  | cons e entries ih =>
    by_cases he : e.1 = .text name
    · simp [OrderedMap.put, OrderedMap.find?, Value.beq_text, he, hne]
    · by_cases he' : e.1 = .text name'
      · simp [OrderedMap.put, OrderedMap.find?, Value.beq_text, he', hne.symm]
      · simp [OrderedMap.put, OrderedMap.find?, Value.beq_text, he, he', ih]

/-- Putting an entry adds no key but its own. -/
theorem mem_put {e : Value × Value} (h : e ∈ entries.put k v) :
    e.1 = k ∨ ∃ e' ∈ entries, e'.1 = e.1 := by
  induction entries with
  | nil => exact .inl (congrArg Prod.fst (List.mem_singleton.mp h))
  | cons e₀ entries ih =>
    by_cases hk : (e₀.1 == k) = true
    · rw [OrderedMap.put, if_pos hk] at h
      rcases List.mem_cons.mp h with rfl | hmem
      · exact .inr ⟨e₀, List.mem_cons_self, rfl⟩
      · exact .inr ⟨e, List.mem_cons_of_mem _ hmem, rfl⟩
    · rw [OrderedMap.put, if_neg hk] at h
      rcases List.mem_cons.mp h with rfl | hmem
      · exact .inr ⟨e₀, List.mem_cons_self, rfl⟩
      · rcases ih hmem with heq | ⟨e', he', heq⟩
        · exact .inl heq
        · exact .inr ⟨e', List.mem_cons_of_mem _ he', heq⟩

theorem distinct_put (h : OrderedMap.Distinct entries) (k v : Value) :
    OrderedMap.Distinct (entries.put k v) := by
  induction entries with
  | nil => exact List.pairwise_singleton _ _
  | cons e entries ih =>
    obtain ⟨hfirst, hrest⟩ := List.pairwise_cons.mp h
    rw [OrderedMap.put]
    split
    next => exact List.pairwise_cons.mpr ⟨hfirst, hrest⟩
    next hne =>
      refine List.pairwise_cons.mpr ⟨fun e' he' => ?_, ih hrest⟩
      rcases mem_put he' with heq | ⟨e'', he'', heq⟩
      · rw [heq]
        exact Bool.eq_false_iff.mpr hne
      · exact heq ▸ hfirst e'' he''

theorem distinct_erase (h : OrderedMap.Distinct entries) (k : Value) :
    OrderedMap.Distinct (OrderedMap.erase entries k) :=
  h.sublist List.filter_sublist

/-- Putting an entry adds no value but its own. -/
theorem value_of_mem_put {e : Value × Value} (h : e ∈ entries.put k v) :
    e.2 = v ∨ e ∈ entries := by
  induction entries with
  | nil => exact .inl (congrArg Prod.snd (List.mem_singleton.mp h))
  | cons e₀ entries ih =>
    by_cases hk : (e₀.1 == k) = true
    · rw [OrderedMap.put, if_pos hk] at h
      rcases List.mem_cons.mp h with rfl | hmem
      · exact .inl rfl
      · exact .inr (List.mem_cons_of_mem _ hmem)
    · rw [OrderedMap.put, if_neg hk] at h
      rcases List.mem_cons.mp h with rfl | hmem
      · exact .inr List.mem_cons_self
      · exact (ih hmem).imp_right (List.mem_cons_of_mem _)

theorem mem_overlay {e : Value × Value} (h : e ∈ entries.overlay rest) :
    (∃ e' ∈ rest, e'.1 = e.1) ∨ ∃ e' ∈ entries, e'.1 = e.1 := by
  induction rest generalizing entries with
  | nil => exact .inr ⟨e, h, rfl⟩
  | cons e₀ rest ih =>
    rcases ih h with ⟨e', he', heq⟩ | ⟨e', he', heq⟩
    · exact .inl ⟨e', List.mem_cons_of_mem _ he', heq⟩
    · rcases mem_put he' with hkey | ⟨e'', he'', heq'⟩
      · exact .inl ⟨e₀, List.mem_cons_self, hkey.symm.trans heq⟩
      · exact .inr ⟨e'', he'', heq'.trans heq⟩

theorem overlay_append (entries first rest : Entries) :
    entries.overlay (first ++ rest) = (entries.overlay first).overlay rest :=
  List.foldl_append

/-- Whether all keys are among some names. -/
def NamedIn (names : List String) (entries : Entries) : Prop :=
  ∀ e ∈ entries, ∃ name ∈ names, e.1 = .text name

namespace NamedIn

variable {names : List String}

theorem nil : NamedIn names [] :=
  fun _ h => absurd h List.not_mem_nil

theorem cons (hname : name ∈ names) (h : NamedIn names entries) :
    NamedIn names ((.text name, v) :: entries) :=
  List.forall_mem_cons.mpr ⟨⟨name, hname, rfl⟩, h⟩

theorem mono (h : NamedIn names entries) {names' : List String} (hnames : names ⊆ names') :
    NamedIn names' entries := fun e he => by
  obtain ⟨name, hname, heq⟩ := h e he
  exact ⟨name, hnames hname, heq⟩

theorem append (h : NamedIn names entries) (h' : NamedIn names rest) :
    NamedIn names (entries ++ rest) :=
  List.forall_mem_append.mpr ⟨h, h'⟩

theorem put (hname : name ∈ names) (h : NamedIn names entries) :
    NamedIn names (entries.put (.text name) v) := by
  intro e he
  rcases mem_put he with heq | ⟨e', he', heq⟩
  · exact ⟨name, hname, heq⟩
  · exact heq ▸ h e' he'

theorem erase (h : NamedIn names entries) (k : Value) :
    NamedIn names (OrderedMap.erase entries k) :=
  fun e he => h e (List.mem_filter.mp he).1

/-- What is not overlaid stays as it is. -/
theorem find?_overlay (h : NamedIn names rest) (hname : name ∉ names) (entries : Entries) :
    (entries.overlay rest).find? (.text name) = entries.find? (.text name) := by
  induction rest generalizing entries with
  | nil => rfl
  | cons e rest ih =>
    obtain ⟨k, v⟩ := e
    obtain ⟨⟨name', hmem, rfl⟩, hrest⟩ := List.forall_mem_cons.mp h
    have hne : name' ≠ name := fun hn => hname (hn ▸ hmem)
    rw [OrderedMap.overlay_cons, ih hrest, find?_put_of_ne hne]

/-- What is overlaid by different entries is found among these first. -/
theorem find?_overlay_of_distinct (h : NamedIn names rest) (hdistinct : OrderedMap.Distinct rest)
    (entries : Entries) (name : String) : (entries.overlay rest).find? (.text name) =
      (rest.find? (.text name)).or (entries.find? (.text name)) := by
  induction rest generalizing entries with
  | nil => rfl
  | cons e rest ih =>
    obtain ⟨k, v⟩ := e
    obtain ⟨⟨name', -, rfl⟩, hrest⟩ := List.forall_mem_cons.mp h
    obtain ⟨hfirst, hdistinct⟩ := List.pairwise_cons.mp hdistinct
    rw [OrderedMap.overlay_cons, ih hrest hdistinct, OrderedMap.find?, Value.text_beq_text,
      Spelling.plain_beq_plain]
    by_cases hname : name' = name
    · subst hname
      have hnone : OrderedMap.find? rest (.text name') = none := by
        refine OrderedMap.find?_of_new fun e he => ?_
        obtain ⟨name, -, heq⟩ := hrest e he
        have hne := hfirst e he
        rw [heq, Value.text_beq_text, Spelling.plain_beq_plain] at hne ⊢
        exact beq_eq_false_iff_ne.mpr (beq_eq_false_iff_ne.mp hne).symm
      rw [hnone, find?_put_self, if_pos (beq_self_eq_true _)]
      rfl
    · rw [find?_put_of_ne hname, if_neg (by simpa using hname)]

end NamedIn

end Entries

end DocTable
