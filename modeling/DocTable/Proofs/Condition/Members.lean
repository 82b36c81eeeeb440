import DocTable.Proofs.Condition.Translation
import DocTable.Proofs.Field.Elements

/-! Conditions that look for a member of a set or an item of a list. What they look for is sent as
it is within the values that have it. -/

namespace DocTable.Definition

variable {d : Definition} {v : Value}

/-- The codes of the types of sets, each with that of the members. -/
theorem exists_member?_of_mem {s : String × String}
    (h : s ∈ [("SS", "S"), ("NS", "N"), ("BS", "B")]) :
    ∃ t m : Tag, t.member? = some m ∧ s = (t.code, m.code) := by
  simp only [List.mem_cons, List.not_mem_nil, or_false] at h
  rcases h with rfl | rfl | rfl
  exacts [⟨.texts, .text, rfl, rfl⟩, ⟨.numbers, .number, rfl, rfl⟩, ⟨.byteSets, .bytes, rfl, rfl⟩]

/-- **What is looked for is sent as it is stored.** A member of a set that can be hashed is sent as
it is in the set that holds nothing else, and an item of a list as it is in the list that holds
nothing else; neither is refused unless both are. Conditions that look inside a value send it so. -/
theorem sends_element_alone (hconverter : d.converter = none) (hv : v ≠ .null) :
    (∀ s ∈ [("SS", "S"), ("NS", "N"), ("BS", "B")], d.heldType = s.1 → v.hashable = true →
      ∀ frozen,
        (∀ e, (∃ a, d.encodeElement v = .ok a ∧ a.toValue = .map [(.text s.2, e)]) ↔
          ∃ b, d.encode (.set frozen [v]) = .ok b ∧ b.toValue = .map [(.text s.1, .list [e])]) ∧
        ((∃ f, d.encodeElement v = .error f) ↔ ∃ f, d.encode (.set frozen [v]) = .error f)) ∧
    (d.heldType = "L" →
      (∀ e, (∃ a, d.encodeElement v = .ok a ∧ a.toValue = e) ↔
        ∃ b, d.encode (.list [v]) = .ok b ∧ b.toValue = .map [(.text "L", .list [e])]) ∧
      ((∃ f, d.encodeElement v = .error f) ↔ ∃ f, d.encode (.list [v]) = .error f)) ∧
    ∀ comparison : Comparison, comparison.LooksInside → v.isArray = false → ∀ as,
      Condition.operands d ⟨comparison, v⟩ = .ok as ↔
        ∃ a, d.encodeElement v = .ok a ∧ as = [a] := by
  refine ⟨fun s hs hheld hhashable frozen => ?_, fun hheld => ?_,
    fun comparison hinside harray as => ?_⟩
  · obtain ⟨t, m, hm, rfl⟩ := exists_member?_of_mem hs
    have ht : d.tag? = some t := tag?_of_heldType hheld fun h => by subst h; cases hm
    exact ⟨element_iff_set hconverter ht hm hv hhashable frozen,
      element_fails_iff_set hconverter ht hm hv hhashable frozen⟩
  · have ht : d.tag? = some .list := tag?_of_heldType hheld nofun
    exact ⟨element_iff_list hconverter ht hv, element_fails_iff_list hconverter ht hv⟩
  · rw [Condition.operands_of_inside hinside, and_iff_right harray]

/-- The marks of a test, each at most once. -/
def distinctMarks : Definition :=
  { fieldName := "marks", storedName := "m", type := "NS" }

/-- The marks of a test in the order in which they were given. -/
def orderedMarks : Definition :=
  { fieldName := "marks", storedName := "m", type := "L" }

theorem sends_element_alone_marks :
    (∃ b, distinctMarks.encode (.set false [.int 2]) = .ok b ∧
      b.toValue = .map [(.text "NS", .list [.text "2"])]) ∧
    (∃ f, distinctMarks.encode (.set false [.text "2"]) = .error f) ∧
    (∃ b, orderedMarks.encode (.list [.text "2"]) = .ok b ∧
      b.toValue = .map [(.text "L", .list [.map [(.text "S", .text "2")]])]) ∧
    ∃ a, distinctMarks.encodeElement (.int 2) = .ok a ∧
      Condition.operands distinctMarks ⟨.contains, .int 2⟩ = .ok [a] := by
  have hmark : distinctMarks.encodeElement (.int 2) = .ok (.number "2") := rfl
  have htext : ∃ f, distinctMarks.encodeElement (.text "2") = .error f := ⟨_, rfl⟩
  have hitem : orderedMarks.encodeElement (.text "2") = .ok (.text "2") := rfl
  obtain ⟨hset, -, hinside⟩ :=
    sends_element_alone (d := distinctMarks) (v := .int 2) rfl (by simp)
  obtain ⟨hrefused, -, -⟩ :=
    sends_element_alone (d := distinctMarks) (v := .text "2") rfl (by simp)
  obtain ⟨-, hlist, -⟩ :=
    sends_element_alone (d := orderedMarks) (v := .text "2") rfl (by simp)
  refine ⟨?_, ?_, ?_, _, hmark, ?_⟩
  · exact ((hset ("NS", "N") (by simp) rfl rfl false).1 (.text "2")).mp ⟨_, hmark, rfl⟩
  · exact (hrefused ("NS", "N") (by simp) rfl rfl false).2.mp htext
  · exact ((hlist rfl).1 _).mp ⟨_, hitem, rfl⟩
  · exact (hinside .contains (by decide) rfl _).mpr ⟨_, hmark, rfl⟩

end DocTable.Definition
