import DocTable.Failure
import Mathlib.Data.List.Forall2

/-! Outcomes that are composed of others: what a whole that succeeds says of its parts. -/

namespace DocTable.Outcome

variable {α β : Type}

theorem bind_eq_ok {ε : Type} {o : Except ε α} {f : α → Except ε β} {b : β} :
    o >>= f = .ok b ↔ ∃ a, o = .ok a ∧ f a = .ok b := by
  cases o <;> simp [bind, Except.bind]

theorem ok_bind {ε : Type} (a : α) (f : α → Except ε β) : (.ok a >>= f) = f a := rfl

theorem map_eq_ok {ε : Type} {o : Except ε α} {f : α → β} {b : β} :
    o.map f = .ok b ↔ ∃ a, o = .ok a ∧ f a = b := by
  cases o <;> simp [Except.map]

theorem exists_error_iff {ε : Type} {o : Except ε α} :
    (∃ x, o = .error x) ↔ ¬ ∃ a, o = .ok a := by
  cases o <;> simp

/-- Making something of what there is does not fail by itself. -/
theorem exists_bind_pure {ε : Type} {o : Except ε α} {f : α → β} :
    (∃ b, (o >>= fun a => pure (f a)) = .ok b) ↔ ∃ a, o = .ok a := by
  cases o <;> simp [bind, Except.bind, pure, Except.pure]

theorem bind_eq_error {ε : Type} {o : Except ε α} {f : α → Except ε β} {x : ε} :
    o >>= f = .error x ↔ o = .error x ∨ ∃ a, o = .ok a ∧ f a = .error x := by
  cases o <;> simp [bind, Except.bind]

theorem bind_pure_eq_error {ε : Type} {o : Except ε α} {f : α → β} {x : ε} :
    (o >>= fun a => pure (f a)) = .error x ↔ o = .error x := by
  cases o <;> simp [bind, Except.bind, pure, Except.pure]

theorem exists_of_isOk {o : Outcome α} (h : o.isOk = true) : ∃ a, o = .ok a := by
  cases o with
  | ok a => exact ⟨a, rfl⟩
  | error x => cases h

theorem unless_eq_ok {c : Prop} [Decidable c] {f : Failure} {o : Outcome α} {a : α} :
    (if c then throw f else o) = .ok a ↔ ¬ c ∧ o = .ok a := by
  by_cases hc : c <;> simp [hc, throw, throwThe, MonadExceptOf.throw]

/-- What goes on to fail in any case does not succeed. -/
theorem bind_ne_ok {ε : Type} {o : Except ε α} {f : α → Except ε β} {b : β}
    (h : ∀ a, f a ≠ .ok b) : o >>= f ≠ .ok b := by
  intro hbind
  obtain ⟨a, -, ha⟩ := bind_eq_ok.mp hbind
  exact h a ha

/-- What was not refused went on. -/
theorem of_not_refused {c : Prop} [Decidable c] {f : Failure} {o : Outcome α}
    {a : α} (h : (if c then throw f else o) = .ok a) : o = .ok a :=
  (unless_eq_ok.mp h).2

theorem check_eq_ok {c : Prop} [Decidable c] {f : Failure} :
    (if c then .ok () else .error f : Outcome Unit) = .ok () ↔ c := by
  by_cases hc : c <;> simp [hc]

theorem forM_eq_ok {f : α → Outcome Unit} {as : List α} :
    as.forM f = .ok () ↔ ∀ a ∈ as, f a = .ok () := by
  induction as with
  | nil => exact ⟨fun _ _ h => absurd h List.not_mem_nil, fun _ => rfl⟩
  | cons a as ih =>
    show (f a >>= fun _ => as.forM f) = .ok () ↔ _
    rw [bind_eq_ok, List.forall_mem_cons, ← ih]
    exact ⟨fun ⟨_, hfirst, hrest⟩ => ⟨hfirst, hrest⟩, fun ⟨hfirst, hrest⟩ => ⟨(), hfirst, hrest⟩⟩

theorem mapM_eq_ok {ε : Type} {f : α → Except ε β} {as : List α} {bs : List β} :
    as.mapM f = .ok bs ↔ List.Forall₂ (fun a b => f a = .ok b) as bs := by
  induction as generalizing bs with
  | nil =>
    rw [List.mapM_nil, List.forall₂_nil_left_iff]
    exact ⟨fun h => (Except.ok.inj h).symm, fun h => h ▸ rfl⟩
  | cons a as ih =>
    rw [List.mapM_cons, bind_eq_ok]
    constructor
    · rintro ⟨b, hb, h⟩
      obtain ⟨rest, hrest, h⟩ := bind_eq_ok.mp h
      exact Except.ok.inj h ▸ .cons hb (ih.mp hrest)
    · intro h
      cases h with
      | cons hb hrest => exact ⟨_, hb, bind_eq_ok.mpr ⟨_, ih.mpr hrest, rfl⟩⟩

theorem mapM_congr {ε : Type} {f : α → Except ε β} {as as' : List α}
    (h : List.Forall₂ (fun a a' => f a = f a') as as') : as.mapM f = as'.mapM f := by
  induction h with
  | nil => rfl
  | cons hfirst _ ih => rw [List.mapM_cons, List.mapM_cons, hfirst, ih]

theorem mapM_eq_some {f : α → Option β} {as : List α} {bs : List β} :
    as.mapM f = some bs ↔ List.Forall₂ (fun a b => f a = some b) as bs := by
  induction as generalizing bs with
  | nil =>
    rw [List.mapM_nil, List.forall₂_nil_left_iff]
    exact ⟨fun h => (Option.some.inj h).symm, fun h => h ▸ rfl⟩
  | cons a as ih =>
    rw [List.mapM_cons]
    cases bs with
    | nil => simp [Option.bind_eq_some_iff]
    | cons b bs => simp [Option.bind_eq_some_iff, ← ih]

/-- Going through what stands for some values, each of which succeeds. -/
theorem mapM_map_eq_ok {γ : Type} {f : α → Outcome β} {g : γ → α} {k : γ → β} {cs : List γ}
    (h : ∀ c ∈ cs, f (g c) = .ok (k c)) : (cs.map g).mapM f = .ok (cs.map k) := by
  rw [mapM_eq_ok, List.forall₂_map_left_iff, List.forall₂_map_right_iff, List.forall₂_same]
  exact h

/-- What each step keeps holds at the end. -/
theorem of_foldlM {f : β → α → Outcome β} {p : β → Prop} {b b' : β} {as : List α} (hb : p b)
    (hf : ∀ {b a b'}, p b → f b a = .ok b' → p b') (h : as.foldlM f b = .ok b') : p b' := by
  induction as generalizing b with
  | nil => exact Except.ok.inj h ▸ hb
  | cons a as ih =>
    rw [List.foldlM_cons] at h
    obtain ⟨b₁, hfirst, hrest⟩ := bind_eq_ok.mp h
    exact ih (hf hb hfirst) hrest

/-- A run whose steps go on from something made of each value is the run over what is made. -/
theorem foldlM_bind_eq_ok {γ ε : Type} {f : α → Except ε γ} {g : β → γ → Except ε β} {b b' : β}
    {as : List α} : as.foldlM (fun b a => f a >>= g b) b = .ok b' ↔
      ∃ cs, as.mapM f = .ok cs ∧ cs.foldlM g b = .ok b' := by
  induction as generalizing b with
  | nil => simp [pure, Except.pure]
  | cons a as ih =>
    simp only [List.foldlM_cons, List.mapM_cons, bind_eq_ok, ih]
    constructor
    · rintro ⟨b₁, ⟨c, hc, hb₁⟩, cs, hcs, h⟩
      exact ⟨c :: cs, ⟨c, hc, cs, hcs, rfl⟩, bind_eq_ok.mpr ⟨b₁, hb₁, h⟩⟩
    · rintro ⟨_, ⟨c, hc, cs, hcs, heq⟩, h⟩
      obtain rfl := Except.ok.inj heq
      obtain ⟨b₁, hb₁, h⟩ := bind_eq_ok.mp h
      exact ⟨b₁, ⟨c, hc, hb₁⟩, cs, hcs, h⟩

/-- Whether a failure, if there is one, has some property. -/
def Fails (p : Failure → Prop) (o : Outcome α) : Prop :=
  ∀ f, o = .error f → p f

section

variable {p : Failure → Prop}

theorem fails_ok (a : α) : Fails p (.ok a) :=
  fun _ h => nomatch h

theorem fails_error {f : Failure} : Fails p (.error f : Outcome α) ↔ p f :=
  ⟨fun h => h f rfl, fun h _ hf => Except.error.inj hf ▸ h⟩

theorem Fails.mono {q : Failure → Prop} {o : Outcome α} (h : Fails p o) (hpq : ∀ f, p f → q f) :
    Fails q o :=
  fun f hf => hpq f (h f hf)

theorem Fails.bind {o : Outcome α} {f : α → Outcome β} (h : Fails p o)
    (hf : ∀ a, o = .ok a → Fails p (f a)) : Fails p (o >>= f) := by
  cases o with
  | error x => exact fails_error.mpr (h x rfl)
  | ok a => exact hf a rfl

theorem Fails.ite {c : Prop} [Decidable c] {o o' : Outcome α} (h : Fails p o) (h' : Fails p o') :
    Fails p (if c then o else o') := by
  split
  · exact h
  · exact h'

theorem Fails.mapM {f : α → Outcome β} {as : List α} (hf : ∀ a ∈ as, Fails p (f a)) :
    Fails p (as.mapM f) := by
  induction as with
  | nil => exact fails_ok []
  | cons a as ih =>
    obtain ⟨hfirst, hrest⟩ := List.forall_mem_cons.mp hf
    rw [List.mapM_cons]
    exact hfirst.bind fun _ _ => (ih hrest).bind fun _ _ => fails_ok _

theorem Fails.forM {f : α → Outcome Unit} {as : List α} (hf : ∀ a ∈ as, Fails p (f a)) :
    Fails p (as.forM f) := by
  induction as with
  | nil => exact fails_ok ()
  | cons a as ih =>
    obtain ⟨hfirst, hrest⟩ := List.forall_mem_cons.mp hf
    exact hfirst.bind fun _ _ => ih hrest

theorem Fails.foldlM {f : β → α → Outcome β} {as : List α}
    (hf : ∀ b, ∀ a ∈ as, Fails p (f b a)) (b : β) : Fails p (as.foldlM f b) := by
  induction as generalizing b with
  | nil => exact fails_ok b
  | cons a as ih =>
    rw [List.foldlM_cons]
    exact (hf b a List.mem_cons_self).bind fun b _ =>
      ih (fun b a ha => hf b a (List.mem_cons_of_mem _ ha)) b

end

theorem exists_forall₂ {R : α → β → Prop} {as : List α} (h : ∀ a ∈ as, ∃ b, R a b) :
    ∃ bs, List.Forall₂ R as bs := by
  induction as with
  | nil => exact ⟨[], .nil⟩
  | cons a as ih =>
    obtain ⟨⟨b, hb⟩, hrest⟩ := List.forall_mem_cons.mp h
    obtain ⟨bs, hbs⟩ := ih hrest
    exact ⟨b :: bs, .cons hb hbs⟩

theorem exists_of_mem_forall₂ {R : α → β → Prop} {as : List α} {bs : List β} {b : β}
    (h : List.Forall₂ R as bs) (hb : b ∈ bs) : ∃ a ∈ as, R a b := by
  induction h with
  | nil => cases hb
  | @cons a b' as bs hab _ ih =>
    rcases List.mem_cons.mp hb with rfl | hmem
    · exact ⟨a, List.mem_cons_self, hab⟩
    · obtain ⟨a', ha', hrel⟩ := ih hmem
      exact ⟨a', List.mem_cons_of_mem _ ha', hrel⟩

/-- Relations that are followed one after the other. -/
theorem forall₂_trans {γ : Type} {R : α → β → Prop} {S : β → γ → Prop} {T : α → γ → Prop}
    {as : List α} {bs : List β} {cs : List γ} (h : List.Forall₂ R as bs)
    (h' : List.Forall₂ S bs cs) (hT : ∀ a b c, R a b → S b c → T a c) : List.Forall₂ T as cs := by
  induction h generalizing cs with
  | nil =>
    cases h'
    exact .nil
  | cons hab _ ih =>
    cases h' with
    | cons hbc hrest => exact .cons (hT _ _ _ hab hbc) (ih hrest)

theorem exists_forall₂_iff {R : α → β → Prop} {as : List α} :
    (∃ bs, List.Forall₂ R as bs) ↔ ∀ a ∈ as, ∃ b, R a b := by
  refine ⟨?_, exists_forall₂⟩
  rintro ⟨bs, hbs⟩ a ha
  obtain ⟨b, -, hb⟩ := exists_of_mem_forall₂ hbs.flip ha
  exact ⟨b, hb⟩

theorem exists_mapM_eq_ok {ε : Type} {f : α → Except ε β} {as : List α} :
    (∃ bs, as.mapM f = .ok bs) ↔ ∀ a ∈ as, ∃ b, f a = .ok b := by
  simp only [mapM_eq_ok, exists_forall₂_iff]

/-- Related members that lead to others, each. -/
theorem exists_forall₂_of_forall₂ {γ : Type} {R : α → β → Prop} {S : β → γ → Prop}
    {T : α → γ → Prop} {as : List α} {bs : List β} (h : List.Forall₂ R as bs)
    (hstep : ∀ a ∈ as, ∀ b, R a b → ∃ c, S b c ∧ T a c) :
    ∃ cs, List.Forall₂ S bs cs ∧ List.Forall₂ T as cs := by
  induction h with
  | nil => exact ⟨[], .nil, .nil⟩
  | @cons a b as bs hab _ ih =>
    obtain ⟨hfirst, hrest⟩ := List.forall_mem_cons.mp hstep
    obtain ⟨c, hS, hT⟩ := hfirst b hab
    obtain ⟨cs, hSs, hTs⟩ := ih hrest
    exact ⟨c :: cs, .cons hS hSs, .cons hT hTs⟩

/-- Some member has a property when some member that belongs to it has another. -/
theorem exists_mem_iff_of_forall₂ {R : α → β → Prop} {p : α → Prop} {q : β → Prop} {as : List α}
    {bs : List β} (h : List.Forall₂ R as bs) (hpq : ∀ a ∈ as, ∀ b, R a b → (p a ↔ q b)) :
    (∃ a ∈ as, p a) ↔ ∃ b ∈ bs, q b := by
  induction h with
  | nil => simp
  | cons hab _ ih =>
    obtain ⟨hfirst, hrest⟩ := List.forall_mem_cons.mp hpq
    simp only [List.exists_mem_cons_iff]
    exact or_congr (hfirst _ hab) (ih hrest)

end DocTable.Outcome
