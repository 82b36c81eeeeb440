import DocTable.Table.Basic

/-! Where interrupts come from. The operations on values and requests do not end with one; the
answers of a scripted client do only if the script says so. -/

namespace DocTable

/-- An outcome that is not a request to stop. -/
def Uninterrupted {α : Type} (o : Outcome α) : Prop :=
  ∀ x, o = .error x → x.isInterrupt = false

section

variable {α β : Type}

@[simp] theorem uninterrupted_ok (a : α) : Uninterrupted (.ok a) :=
  fun _ h => nomatch h

@[simp] theorem uninterrupted_pure (a : α) : Uninterrupted (pure a) :=
  uninterrupted_ok a

@[simp] theorem uninterrupted_error {x : Failure} :
    Uninterrupted (.error x : Outcome α) ↔ x.isInterrupt = false :=
  ⟨fun h => h x rfl, fun h _ hx => by cases hx; exact h⟩

@[simp] theorem uninterrupted_throw {x : Failure} :
    Uninterrupted (throw x : Outcome α) ↔ x.isInterrupt = false :=
  uninterrupted_error

theorem Uninterrupted.bind {o : Outcome α} {f : α → Outcome β} (h : Uninterrupted o)
    (hf : ∀ a, Uninterrupted (f a)) : Uninterrupted (o >>= f) := by
  cases o with
  | error x => exact uninterrupted_error.mpr (h x rfl)
  | ok a => exact hf a

theorem Uninterrupted.foldlM {f : β → α → Outcome β} (hf : ∀ b a, Uninterrupted (f b a)) :
    ∀ (as : List α) (b : β), Uninterrupted (as.foldlM f b)
  | [], b => uninterrupted_ok b
  | a :: as, b => (hf b a).bind fun b' => foldlM hf as b'

end

namespace Value

theorem uninterrupted_iterate (v : Value) : Uninterrupted v.iterate := by
  cases v <;> simp [iterate, Failure.isInterrupt]

theorem uninterrupted_entry (v : Value) : Uninterrupted v.entry := by
  refine v.uninterrupted_iterate.bind fun items => ?_
  split <;> simp [Failure.isInterrupt]

theorem uninterrupted_putEntry (entries : Entries) (e : Value × Value) :
    Uninterrupted (putEntry entries e) := by
  unfold putEntry
  split <;> simp [Failure.isInterrupt]

theorem uninterrupted_asMap (v : Value) : Uninterrupted v.asMap := by
  unfold asMap
  split
  · simp
  · refine (uninterrupted_iterate _).bind fun items => .foldlM (fun entries item => ?_) items []
    exact item.uninterrupted_entry.bind fun e => uninterrupted_putEntry entries e

theorem uninterrupted_get? (v : Value) (name : String) : Uninterrupted (v.get? name) := by
  cases v <;> simp [get?, Failure.isInterrupt]

/-! ## Requests that are checked -/

theorem uninterrupted_plainText (v : Value) : Uninterrupted v.plainText := by
  unfold plainText
  split <;> simp [Failure.isInterrupt]

theorem uninterrupted_shownText (v : Value) : Uninterrupted v.shownText := by
  unfold shownText
  split <;> simp [Failure.isInterrupt]

theorem uninterrupted_expectEqual (path : String) (expected actual : Value) :
    Uninterrupted (expectEqual path expected actual) := by
  refine Uninterrupted.bind ?_ fun same => ?_
  · unfold equal
    split <;> simp [Failure.isInterrupt]
  · split
    · simp
    · refine (uninterrupted_shownText expected).bind fun _ => ?_
      refine (uninterrupted_shownText actual).bind fun _ => ?_
      simp [Failure.isInterrupt]

theorem uninterrupted_itemsToMatch (path : String) (count : Nat) (actual : Value) :
    Uninterrupted (itemsToMatch path count actual) := by
  unfold itemsToMatch
  repeat' split
  all_goals simp [Failure.isInterrupt]

theorem uninterrupted_expectEqualItems (path : String) :
    ∀ (index : Nat) (expected actual : List Value),
      Uninterrupted (expectEqualItems path index expected actual)
  | _, [], _ => by simp [expectEqualItems]
  | _, _ :: _, [] => by simp [expectEqualItems]
  | index, e :: es, a :: as => by
    rw [expectEqualItems]
    exact (uninterrupted_expectEqual _ e a).bind fun _ =>
      uninterrupted_expectEqualItems path (index + 1) es as

mutual

theorem uninterrupted_expectMatch (path : String) (expected actual : Value) :
    Uninterrupted (expectMatch path expected actual) := by
  cases expected with
  | wildcard => simp [expectMatch]
  | map entries =>
    cases actual with
    | map found => simpa [expectMatch] using uninterrupted_expectEntries path entries found
    | _ => simp [expectMatch, Failure.isInterrupt]
  | list items | tuple items =>
    rw [expectMatch]
    exact (uninterrupted_itemsToMatch _ _ _).bind fun found =>
      uninterrupted_expectItems path 0 items found
  | bytes changeable content =>
    cases changeable with
    | true =>
      rw [expectMatch]
      exact (uninterrupted_itemsToMatch _ _ _).bind fun found =>
        uninterrupted_expectEqualItems path 0 _ found
    | false =>
      rw [expectMatch]
      · exact uninterrupted_expectEqual path _ _
      all_goals simp
  | _ =>
    rw [expectMatch]
    · exact uninterrupted_expectEqual path _ _
    all_goals simp

theorem uninterrupted_expectEntries (path : String) (expected found : Entries) :
    Uninterrupted (expectEntries path expected found) := by
  match expected with
  | [] => simp [expectEntries]
  | (k, v) :: rest =>
    rw [expectEntries]
    split
    · refine (uninterrupted_shownText k).bind fun _ => ?_
      simp [Failure.isInterrupt]
    · refine (uninterrupted_plainText k).bind fun _ => ?_
      exact (uninterrupted_expectMatch _ v _).bind fun _ =>
        uninterrupted_expectEntries path rest found

theorem uninterrupted_expectItems (path : String) (index : Nat) (expected actual : List Value) :
    Uninterrupted (expectItems path index expected actual) := by
  cases expected with
  | nil => simp [expectItems]
  | cons e es =>
    cases actual with
    | nil => simp [expectItems]
    | cons a as =>
      rw [expectItems]
      exact (uninterrupted_expectMatch _ e a).bind fun _ =>
        uninterrupted_expectItems path (index + 1) es as

end

end Value

theorem uninterrupted_check (check : RequestCheck) (operation : String) (request : Entries) :
    Uninterrupted (check.run operation request) := by
  cases check with
  | anything => simp [RequestCheck.run]
  | holds expected => exact Value.uninterrupted_expectMatch _ _ _
  | lacks keys =>
    simp only [RequestCheck.run]
    split <;> simp [Failure.isInterrupt]

/-! ## The client and the table -/

/-- A client with a script as it is meant to be: what it raises are errors of the program, not
requests to stop. -/
def Client.Plain (c : Client) : Prop :=
  ∀ e ∈ c.script, ∀ x, e.error = some x → x.isInterrupt = false

theorem Client.Plain.mono {c c' : Client} (h : c.Plain) (hscript : c'.script <:+ c.script) :
    c'.Plain :=
  fun e he => h e (hscript.subset he)

theorem Client.Plain.answer {c : Client} (h : c.Plain) (operation : String) (request : Entries) :
    Uninterrupted (c.answer operation request).1 := by
  unfold Client.answer
  cases hscript : c.script with
  | nil => simp [Failure.isInterrupt]
  | cons e script =>
    simp only [respond]
    split
    · simp [Failure.isInterrupt, bind, Except.bind, throw, throwThe, MonadExceptOf.throw]
    · refine (uninterrupted_check _ _ _).bind fun _ => ?_
      cases herror : e.error with
      | some x => exact uninterrupted_error.mpr (h e (hscript ▸ List.mem_cons_self) x herror)
      | none =>
        dsimp only
        split
        · exact (Value.uninterrupted_asMap _).bind fun entries => by simp
        · simp

theorem uninterrupted_throughputOr (given byDefault : Value) :
    Uninterrupted (throughputOr given byDefault) :=
  (Value.uninterrupted_asMap _).bind fun _ => by simp

theorem Schema.uninterrupted_createRequest (s : Schema) (name billingMode given : Value)
    (others : Params) : Uninterrupted (s.createRequest name billingMode given others) := by
  refine Uninterrupted.bind ?_ fun mode => Uninterrupted.bind ?_ fun name => ?_
  · unfold BillingMode.ofValue BillingMode.ofText
    repeat' split
    all_goals simp [Failure.isInterrupt]
  · unfold tableNameOr
    repeat' split
    all_goals simp [Failure.isInterrupt]
  · cases mode with
    | provisioned => exact (uninterrupted_throughputOr _ _).bind fun _ => by simp
    | perRequest => cases given <;> simp [Failure.isInterrupt]

namespace Table

variable (t : Table)

theorem uninterrupted_partOr (name : String) (response : Value) :
    Uninterrupted (partOr name response) := by
  refine (response.uninterrupted_get? name).bind fun part => ?_
  simp

theorem uninterrupted_describe {c : Client} (h : c.Plain) :
    Uninterrupted (t.describe c).1.ending :=
  (h.answer _ _).bind fun response => uninterrupted_partOr "Table" response

theorem uninterrupted_create {c : Client} (h : c.Plain) :
    Uninterrupted (t.create c).1.ending := by
  unfold create
  have hcreation := t.schema.uninterrupted_createRequest (.text t.name)
    (.text BillingMode.provisioned.code)
  cases hc : t.creation (.text BillingMode.provisioned.code) .null [] with
  | error x =>
    refine uninterrupted_error.mpr ?_
    exact hcreation _ _ x hc
  | ok request => exact (h.answer _ _).bind fun response => uninterrupted_partOr _ response

end Table

/-- The end of a check for an answer that is not a request to stop. -/
theorem Gate.uninterrupted_afterAnswer {g : Gate} {phase : Phase} {interval : Value}
    {a : Outcome Value} {f : Finding} (ha : Uninterrupted a)
    (h : g.afterAnswer phase interval a = .finish f) : Uninterrupted f := by
  have hstatus : ∀ description, Uninterrupted (g.statusOf description) := fun description => by
    unfold statusOf
    repeat' split
    all_goals simp [Failure.isInterrupt]
  unfold afterAnswer at h
  split at h
  · split at h
    · cases h
    · cases h
      exact uninterrupted_error.mpr (uninterrupted_error.mp ha)
  · split at h
    · cases h
    · rename_i v _
      unfold afterDescription at h
      split at h
      · cases h
        exact fun x hx => v.uninterrupted_asMap x (by cases hx; assumption)
      · split at h
        · cases h
          exact fun x hx => hstatus _ x (by cases hx; assumption)
        · split at h <;> cases h
          simp

end DocTable
