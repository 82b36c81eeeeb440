import DocTable.Proofs.Table.HandOver

/-! Fetches that fail. A fetch can fail at the gate, in the client, at an item, at the key and at
the number of items. The key is taken over before the number is read, so this last failure alone
moves the cursor: behind a page that nobody got. -/

namespace DocTable

/-! ## Responses -/

namespace Cursor

variable {c c' : Cursor} {start key : Option Entries} {s : Schema} {response : Value} {f : Failure}
  {h h' : Handle}

/-- The client gives a response to a fetch: the gate is open and the parameters have names. -/
inductive Receives (c : Cursor) (start : Option Entries) (h : Handle) (response : Value) :
    Prop where
  | intro {v : Value} {h' : Handle} (gate : Handle.ensureReady.run.run h = (.ok v, h'))
      (names : checkNames (c.request start) = .ok ())
      (answer : (h'.scene.environ.answer c.mode.operation (c.request start)).1 = .ok response)

theorem Receives.run_fetch (hreceives : c.Receives start h response) :
    ∃ h', (c.fetch start).run.run h = (c.take h.table.schema response, h') := by
  obtain ⟨gate, names, answer⟩ := hreceives
  have htable := Handle.table_gateAction (.ensureReady none true none none) h
  rw [show (Handle.gateAction _).run.run h = _ from gate] at htable
  have hrun := Cursor.run_fetch c start gate
  rw [names] at hrun
  dsimp only at hrun htable
  rw [answer, htable] at hrun
  exact ⟨_, hrun⟩

/-- A fetch fails before it has a response, or it takes the page of one. -/
theorem fetch_received (c : Cursor) (start : Option Entries) (h : Handle) :
    (∃ f h', (c.fetch start).run.run h = (.error f, h')) ∨
      ∃ response h', c.Receives start h response ∧
        (c.fetch start).run.run h = (c.take h.table.schema response, h') := by
  rcases hgate : Handle.ensureReady.run.run h with ⟨f | v, h₁⟩
  · exact .inl ⟨f, h₁, Session.run_bind_error hgate⟩
  have hrun := Cursor.run_fetch c start hgate
  cases hnames : checkNames (c.request start) with
  | error f =>
    rw [hnames] at hrun
    exact .inl ⟨f, h₁, hrun⟩
  | ok u =>
    cases hanswer : (h₁.scene.environ.answer c.mode.operation (c.request start)).1 with
    | error f =>
      rw [hnames] at hrun
      dsimp only at hrun
      rw [hanswer] at hrun
      exact .inl ⟨f, _, hrun⟩
    | ok response =>
      have hreceives : c.Receives start h response := ⟨hgate, hnames, hanswer⟩
      obtain ⟨h', hrun⟩ := hreceives.run_fetch
      exact .inr ⟨response, h', hreceives, hrun⟩

/-- A response of which the items are read, and the key behind them, but not their number. -/
inductive Miscounts (s : Schema) (response : Value) (key : Option Entries) : Prop where
  | intro {items : List (Option Value)} {f : Failure} (decode : itemsOf s response = .ok items)
      (key_eq : nextKey response = .ok key)
      (uncounted : countOf response items.length = .error f)

theorem Miscounts.take (hmiscounts : Miscounts s response key) :
    ∃ f, c.take s response = .ok ⟨c.moved key, .error f⟩ := by
  obtain @⟨items, f, decode, key_eq, uncounted⟩ := hmiscounts
  refine ⟨f, take_eq_ok_iff.mpr ⟨items, key, decode, key_eq, ?_⟩⟩
  rw [pageOf_eq_error_iff.mpr uncounted]

/-- A page that is lost once the cursor has moved was miscounted. -/
theorem miscounts_of_take (htake : c.take s response = .ok ⟨c', .error f⟩) :
    ∃ key, Miscounts s response key ∧ c' = c.moved key := by
  obtain ⟨items, key, hitems, hkey, heq⟩ := take_eq_ok_iff.mp htake
  obtain ⟨rfl, hpage⟩ := Fetched.mk.inj heq
  exact ⟨key, ⟨hitems, hkey, pageOf_eq_error_iff.mp hpage.symm⟩, rfl⟩

end Cursor

/-! ## Turns that fail -/

/-- Turns by which a page is asked for, and the key behind which it begins. -/
inductive Turn.Asks (c : Cursor) : Turn → Option Entries → Prop where
  | execute : Asks c .execute none
  | fetchNext (hasMore : c.hasMore = true) : Asks c .fetchNext c.continuationKey

namespace Cursor

variable {c : Cursor} {start key : Option Entries} {response : Value} {h : Handle} {turn : Turn}

theorem perform_asks (hasks : turn.Asks c start) :
    turn.perform c h = Turn.fetched c ((c.fetch start).run.run h) := by
  cases hasks with
  | execute => rfl
  | fetchNext hmore => rw [Turn.perform, fetchNext, if_pos hmore]

/-- A turn that fails leaves the cursor, unless the page it got was miscounted. -/
theorem perform_failed {f : Failure} (hturn : turn = .execute ∨ turn = .fetchNext)
    (hfails : (turn.perform c h).1 = .error f) :
    (turn.perform c h).2.1 = c ∨ ∃ start response key, turn.Asks c start ∧
      c.Receives start h response ∧ Miscounts h.table.schema response key ∧
      (turn.perform c h).2.1 = c.moved key := by
  have hasks : (∃ start, turn.Asks c start) ∨ (turn.perform c h).2.1 = c := by
    rcases hturn with rfl | rfl
    · exact .inl ⟨none, .execute⟩
    · cases hmore : c.hasMore with
      | true => exact .inl ⟨_, .fetchNext hmore⟩
      | false =>
        rw [Turn.perform, fetchNext, if_neg (hmore ▸ Bool.false_ne_true)]
        exact .inr rfl
  rcases hasks with ⟨start, hasks⟩ | hstays
  · rw [perform_asks hasks] at hfails ⊢
    rcases c.fetch_received start h with ⟨f', h', hrun⟩ | ⟨response, h', hreceives, hrun⟩
    · rw [hrun]
      exact .inl rfl
    rw [hrun] at hfails ⊢
    rcases htake : c.take h.table.schema response with f' | ⟨c', f' | page⟩
    · exact .inl rfl
    · obtain ⟨key, hmiscounts, hmoved⟩ := miscounts_of_take htake
      exact .inr ⟨start, response, key, hasks, hreceives, hmiscounts, hmoved⟩
    · rw [htake] at hfails
      cases hfails
  · exact .inl hstays

theorem perform_miscounted (hasks : turn.Asks c start) (hreceives : c.Receives start h response)
    (hmiscounts : Miscounts h.table.schema response key) :
    ∃ f h', turn.perform c h = (.error f, c.moved key, h') := by
  obtain ⟨h', hrun⟩ := hreceives.run_fetch
  obtain ⟨f, htake⟩ := hmiscounts.take (c := c)
  rw [perform_asks hasks, hrun, htake]
  exact ⟨f, h', rfl⟩

/-- A cursor that has stayed where another one is: the key and the token are the same, and the same
page comes next. -/
structure Stays (c c' : Cursor) : Prop where
  key : c'.continuationKey = c.continuationKey
  hasMore : c'.hasMore = c.hasMore
  token : c'.token = c.token
  fetchNext : ∀ h, c'.fetchNext.run.run h = c.fetchNext.run.run h

theorem Stays.refl (c : Cursor) : c.Stays c :=
  ⟨rfl, rfl, rfl, fun _ => rfl⟩

/-- **Failures do not move a cursor** unless a page is lost by its number of items. Let a turn by
which a page is asked for fail, whatever the client answered and wherever the cursor was. The cursor
stays exactly if no response gave another key than the one behind which it was, together with a
number that is none. -/
theorem stays_iff {f : Failure} (hturn : turn = .execute ∨ turn = .fetchNext)
    (hfails : (turn.perform c h).1 = .error f) :
    c.Stays (turn.perform c h).2.1 ↔ ∀ start response key, turn.Asks c start →
      c.Receives start h response → Miscounts h.table.schema response key →
      key = c.continuationKey ∧ key.isSome = c.hasMore := by
  constructor
  · intro hstays start response key hasks hreceives hmiscounts
    obtain ⟨f', h', hperform⟩ := perform_miscounted hasks hreceives hmiscounts
    rw [hperform] at hstays
    exact ⟨hstays.key, hstays.hasMore⟩
  · intro hsame
    rcases perform_failed hturn hfails with
      heq | ⟨start, response, key, hasks, hreceives, hmiscounts, hmoved⟩
    · rw [heq]
      exact .refl c
    · obtain ⟨hkey, hmore⟩ := hsame start response key hasks hreceives hmiscounts
      have hmoved' : (turn.perform c h).2.1 = c := by
        rw [hmoved, moved, hmore, hkey]
      rw [hmoved']
      exact .refl c

end Cursor

/-- A handle whose client answers a scan with a response. -/
def Handle.answering (response : Entries) : Handle where
  table := Handle.twoPages.table
  scene :=
    { gate := Handle.twoPages.scene.gate
      environ := { script := [Client.activeTable (.text "orders"),
        { operation := "scan", response := .map response }] } }

/-- A response with a number in place of the items, and with a key. -/
def Cursor.unreadable : Entries :=
  [(.text "Items", .int 1), (.text "LastEvaluatedKey", KeyToken.nestedKey)]

theorem Cursor.stays_unreadable :
    ∃ f, (Turn.execute.perform scanning (.answering unreadable)).1 = .error f ∧
      scanning.Stays (Turn.execute.perform scanning (.answering unreadable)).2.1 := by
  have hfetch : ((scanning.fetch none).run.run (.answering unreadable)).1.isOk = false := by
    decide +kernel
  obtain ⟨f, hfails⟩ : ∃ f, (Turn.execute.perform scanning (.answering unreadable)).1 = .error f :=
    ⟨.wrongKind, by with_unfolding_all rfl⟩
  refine ⟨f, hfails, (stays_iff (.inl rfl) hfails).mpr ?_⟩
  intro start response key hasks hreceives hmiscounts
  cases hasks
  obtain ⟨h', hrun⟩ := hreceives.run_fetch
  obtain ⟨f', htake⟩ := hmiscounts.take (c := scanning)
  rw [hrun, htake] at hfetch
  cases hfetch

/-- A response with a key, and with a number of items that is none. -/
def Cursor.uncounted : Entries :=
  [(.text "Count", .text "x"), (.text "LastEvaluatedKey", KeyToken.nestedKey)]

/-- A page that is lost by its number of items is not asked for again. -/
theorem Cursor.not_stays_uncounted :
    ¬ ∀ (c : Cursor) (h : Handle) (turn : Turn) (f : Failure),
      turn = .execute ∨ turn = .fetchNext → (turn.perform c h).1 = .error f →
        c.Stays (turn.perform c h).2.1 := by
  intro hall
  obtain ⟨f, hfails⟩ : ∃ f, (Turn.execute.perform scanning (.answering uncounted)).1 = .error f :=
    ⟨.badText, by with_unfolding_all rfl⟩
  have hkey := (hall scanning (.answering uncounted) .execute f (.inl rfl) hfails).key
  have hmoved : (Turn.execute.perform scanning (.answering uncounted)).2.1.continuationKey.isSome =
      true := by
    decide +kernel
  rw [hkey] at hmoved
  cases hmoved

end DocTable
