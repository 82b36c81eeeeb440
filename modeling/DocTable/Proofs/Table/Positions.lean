import DocTable.Proofs.Table.Scripts
import DocTable.Proofs.Token.Refusals

/-! The positions of a cursor. Two fields of a cursor tell where it stands, and three operations
write them; whatever the order in which these are called, the cursor is at the start, behind a key,
or at the end. Only a page that was read, or a token, makes it move. -/

namespace DocTable

/-! ## Positions -/

/-- Where a cursor stands. -/
inductive Position where
  | start
  | after (key : Entries) (nonempty : key ≠ [])
  | exhausted

namespace Position

def hasMore : Position → Bool
  | start | after .. => true
  | exhausted => false

/-- The key behind which a cursor stands. -/
def key? : Position → Option Entries
  | after key _ => some key
  | start | exhausted => none

/-- The position behind the page of a response. -/
def behind (response : Entries) : Position :=
  match response.find? (.text "LastEvaluatedKey") with
  | some (.map (e :: key)) => after (e :: key) (List.cons_ne_nil e key)
  | _ => exhausted

theorem hasMore_eq_false_iff {p : Position} : p.hasMore = false ↔ p = exhausted := by
  cases p <;> simp [hasMore]

theorem key?_eq_some_iff {p : Position} {key : Entries} :
    p.key? = some key ↔ ∃ nonempty, p = after key nonempty := by
  cases p with
  | after key' nonempty =>
    refine ⟨fun h => ?_, fun ⟨_, h⟩ => ?_⟩
    · cases h
      exact ⟨nonempty, rfl⟩
    · cases h
      rfl
  | start | exhausted => exact ⟨nofun, nofun⟩

theorem hasMore_behind (response : Entries) :
    (behind response).hasMore = (behind response).key?.isSome := by
  unfold behind
  split <;> rfl

end Position

/-! ## Responses -/

/-- Responses with pages: they tell the number of items and the key of the last item as they
should, if at all. -/
structure Paged (response : Entries) : Prop where
  count : ∀ v, response.find? (.text "Count") = some v → v.toInteger.isOk = true
  last : ∀ v, response.find? (.text "LastEvaluatedKey") = some v → ∃ key, v = .map key

namespace Paged

variable {response : Entries}

theorem nextKey (h : Paged response) :
    Cursor.nextKey (.map response) = .ok (Position.behind response).key? := by
  have hget : Value.get? (.map response) "LastEvaluatedKey" =
    .ok (response.find? (.text "LastEvaluatedKey")) := rfl
  rw [Cursor.nextKey, hget, Position.behind]
  cases hlast : response.find? (.text "LastEvaluatedKey") with
  | none => rfl
  | some v =>
    obtain ⟨key, rfl⟩ := h.last v hlast
    cases key <;> rfl

theorem exists_count (h : Paged response) (items : Nat) :
    ∃ count, Cursor.countOf (.map response) items = .ok count := by
  have hget : Value.get? (.map response) "Count" = .ok (response.find? (.text "Count")) := rfl
  rw [Cursor.countOf, hget]
  cases hcount : response.find? (.text "Count") with
  | none => exact ⟨items, rfl⟩
  | some v => exact Outcome.exists_of_isOk (h.count v hcount)

end Paged

/-- A script whose responses have pages. -/
def PagedScript (script : List Expectation) : Prop :=
  ∀ e ∈ script, ∀ response, e.response.asMap = .ok response → Paged response

theorem PagedScript.mono {script script' : List Expectation} (h : PagedScript script)
    (hsuffix : script' <:+ script) : PagedScript script' :=
  fun e he => h e (hsuffix.subset he)

theorem paged_nil : Paged [] :=
  ⟨nofun, nofun⟩

theorem PagedScript.answer {c : Client} (h : PagedScript c.script) {operation : String}
    {request : Entries} {v : Value} (hanswer : (c.answer operation request).1 = .ok v) :
    ∃ response, v = .map response ∧ Paged response := by
  unfold Client.answer at hanswer
  cases hscript : c.script with
  | nil =>
    rw [hscript] at hanswer
    cases hanswer
  | cons e script =>
    rw [hscript] at hanswer
    have hrespond := Outcome.of_not_refused hanswer
    obtain ⟨-, -, hrespond⟩ := Outcome.bind_eq_ok.mp hrespond
    split at hrespond
    · cases hrespond
    · split at hrespond
      · obtain ⟨response, hmap, hrespond⟩ := Outcome.bind_eq_ok.mp hrespond
        cases hrespond
        exact ⟨response, rfl, h e (hscript ▸ List.mem_cons_self) response hmap⟩
      · cases hrespond
        exact ⟨[], rfl, paged_nil⟩

/-! ## Requests of cursors -/

namespace Cursor

/-- The names of the options of a cursor. -/
def optionNames : List String :=
  ["AttributesToGet", "Select", "Limit", "ReturnConsumedCapacity"]

/-- The name under which a request says where to go on. -/
def startName : Value :=
  .text "ExclusiveStartKey"

/-- A cursor at a position, of which nothing else says where to go on. -/
structure At (mode : CursorMode) (params : Entries) (c : Cursor) (p : Position) : Prop where
  mode : c.mode = mode
  params : c.params = params
  options : Entries.NamedIn optionNames c.options
  hasMore : c.hasMore = p.hasMore
  key : c.continuationKey = p.key?

namespace At

variable {mode : CursorMode} {params : Entries} {c c' : Cursor} {p p' : Position}

theorem setOption (h : At mode params c p) {name : String} (hname : name ∈ optionNames)
    (v : Value) : At mode params (c.setOption name v) p :=
  ⟨h.mode, h.params, h.options.put hname, h.hasMore, h.key⟩

theorem dropOption (h : At mode params c p) (name : String) :
    At mode params (c.dropOption name) p :=
  ⟨h.mode, h.params, h.options.erase _, h.hasMore, h.key⟩

theorem counting (h : At mode params c p) : At mode params c.asCountOnly p :=
  have hcounting : At mode params { c with countOnly := true } p :=
    ⟨h.mode, h.params, h.options, h.hasMore, h.key⟩
  (hcounting.dropOption _).setOption (by simp [optionNames]) _

theorem metered (h : At mode params c p) (enabled : Value) :
    At mode params (c.withConsumedCapacity enabled) p :=
  h.setOption (by simp [optionNames]) _

theorem limited (h : At mode params c p) {limit : Value} (hlimit : c.withLimit limit = .ok c') :
    At mode params c' p := by
  unfold withLimit at hlimit
  split at hlimit
  · split at hlimit
    · exact Except.ok.inj hlimit ▸ h.setOption (by simp [optionNames]) _
    · cases hlimit
  · cases hlimit

theorem projected (h : At mode params c p) {s : Schema} {fields : List Value}
    (hproject : c.withProjection s fields = .ok c') : At mode params c' p := by
  have hproject := Outcome.of_not_refused hproject
  split at hproject
  · exact Except.ok.inj hproject ▸
      (h.dropOption _).setOption (by simp [optionNames]) _
  · obtain ⟨names, -, hproject⟩ := Outcome.bind_eq_ok.mp hproject
    exact Except.ok.inj hproject ▸
      (h.setOption (by simp [optionNames]) _).setOption (by simp [optionNames]) _

theorem moved (h : At mode params c p) (p' : Position) :
    At mode params { c with continuationKey := p'.key?, hasMore := p'.hasMore } p' :=
  ⟨h.mode, h.params, h.options, rfl, rfl⟩

/-- A request says where to go on exactly if it is for a page behind a key. -/
theorem find?_request (h : At mode params c p) (hparams : params.find? startName = none)
    {start : Option Entries} (hstart : start ≠ some []) :
    (c.request start).find? startName = start.map .map := by
  have hshaped : (c.params.overlay c.options).find? startName = none := by
    rw [startName, h.options.find?_overlay (by simp [optionNames]), h.params]
    exact hparams
  unfold request
  split
  · exact hshaped
  · exact absurd rfl hstart
  · exact Entries.find?_put_self _ _ _

end At

end Cursor

/-! ## Fetching -/

/-- The page of a response. -/
def Page.ofResponse (response : Entries) (items : List (Option Value)) (count : Int) : Page where
  items := items.filterMap id
  hasMore := (Position.behind response).hasMore
  count
  continuationKey := (Position.behind response).key?
  response := .map response

/-- Who asks for the table to be ready lets the client be asked for the table at most. -/
structure Handle.Passes (h : Handle) (r : Outcome Value) (h' : Handle) : Prop where
  run : Handle.ensureReady.run.run h = (r, h')
  checks : h.scene.environ.Checked h'.scene.environ
  table : h'.table = h.table

/-- The client receives a call and answers it. -/
structure Handle.Answers (call : String × Entries) (h : Handle) (r : Outcome Value)
    (h' : Handle) : Prop where
  answer : h.scene.environ.answer call.1 call.2 = (r, h'.scene.environ)
  calls : h'.calls = h.calls ++ [call]
  table : h'.table = h.table

/-- What comes of a call by which a page is read. The gate is passed first. -/
inductive Fetches (call : String × Entries) (h : Handle) : Outcome Page → Handle → Prop where
  | refused {f : Failure} {h' : Handle} (gate : h.Passes (.error f) h') :
      Fetches call h (.error f) h'
  | unnamed {v : Value} {f : Failure} {h' : Handle} (gate : h.Passes (.ok v) h')
      (names : Cursor.checkNames call.2 = .error f) : Fetches call h (.error f) h'
  | unanswered {v : Value} {f : Failure} {h₁ h' : Handle} (gate : h.Passes (.ok v) h₁)
      (answer : h₁.Answers call (.error f) h') : Fetches call h (.error f) h'
  | unread {v : Value} {response : Entries} {f : Failure} {h₁ h' : Handle}
      (gate : h.Passes (.ok v) h₁) (answer : h₁.Answers call (.ok (.map response)) h')
      (decode : Cursor.itemsOf h.table.schema (.map response) = .error f) :
      Fetches call h (.error f) h'
  | read {v : Value} {response : Entries} {items : List (Option Value)} {count : Int}
      {h₁ h' : Handle} (gate : h.Passes (.ok v) h₁)
      (answer : h₁.Answers call (.ok (.map response)) h')
      (decode : Cursor.itemsOf h.table.schema (.map response) = .ok items)
      (counted : Cursor.countOf (.map response) items.length = .ok count) :
      Fetches call h (.ok (.ofResponse response items count)) h'

namespace Handle

theorem exists_passes (h : Handle) : ∃ r h', h.Passes r h' :=
  ⟨_, _, rfl, checked_gateAction _ h, table_gateAction _ h⟩

theorem answers_called (h : Handle) (call : String × Entries) :
    h.Answers call (h.scene.environ.answer call.1 call.2).1 (h.called call) :=
  ⟨rfl, h.calls_called call, rfl⟩

end Handle

namespace Cursor

open Session

variable {c : Cursor} {start : Option Entries} {h h₁ : Handle}

/-- A cursor that has moved behind a response. -/
def movedBehind (c : Cursor) (response : Entries) : Cursor :=
  { c with
    continuationKey := (Position.behind response).key?
    hasMore := (Position.behind response).hasMore }

theorem take_error {s : Schema} {response : Value} {f : Failure}
    (h : itemsOf s response = .error f) : c.take s response = .error f := by
  rw [take, h]
  rfl

/-- A cursor to which a response gave a key, or none. -/
def moved (c : Cursor) (key : Option Entries) : Cursor :=
  { c with continuationKey := key, hasMore := key.isSome }

/-- The page of a response, if that tells how many items there are. -/
def pageOf (response : Value) (items : List (Option Value)) (key : Option Entries) :
    Outcome Page := do
  let count ← countOf response items.length
  return ⟨items.filterMap id, key.isSome, count, key, response⟩

/-- A response is taken if its items and its key are read, whatever it tells of their number. -/
theorem take_eq_ok_iff {s : Schema} {response : Value} {f : Fetched} :
    c.take s response = .ok f ↔ ∃ items key, itemsOf s response = .ok items ∧
      nextKey response = .ok key ∧ f = ⟨c.moved key, pageOf response items key⟩ := by
  constructor
  · intro h
    obtain ⟨items, hitems, h⟩ := Outcome.bind_eq_ok.mp h
    obtain ⟨key, hkey, h⟩ := Outcome.bind_eq_ok.mp h
    exact ⟨items, key, hitems, hkey, (Except.ok.inj h).symm⟩
  · rintro ⟨items, key, hitems, hkey, rfl⟩
    exact Outcome.bind_eq_ok.mpr ⟨items, hitems, Outcome.bind_eq_ok.mpr ⟨key, hkey, rfl⟩⟩

theorem pageOf_eq_ok_iff {response : Value} {items : List (Option Value)} {key : Option Entries}
    {page : Page} : pageOf response items key = .ok page ↔
      ∃ count, countOf response items.length = .ok count ∧
        page = ⟨items.filterMap id, key.isSome, count, key, response⟩ := by
  refine Outcome.bind_eq_ok.trans (exists_congr fun count => and_congr_right fun _ => ?_)
  exact ⟨fun h => (Except.ok.inj h).symm, fun h => congrArg Except.ok h.symm⟩

theorem pageOf_eq_error_iff {response : Value} {items : List (Option Value)}
    {key : Option Entries} {x : Failure} :
    pageOf response items key = .error x ↔ countOf response items.length = .error x :=
  Outcome.bind_pure_eq_error

theorem take_ok {s : Schema} {response : Entries} {items : List (Option Value)}
    (hpaged : Paged response) (h : itemsOf s (.map response) = .ok items) :
    ∃ count, countOf (.map response) items.length = .ok count ∧
      c.take s (.map response) =
        .ok ⟨c.movedBehind response, .ok (.ofResponse response items count)⟩ := by
  obtain ⟨count, hcount⟩ := hpaged.exists_count items.length
  have hpage := pageOf_eq_ok_iff.mpr
    ⟨count, hcount, show Page.ofResponse response items count = _ by
      rw [Page.ofResponse, Position.hasMore_behind]⟩
  refine ⟨count, hcount, take_eq_ok_iff.mpr ⟨items, _, h, hpaged.nextKey, ?_⟩⟩
  rw [hpage, movedBehind, moved, Position.hasMore_behind]

/-- Who has passed the gate calls the client, if the parameters are named by texts. -/
theorem run_fetch {v : Value} (c : Cursor) (start : Option Entries)
    (hready : Handle.ensureReady.run.run h = (.ok v, h₁)) :
    (c.fetch start).run.run h = match checkNames (c.request start) with
      | .error f => (.error f, h₁)
      | .ok _ => ((h₁.scene.environ.answer c.mode.operation (c.request start)).1 >>=
          c.take h₁.table.schema, h₁.called (c.mode.operation, c.request start)) := by
  have hgo : (c.fetch start).run.run h = _ := run_bind_ok hready
  cases hnames : checkNames (c.request start) with
  | error f =>
    rw [hnames] at hgo
    exact hgo
  | ok u =>
    have hlift : (Handle.lift (.ok u)).run.run h₁ = (.ok u, h₁) := rfl
    rw [hnames] at hgo
    replace hgo := hgo.trans (run_bind_ok hlift)
    have hcall := h₁.run_call c.mode.operation (c.request start)
    cases hanswer : (h₁.scene.environ.answer c.mode.operation (c.request start)).1 with
    | error f =>
      rw [hanswer] at hcall
      exact hgo.trans (run_bind_error hcall)
    | ok v =>
      rw [hanswer] at hcall
      refine hgo.trans ((run_bind_ok hcall).trans ?_)
      show (Handle.lift (c.take h₁.table.schema v)).run.run _ = (c.take h₁.table.schema v, _)
      cases c.take h₁.table.schema v <;> rfl

/-- A fetch fails, or it gives the page of a response and the cursor behind it. -/
theorem fetch_cases (c : Cursor) (start : Option Entries) (hscript : PagedScript h.script) :
    (∃ f h', (c.fetch start).run.run h = (.error f, h') ∧
        Fetches (c.mode.operation, c.request start) h (.error f) h') ∨
      ∃ response page h', (c.fetch start).run.run h =
          (.ok ⟨c.movedBehind response, .ok page⟩, h') ∧ page.response = .map response ∧
        Fetches (c.mode.operation, c.request start) h (.ok page) h' := by
  obtain ⟨r, h₁, hgate⟩ := h.exists_passes
  cases r with
  | error f => exact .inl ⟨f, h₁, run_bind_error hgate.run, .refused hgate⟩
  | ok v =>
  have hrun := run_fetch c start hgate.run
  have hanswer := h₁.answers_called (c.mode.operation, c.request start)
  cases hnames : checkNames (c.request start) with
  | error f =>
    rw [hnames] at hrun
    exact .inl ⟨f, h₁, hrun, .unnamed hgate hnames⟩
  | ok u =>
  cases hr : (h₁.scene.environ.answer c.mode.operation (c.request start)).1 with
  | error f =>
    rw [hnames, hr] at hrun
    rw [hr] at hanswer
    exact .inl ⟨f, _, hrun, .unanswered hgate hanswer⟩
  | ok v =>
  obtain ⟨response, rfl, hpaged⟩ := (hscript.mono hgate.checks.script).answer hr
  rw [hnames, hr, hgate.table] at hrun
  rw [hr] at hanswer
  cases hitems : itemsOf h.table.schema (.map response) with
  | error f =>
    refine .inl ⟨f, _, hrun.trans ?_, .unread hgate hanswer hitems⟩
    exact congrArg (·, _) (take_error hitems)
  | ok items =>
    obtain ⟨count, hcount, htake⟩ := take_ok (c := c) hpaged hitems
    refine .inr ⟨response, _, _, hrun.trans ?_, rfl, .read hgate hanswer hitems hcount⟩
    exact congrArg (·, _) htake

end Cursor

/-! ## Resuming -/

namespace Cursor

variable {token : Value} {key : Entries} {f : Failure}

theorem resume_of_ok (c : Cursor) (h : KeyToken.decode token = .ok (.map key)) :
    c.resume token = .ok { c with continuationKey := some key, hasMore := true } := by
  rw [resume, h]
  rfl

theorem resume_of_error (c : Cursor) (h : KeyToken.decode token = .error f) :
    c.resume token = .error (.request .cursor) := by
  have hbad := Failure.isBadValue_of_isMalformed (KeyToken.blames_decode token f h)
  rw [resume, h]
  show Except.error (if f.isBadValue = true then _ else f) = _
  rw [if_pos hbad]

end Cursor

/-! ## Turns -/

/-- What is done with a cursor, or meanwhile with the handle on which it reads. -/
inductive Turn where
  | execute
  | fetchNext
  | resume (token : Value)
  | project (fields : List Value)
  | limit (n : Value)
  | meter (enabled : Value)
  | countOnly
  | meanwhile (name : String) (values : List Value) (params : Params)

namespace Turn

/-- What came of a fetch. If it fails the cursor is what it was. -/
def fetched (c : Cursor) : Outcome Fetched × Handle → Outcome (Option Page) × Cursor × Handle
  | (.error f, h) => (.error f, c, h)
  | (.ok f, h) => (f.page.map some, f.cursor, h)

/-- What came of shaping a cursor. -/
def shaped (c : Cursor) (h : Handle) : Outcome Cursor → Outcome (Option Page) × Cursor × Handle
  | .error f => (.error f, c, h)
  | .ok c => (.ok none, c, h)

/-- What comes of a turn: a page, if there is one, the cursor and the handle. -/
def perform (turn : Turn) (c : Cursor) (h : Handle) : Outcome (Option Page) × Cursor × Handle :=
  match turn with
  | execute => fetched c (c.execute.run.run h)
  | fetchNext => fetched c (c.fetchNext.run.run h)
  | resume token => shaped c h (c.resume token)
  | project fields => shaped c h (c.withProjection h.table.schema fields)
  | limit n => shaped c h (c.withLimit n)
  | meter enabled => (.ok none, c.withConsumedCapacity enabled, h)
  | countOnly => (.ok none, c.asCountOnly, h)
  | meanwhile name values params =>
    (.ok none, c, ((Handle.invoke name values params).run.run h).2)

/-- Turns that concern neither the position nor the client. -/
def isShaping : Turn → Prop
  | project _ | limit _ | meter _ | countOnly => True
  | _ => False

/-- Takes turns, with what came of each. -/
def performAll : List Turn → Cursor → Handle → List (Turn × Outcome (Option Page)) × Cursor × Handle
  | [], c, h => ([], c, h)
  | turn :: turns, c, h =>
    let (r, c, h) := turn.perform c h
    let (rs, c, h) := performAll turns c h
    ((turn, r) :: rs, c, h)

end Turn

namespace Position

/-- Turns by which a page is read, and the key behind which it begins. -/
inductive Reads : Position → Turn → Option Entries → Prop where
  | again (p : Position) : Reads p .execute none
  | first : Reads .start .fetchNext none
  | next (key : Entries) (nonempty : key ≠ []) :
      Reads (.after key nonempty) .fetchNext (some key)

/-- The machine that a cursor is: how a turn moves the position and the handle. -/
inductive Step (mode : CursorMode) : Position → Handle → Turn → Outcome (Option Page) →
    Position → Handle → Prop where
  /-- A page is read: the position is behind it. -/
  | reads {p : Position} {turn : Turn} {start : Option Entries} {request response : Entries}
      {page : Page} {h h' : Handle} (reads : p.Reads turn start)
      (request_start : request.find? Cursor.startName = start.map .map)
      (fetches : Fetches (mode.operation, request) h (.ok page) h')
      (response_eq : page.response = .map response) :
      Step mode p h turn (.ok (some page)) (behind response) h'
  /-- No page is read: the position stays. -/
  | fails {p : Position} {turn : Turn} {start : Option Entries} {request : Entries} {f : Failure}
      {h h' : Handle} (reads : p.Reads turn start)
      (request_start : request.find? Cursor.startName = start.map .map)
      (fetches : Fetches (mode.operation, request) h (.error f) h') :
      Step mode p h turn (.error f) p h'
  | noMore {h : Handle} : Step mode exhausted h .fetchNext (.error .noMoreData) exhausted h
  | resumes {p : Position} {token : Value} {key : Entries} {h : Handle} (nonempty : key ≠ [])
      (decode : KeyToken.decode token = .ok (.map key)) :
      Step mode p h (.resume token) (.ok none) (after key nonempty) h
  | refuses {p : Position} {token : Value} {f : Failure} {h : Handle}
      (decode : KeyToken.decode token = .error f) :
      Step mode p h (.resume token) (.error (.request .cursor)) p h
  | shapes {p : Position} {turn : Turn} {r : Outcome (Option Page)} {h : Handle}
      (shaping : turn.isShaping) (page : ∀ page, r ≠ .ok (some page)) : Step mode p h turn r p h
  | meanwhile {p : Position} {name : String} {values : List Value} {params : Params}
      {h : Handle} : Step mode p h (.meanwhile name values params) (.ok none) p
        ((Handle.invoke name values params).run.run h).2

/-- Steps of the machine, with what comes of each. -/
inductive Path (mode : CursorMode) : Position → Handle → List (Turn × Outcome (Option Page)) →
    Position → Handle → Prop where
  | nil {p : Position} {h : Handle} : Path mode p h [] p h
  | cons {p p' p'' : Position} {h h' h'' : Handle} {turn : Turn} {r : Outcome (Option Page)}
      {rest : List (Turn × Outcome (Option Page))} (step : Step mode p h turn r p' h')
      (path : Path mode p' h' rest p'' h'') : Path mode p h ((turn, r) :: rest) p'' h''

end Position

/-! ## Running -/

section

variable {mode : CursorMode} {params : Entries} {c : Cursor} {p : Position} {h : Handle}

namespace Turn

/-- What a turn leaves behind: a step of the machine, a cursor at its position, and a script whose
responses have pages still. -/
def Follows (mode : CursorMode) (params : Entries) (p : Position) (h : Handle) (turn : Turn)
    (outcome : Outcome (Option Page) × Cursor × Handle) : Prop :=
  ∃ p', Position.Step mode p h turn outcome.1 p' outcome.2.2 ∧
    outcome.2.1.At mode params p' ∧ PagedScript outcome.2.2.script

theorem follows_fetched (hc : c.At mode params p) (hparams : params.find? Cursor.startName = none)
    (hscript : PagedScript h.script) {turn : Turn} {start : Option Entries}
    (hreads : p.Reads turn start) :
    Follows mode params p h turn (fetched c ((c.fetch start).run.run h)) := by
  have hstart : start ≠ some [] := by
    cases hreads with
    | again | first => exact nofun
    | next key nonempty => exact fun h => nonempty (Option.some.inj h)
  have hrequest := hc.find?_request hparams hstart
  have hconsumes := Session.consumes_fetch c start h
  rcases c.fetch_cases start hscript with
    ⟨f, h', hrun, hfetches⟩ | ⟨response, page, h', hrun, hpage, hfetches⟩
  · rw [hrun] at hconsumes ⊢
    rw [hc.mode] at hfetches
    exact ⟨p, .fails hreads hrequest hfetches, hc, hscript.mono hconsumes⟩
  · rw [hrun] at hconsumes ⊢
    rw [hc.mode] at hfetches
    exact ⟨_, .reads hreads hrequest hfetches hpage, hc.moved _, hscript.mono hconsumes⟩

theorem follows_shaped (turn : Turn) (hscript : PagedScript h.script) (hturn : turn.isShaping)
    {o : Outcome Cursor} (hc : c.At mode params p) (ho : ∀ c', o = .ok c' → c'.At mode params p) :
    Follows mode params p h turn (shaped c h o) := by
  cases o with
  | error f => exact ⟨p, .shapes hturn nofun, hc, hscript⟩
  | ok c' => exact ⟨p, .shapes hturn nofun, ho c' rfl, hscript⟩

theorem follows_resume (token : Value) (hscript : PagedScript h.script) (hc : c.At mode params p) :
    Follows mode params p h (.resume token) (shaped c h (c.resume token)) := by
  rcases KeyToken.decode_cases token with ⟨key, hne, hdecode⟩ | ⟨f, -, hdecode⟩
  · rw [c.resume_of_ok hdecode]
    exact ⟨.after key hne, .resumes hne hdecode, hc.moved (.after key hne), hscript⟩
  · rw [c.resume_of_error hdecode]
    exact ⟨p, .refuses hdecode, hc, hscript⟩

/-- **Each turn** of a cursor is a step of the machine. -/
theorem follows_perform (turn : Turn) (hc : c.At mode params p)
    (hparams : params.find? Cursor.startName = none) (hscript : PagedScript h.script) :
    Follows mode params p h turn (turn.perform c h) := by
  cases turn with
  | execute => exact follows_fetched hc hparams hscript (.again p)
  | fetchNext =>
    simp only [perform, Cursor.fetchNext, hc.hasMore, hc.key]
    cases p with
    | start => exact follows_fetched hc hparams hscript .first
    | after key nonempty => exact follows_fetched hc hparams hscript (.next key nonempty)
    | exhausted => exact ⟨.exhausted, .noMore, hc, hscript⟩
  | resume token => exact follows_resume token hscript hc
  | project fields =>
    exact follows_shaped (.project fields) hscript trivial hc fun _ hc' => hc.projected hc'
  | limit n => exact follows_shaped (.limit n) hscript trivial hc fun _ hc' => hc.limited hc'
  | meter enabled => exact ⟨p, .shapes trivial nofun, hc.metered enabled, hscript⟩
  | countOnly => exact ⟨p, .shapes trivial nofun, hc.counting, hscript⟩
  | meanwhile name values others =>
    exact ⟨p, .meanwhile, hc, hscript.mono (Session.consumes_invoke name values others h)⟩

theorem path_performAll (turns : List Turn) (hc : c.At mode params p)
    (hparams : params.find? Cursor.startName = none) (hscript : PagedScript h.script) :
    ∃ p', Position.Path mode p h (performAll turns c h).1 p' (performAll turns c h).2.2 ∧
      (performAll turns c h).2.1.At mode params p' := by
  induction turns generalizing c h p with
  | nil => exact ⟨p, .nil, hc⟩
  | cons turn turns ih =>
    obtain ⟨p', hstep, hc', hscript'⟩ := turn.follows_perform hc hparams hscript
    obtain ⟨p'', hpath, hc''⟩ := ih hc' hscript'
    exact ⟨p'', .cons hstep hpath, hc''⟩

end Turn

end

/-- **A cursor is a machine with positions.** A new cursor is at the start. Whatever is done with
it and meanwhile with its handle, what comes of that are steps of the machine, and the fields of the
cursor tell the position. -/
theorem Cursor.follows_positions (mode : CursorMode) {params : Entries} {h : Handle}
    (hparams : params.find? (.text "ExclusiveStartKey") = none) (hscript : PagedScript h.script)
    (turns : List Turn) :
    ∃ p, Position.Path mode .start h (Turn.performAll turns { mode, params } h).1 p
        (Turn.performAll turns { mode, params } h).2.2 ∧
      ((Turn.performAll turns { mode, params } h).2.1.hasMore = false ↔ p = .exhausted) ∧
      ∀ key, (Turn.performAll turns { mode, params } h).2.1.continuationKey = some key ↔
        ∃ nonempty, p = .after key nonempty := by
  have hnew : Cursor.At mode params { mode, params } .start := ⟨rfl, rfl, .nil, rfl, rfl⟩
  obtain ⟨p, hpath, hc⟩ := Turn.path_performAll turns hnew hparams hscript
  refine ⟨p, hpath, ?_, fun key => ?_⟩
  · rw [hc.hasMore, Position.hasMore_eq_false_iff]
  · rw [hc.key, Position.key?_eq_some_iff]

/-- A handle of a table whose items come in two pages. -/
def Handle.twoPages : Handle where
  table :=
    { schema := { fields := [], hashKey := ⟨"id", "id", "S", none, false, none⟩ }
      name := "orders"
      consistentRead := false
      throughput := .null }
  scene :=
    { gate := { table := "orders", interval := .int 1 }
      environ := { script := [Client.activeTable (.text "orders"),
        { operation := "scan"
          response := .map [(.text "Count", .int 3),
            (.text "LastEvaluatedKey", .map [(.text "id", .map [(.text "S", .text "a")])])] },
        { operation := "scan", response := .map [(.text "Count", .int 1)] }] } }

theorem Cursor.follows_positions_twoPages :
    OrderedMap.find? ([] : Entries) (.text "ExclusiveStartKey") = none ∧
      PagedScript Handle.twoPages.script ∧
      Position.Path .scan .start .twoPages
        (Turn.performAll [.execute, .fetchNext, .fetchNext] { mode := .scan, params := [] }
          .twoPages).1 .exhausted
        (Turn.performAll [.execute, .fetchNext, .fetchNext] { mode := .scan, params := [] }
          .twoPages).2.2 := by
  have hscript : PagedScript Handle.twoPages.script := by
    intro e he response hresponse
    simp only [Handle.twoPages, Handle.script, List.mem_cons, List.not_mem_nil, or_false] at he
    rcases he with rfl | rfl | rfl <;> cases hresponse
    all_goals
      constructor <;> intro v hv <;> simp [OrderedMap.find?, Value.text_beq_text] at hv <;>
        subst hv
    · rfl
    · exact ⟨_, rfl⟩
    · rfl
  have hparams : OrderedMap.find? ([] : Entries) (.text "ExclusiveStartKey") = none := rfl
  obtain ⟨p, hpath, hmore, -⟩ := Cursor.follows_positions .scan hparams hscript
    [.execute, .fetchNext, .fetchNext]
  have hend : p = .exhausted := hmore.mp (by decide +kernel)
  exact ⟨hparams, hscript, hend ▸ hpath⟩

end DocTable
