import DocTable.Proofs.Table.Fetching

/-! What the requests of a cursor ask for. The call that shaped the selection last decides, except
that items that are counted go on to be counted only. The options of the cursor say what is asked
for; they are laid over the parameters of the request, and what a caller gives there under a name
that the options have dropped is asked for as well. -/

namespace DocTable

/-! ## Selections -/

/-- What is asked of the items of a page. -/
inductive Selection where
  | unshaped
  | everything
  | only (fields : List Value)
  | count

/-- Turns that do not concern the selection. -/
def Turn.keepsSelection : Turn → Bool
  | project _ | countOnly => false
  | _ => true

namespace Selection

/-- The selection after a turn. Refused calls change nothing, and what is counted stays so. -/
def after : Selection → Turn × Outcome (Option Page) → Selection
  | _, (.countOnly, _) => count
  | count, _ => count
  | _, (.project [], .ok _) => everything
  | _, (.project fields, .ok _) => only fields
  | selection, _ => selection

/-- The selection after some turns, of which each is given with what came of it. -/
def ofHistory (history : List (Turn × Outcome (Option Page))) : Selection :=
  history.foldl after unshaped

/-- Whether values are the names of the attributes that hold some fields. -/
def Stored (s : Schema) : List Value → List Value → Prop :=
  List.Forall₂ fun field name =>
    ∃ n d, field = .text n ∧ s.fields.find? n = some d ∧ name = .text d.storedName

/-- Whether a request asks for what is selected. -/
def AskedIn (s : Schema) : Selection → Entries → Prop
  | unshaped, _ => True
  | everything, request =>
    request.find? (.text "Select") = some (.text "ALL_ATTRIBUTES") ∧
      request.find? (.text "AttributesToGet") = none
  | only fields, request =>
    request.find? (.text "Select") = some (.text "SPECIFIC_ATTRIBUTES") ∧
      ∃ names, Stored s fields names ∧
        request.find? (.text "AttributesToGet") = some (.list names)
  | count, request =>
    request.find? (.text "Select") = some (.text "COUNT") ∧
      request.find? (.text "AttributesToGet") = none

variable {s : Schema} {selection : Selection} {request request' options params : Entries}
  {history : List (Turn × Outcome (Option Page))}

theorem after_of_keeps (selection : Selection) (turn : Turn) (h : turn.keepsSelection = true)
    (r : Outcome (Option Page)) : selection.after (turn, r) = selection := by
  cases turn with
  | project | countOnly => cases h
  | _ => cases selection <;> rfl

theorem after_refused (selection : Selection) (fields : List Value) (f : Failure) :
    selection.after (.project fields, .error f) = selection := by
  cases selection <;> cases fields <;> rfl

theorem after_count (turn : Turn × Outcome (Option Page)) : count.after turn = count := by
  obtain ⟨turn, r⟩ := turn
  cases turn <;> rfl

theorem foldl_after_count : history.foldl after count = count := by
  induction history with
  | nil => rfl
  | cons turn history ih => rw [List.foldl_cons, after_count, ih]

/-- Once items are counted they are counted for good. -/
theorem foldl_after_of_mem {r : Outcome (Option Page)} (h : (.countOnly, r) ∈ history)
    (selection : Selection) : history.foldl after selection = count := by
  induction history generalizing selection with
  | nil => cases h
  | cons turn history ih =>
    rw [List.foldl_cons]
    cases h with
    | head =>
      have hcount : selection.after (.countOnly, r) = count := by cases selection <;> rfl
      rw [hcount, foldl_after_count]
    | tail _ h => exact ih h _

/-- Only two entries of a request say what is asked for. -/
theorem AskedIn.congr (h : selection.AskedIn s request)
    (hselect : request'.find? (.text "Select") = request.find? (.text "Select"))
    (hnames : request'.find? (.text "AttributesToGet") =
      request.find? (.text "AttributesToGet")) : selection.AskedIn s request' := by
  cases selection with
  | unshaped => trivial
  | everything | count => exact ⟨hselect.trans h.1, hnames.trans h.2⟩
  | only fields =>
    obtain ⟨names, hstored, hfind⟩ := h.2
    exact ⟨hselect.trans h.1, names, hstored, hnames.trans hfind⟩

/-- What the options say is asked for, unless the parameters name attributes and the options do
not. -/
theorem askedIn_overlay (h : selection.AskedIn s options)
    (hselect : request.find? (.text "Select") =
      (options.find? (.text "Select")).or (params.find? (.text "Select")))
    (hnames : request.find? (.text "AttributesToGet") =
      (options.find? (.text "AttributesToGet")).or (params.find? (.text "AttributesToGet"))) :
    selection.AskedIn s request ↔ (selection = everything ∨ selection = count →
      params.find? (.text "AttributesToGet") = none) := by
  cases selection with
  | unshaped => simp [AskedIn]
  | everything =>
    obtain ⟨hcode, hnone⟩ := h
    simp [AskedIn, hselect, hnames, hcode, hnone]
  | count =>
    obtain ⟨hcode, hnone⟩ := h
    simp [AskedIn, hselect, hnames, hcode, hnone]
  | only fields =>
    obtain ⟨hcode, names, hstored, hfind⟩ := h
    refine iff_of_true ⟨by rw [hselect, hcode]; rfl, names, hstored, by rw [hnames, hfind]; rfl⟩ ?_
    rintro (h | h) <;> cases h

end Selection

/-! ## Shaping -/

namespace Cursor

/-- A cursor over some parameters, with options that say what is selected. -/
structure Selects (s : Schema) (mode : CursorMode) (params : Entries) (c : Cursor)
    (selection : Selection) : Prop where
  mode : c.mode = mode
  params : c.params = params
  options : Entries.NamedIn optionNames c.options
  distinct : OrderedMap.Distinct c.options
  counting : c.countOnly = true ↔ selection = .count
  asked : selection.AskedIn s c.options

theorem exists_of_storedNameOf {s : Schema} {field name : Value}
    (h : storedNameOf s field = .ok name) :
    ∃ n d, field = .text n ∧ s.fields.find? n = some d ∧ name = .text d.storedName := by
  unfold storedNameOf at h
  split at h
  next n =>
    obtain ⟨d, hd, h⟩ := Outcome.bind_eq_ok.mp h
    unfold Schema.field at hd
    split at hd
    next d' hfind =>
      obtain rfl := Except.ok.inj hd
      exact ⟨n, d', rfl, hfind, (Except.ok.inj h).symm⟩
    next => cases hd
  next =>
    split at h
    next => exact absurd h (Outcome.bind_ne_ok fun _ => nofun)
    next => cases h

namespace Selects

variable {s : Schema} {mode : CursorMode} {params : Entries} {c c' : Cursor}
  {selection : Selection} {name : String}

theorem moved (h : Selects s mode params c selection) (key : Option Entries) (more : Bool) :
    Selects s mode params { c with continuationKey := key, hasMore := more } selection :=
  ⟨h.mode, h.params, h.options, h.distinct, h.counting, h.asked⟩

/-- Other options leave the selection. -/
theorem setOption (h : Selects s mode params c selection) (hname : name ∈ optionNames)
    (hselect : name ≠ "Select") (hnames : name ≠ "AttributesToGet") (v : Value) :
    Selects s mode params (c.setOption name v) selection :=
  ⟨h.mode, h.params, h.options.put hname, Entries.distinct_put h.distinct _ _, h.counting,
    h.asked.congr (Entries.find?_put_of_ne hselect _ _) (Entries.find?_put_of_ne hnames _ _)⟩

theorem limited (h : Selects s mode params c selection) {limit : Value}
    (hlimit : c.withLimit limit = .ok c') : Selects s mode params c' selection := by
  unfold withLimit at hlimit
  split at hlimit
  · split at hlimit
    · exact Except.ok.inj hlimit ▸
        h.setOption (by simp [optionNames]) (by decide) (by decide) _
    · cases hlimit
  · cases hlimit

theorem resumed (h : Selects s mode params c selection) {token : Value}
    (hresume : c.resume token = .ok c') : Selects s mode params c' selection := by
  unfold resume at hresume
  split at hresume
  · exact Except.ok.inj hresume ▸ h.moved _ _
  · cases hresume

/-- What drops the names of attributes and gives another code for the selection. -/
theorem reselected (h : Selects s mode params c selection) {counting : Bool} {code : String}
    {selection' : Selection} (hcounting : counting = true ↔ selection' = .count)
    (hasked : ∀ options : Entries, options.find? (.text "Select") = some (.text code) →
      options.find? (.text "AttributesToGet") = none → selection'.AskedIn s options) :
    Selects s mode params (({ c with countOnly := counting }.dropOption "AttributesToGet").setOption
      "Select" (.text code)) selection' := by
  refine ⟨h.mode, h.params, (h.options.erase _).put (by simp [optionNames]),
    Entries.distinct_put (Entries.distinct_erase h.distinct _) _ _, hcounting,
    hasked _ (Entries.find?_put_self _ _ _) ?_⟩
  rw [Cursor.setOption, Entries.find?_put_of_ne (by decide)]
  exact OrderedMap.find?_erase_self c.options _

theorem counted (h : Selects s mode params c selection) :
    Selects s mode params c.asCountOnly .count :=
  h.reselected (by simp) fun _ => And.intro

/-- What names attributes selects these. -/
theorem named (h : Selects s mode params c selection) (hcounting : c.countOnly = false)
    {fields names : List Value} (hstored : Selection.Stored s fields names) :
    Selects s mode params ((c.setOption "AttributesToGet" (.list names)).setOption "Select"
      (.text "SPECIFIC_ATTRIBUTES")) (.only fields) := by
  refine ⟨h.mode, h.params, (h.options.put (by simp [optionNames])).put (by simp [optionNames]),
    Entries.distinct_put (Entries.distinct_put h.distinct _ _) _ _, ?_,
    Entries.find?_put_self _ _ _, names, hstored, ?_⟩
  · exact iff_of_false (by simp [Cursor.setOption, hcounting])
      Selection.noConfusion
  · rw [Cursor.setOption, Entries.find?_put_of_ne (by decide)]
    exact Entries.find?_put_self _ _ _

/-- A projection is accepted unless items are counted only. It selects the fields it is given, or
everything if there are none. -/
theorem projected (h : Selects s mode params c selection) {fields : List Value}
    (hproject : c.withProjection s fields = .ok c') (page : Option Page) :
    Selects s mode params c' (selection.after (.project fields, .ok page)) := by
  obtain ⟨hcount, hproject⟩ := Outcome.unless_eq_ok.mp hproject
  have hcounting : c.countOnly = false := Bool.eq_false_iff.mpr hcount
  cases fields with
  | nil =>
    have hafter : selection.after (.project [], .ok page) = .everything := by
      cases selection with
      | count => exact absurd (h.counting.mpr rfl) hcount
      | _ => rfl
    have hfree : c.countOnly = true ↔ Selection.everything = .count :=
      iff_of_false hcount nofun
    rw [hafter]
    exact Except.ok.inj hproject ▸ h.reselected hfree fun _ => And.intro
  | cons field fields =>
    have hafter : selection.after (.project (field :: fields), .ok page) =
        .only (field :: fields) := by
      cases selection with
      | count => exact absurd (h.counting.mpr rfl) hcount
      | _ => rfl
    obtain ⟨names, hnames, hproject⟩ := Outcome.bind_eq_ok.mp hproject
    rw [hafter]
    exact Except.ok.inj hproject ▸ h.named hcounting
      ((Outcome.mapM_eq_ok.mp hnames).imp fun _ _ => exists_of_storedNameOf)

end Selects

/-- A fetch leaves a cursor where it was, or moves it. -/
theorem fetched_cursor (c : Cursor) (start : Option Entries) (h : Handle) :
    (Turn.fetched c ((c.fetch start).run.run h)).2.1 = c ∨
      ∃ key, (Turn.fetched c ((c.fetch start).run.run h)).2.1 = c.moved key := by
  rcases c.fetch_received start h with ⟨f, h', hrun⟩ | ⟨response, h', -, hrun⟩
  · rw [hrun]
    exact .inl rfl
  · rw [hrun]
    cases htake : c.take h.table.schema response with
    | error f => exact .inl rfl
    | ok f =>
      obtain ⟨items, key, -, -, rfl⟩ := take_eq_ok_iff.mp htake
      exact .inr ⟨key, rfl⟩

end Cursor

/-! ## Turns -/

namespace Turn

variable {s : Schema} {mode : CursorMode} {params : Entries} {c : Cursor} {h : Handle}
  {selection : Selection}

theorem selects_fetched (hc : c.Selects s mode params selection) (start : Option Entries) :
    (fetched c ((c.fetch start).run.run h)).2.1.Selects s mode params selection := by
  rcases c.fetched_cursor start h with heq | ⟨key, heq⟩ <;> rw [heq]
  · exact hc
  · exact hc.moved key _

theorem selects_shaped (hc : c.Selects s mode params selection) {o : Outcome Cursor}
    (ho : ∀ c', o = .ok c' → c'.Selects s mode params selection) :
    (shaped c h o).2.1.Selects s mode params selection := by
  cases o with
  | error f => exact hc
  | ok c' => exact ho c' rfl

/-- **Each turn** leaves options that say what is selected after it. -/
theorem selects_perform (turn : Turn) (hc : c.Selects s mode params selection)
    (hschema : h.table.schema = s) :
    (turn.perform c h).2.1.Selects s mode params
      (selection.after (turn, (turn.perform c h).1)) := by
  cases turn with
  | project fields =>
    rw [perform, hschema]
    cases hproject : c.withProjection s fields with
    | error f =>
      rw [shaped, Selection.after_refused]
      exact hc
    | ok c' => exact hc.projected hproject none
  | countOnly =>
    have hafter : ∀ r, selection.after (.countOnly, r) = .count := fun r => by
      cases selection <;> rfl
    rw [hafter]
    exact hc.counted
  | execute =>
    rw [Selection.after_of_keeps _ .execute rfl]
    exact selects_fetched hc none
  | fetchNext =>
    rw [Selection.after_of_keeps _ .fetchNext rfl, perform, Cursor.fetchNext]
    split
    · exact selects_fetched hc c.continuationKey
    · exact hc
  | resume token =>
    rw [Selection.after_of_keeps _ (.resume token) rfl]
    exact selects_shaped hc fun _ => hc.resumed
  | limit n =>
    rw [Selection.after_of_keeps _ (.limit n) rfl]
    exact selects_shaped hc fun _ => hc.limited
  | meter enabled =>
    rw [Selection.after_of_keeps _ (.meter enabled) rfl]
    exact hc.setOption (by simp [Cursor.optionNames]) (by decide) (by decide) _
  | meanwhile name values others =>
    rw [Selection.after_of_keeps _ (.meanwhile name values others) rfl]
    exact hc

/-- What lasts through the gate and through some calls lasts through a turn that makes no others. -/
theorem lasting_perform {calls : String × Entries → Prop} {R : Handle → Handle → Prop}
    (hR : Handle.Lasting calls R) (hpages : ∀ start, calls (c.mode.operation, c.request start))
    (hothers : ∀ operation request, operation ≠ "query" → operation ≠ "scan" →
      calls (operation, request)) (turn : Turn) (h : Handle) : R h (turn.perform c h).2.2 := by
  have hfetched : ∀ start, R h (fetched c ((c.fetch start).run.run h)).2.2 := fun start => by
    have hfetch := Session.leads_fetch hR (hpages start) h
    rcases hrun : (c.fetch start).run.run h with ⟨f | f, h'⟩ <;> rw [hrun] at hfetch <;>
      exact hfetch
  have hshaped : ∀ o, R h (shaped c h o).2.2 := fun o => by
    cases o <;> exact hR.refl h
  cases turn with
  | execute => exact hfetched none
  | fetchNext =>
    rw [perform, Cursor.fetchNext]
    split
    · exact hfetched c.continuationKey
    · exact hR.refl h
  | resume | project | limit => exact hshaped _
  | meter | countOnly => exact hR.refl h
  | meanwhile name values params => exact Session.leads_invoke hR hothers name values params h

theorem table_perform (turn : Turn) (c : Cursor) (h : Handle) :
    (turn.perform c h).2.2.table = h.table :=
  turn.lasting_perform Handle.lasting_table (fun _ => trivial) (fun _ _ _ _ => trivial) h

/-- After any turns the options say what is selected. -/
theorem selects_performAll (turns : List Turn) (hc : c.Selects s mode params selection)
    (hschema : h.table.schema = s) :
    (performAll turns c h).2.1.Selects s mode params
      ((performAll turns c h).1.foldl Selection.after selection) := by
  induction turns generalizing c h selection with
  | nil => exact hc
  | cons turn turns ih =>
    exact ih (turn.selects_perform hc hschema) ((congrArg _ (turn.table_perform c h)).trans hschema)

/-- The requests for pages that the client receives in a turn. -/
def requests (turn : Turn) (c : Cursor) (h : Handle) : List Entries :=
  (((turn.perform c h).2.2.calls.drop h.calls.length).filter (·.1 = c.mode.operation)).map (·.2)

/-- Pages are asked for by requests of the cursor only. -/
theorem exists_of_mem_requests {turn : Turn} {request : Entries}
    (hrequest : request ∈ turn.requests c h) :
    ∃ start, request = c.request start := by
  let ofCursor (call : String × Entries) : Prop :=
    call.1 = c.mode.operation → ∃ start, call.2 = c.request start
  have hothers : ∀ operation request, operation ≠ "query" → operation ≠ "scan" →
      ofCursor (operation, request) := by
    intro operation request hquery hscan hmode
    cases hm : c.mode with
    | query => exact absurd (hmode.trans (congrArg _ hm)) hquery
    | scan => exact absurd (hmode.trans (congrArg _ hm)) hscan
  have hchecks : ∀ operation request, operation = "describe_table" ∨ operation = "create_table" →
      ofCursor (operation, request) := by
    rintro operation request (rfl | rfl) <;> exact hothers _ _ (by decide) (by decide)
  obtain ⟨added, hcalls, hadded⟩ := turn.lasting_perform (Handle.lasting_calls hchecks)
    (fun start _ => ⟨start, rfl⟩) hothers h
  rw [requests, hcalls, List.drop_left] at hrequest
  obtain ⟨call, hcall, rfl⟩ := List.mem_map.mp hrequest
  obtain ⟨hmem, hoperation⟩ := List.mem_filter.mp hcall
  exact hadded call hmem (of_decide_eq_true hoperation)

end Turn

/-! ## Requests -/

namespace Cursor

variable {s : Schema} {mode : CursorMode} {entries : Entries} {c : Cursor} {selection : Selection}

/-- The options come first in a request, and then the parameters. -/
theorem Selects.find?_request (h : c.Selects s mode entries selection) (start : Option Entries)
    {name : String} (hname : name ≠ "ExclusiveStartKey") : (c.request start).find? (.text name) =
      (c.options.find? (.text name)).or (entries.find? (.text name)) := by
  have hshaped := h.options.find?_overlay_of_distinct h.distinct c.params name
  rw [h.params] at hshaped
  unfold request
  rw [h.params]
  split
  · exact hshaped
  · exact hshaped
  · rw [Entries.find?_put_of_ne hname.symm, hshaped]

theorem Selects.askedIn_request (h : c.Selects s mode entries selection) (start : Option Entries) :
    selection.AskedIn s (c.request start) ↔ (selection = .everything ∨ selection = .count →
      entries.find? (.text "AttributesToGet") = none) :=
  Selection.askedIn_overlay h.asked (h.find?_request start (by decide))
    (h.find?_request start (by decide))

/-- A new cursor selects nothing in particular, and has the names of attributes that the caller
gave. -/
theorem exists_selects {t : Table} {params : Params}
    (hc : (∃ conditions, t.query conditions params = .ok c) ∨
      ∃ filter, t.scan filter params = .ok c) :
    c.Selects t.schema c.mode c.params .unshaped ∧
      c.params.find? (.text "AttributesToGet") = params.find? "AttributesToGet" := by
  have hnew : ∀ mode params, Selects t.schema mode params { mode, params } .unshaped :=
    fun _ _ => ⟨rfl, rfl, .nil, .nil, by simp, trivial⟩
  rcases hc with ⟨conditions, h⟩ | ⟨filter, h⟩ <;>
    obtain ⟨request, hrequest, h⟩ := Outcome.bind_eq_ok.mp h <;> cases h
  · exact ⟨hnew _ _, (Table.overlaid_queryRequest hrequest).find?_param (by simp [Table.nameEntry])⟩
  · exact ⟨hnew _ _, (Table.overlaid_scanRequest hrequest).find?_param (by simp [Table.nameEntry])⟩

/-- **The selection follows the last accepted call**, except for the names of attributes that the
caller gave with the parameters. Whatever was done with a cursor, once its items are counted no
projection is accepted any more. Every request for a page asks for what is selected, unless that is
everything or the count and the caller gave such names. -/
theorem selection_iff {t : Table} {params : Params}
    (hc : (∃ conditions, t.query conditions params = .ok c) ∨
      ∃ filter, t.scan filter params = .ok c) {h : Handle} (htable : h.table = t)
    (turns : List Turn) {history : List (Turn × Outcome (Option Page))} {c' : Cursor}
    {h' : Handle} (hrun : Turn.performAll turns c h = (history, c', h')) :
    ((∃ r, (Turn.countOnly, r) ∈ history) → Selection.ofHistory history = .count ∧
      ∀ fields, c'.withProjection t.schema fields = .error (.request .projectionOfCount)) ∧
    ∀ turn, ∀ request ∈ Turn.requests turn c' h',
      ((Selection.ofHistory history).AskedIn t.schema request ↔
        (Selection.ofHistory history = .everything ∨ Selection.ofHistory history = .count →
          params.find? "AttributesToGet" = none)) := by
  obtain ⟨hnew, hnames⟩ := exists_selects hc
  have hselects := Turn.selects_performAll turns hnew (congrArg Table.schema htable)
  rw [hrun] at hselects
  change c'.Selects _ _ _ (Selection.ofHistory history) at hselects
  refine ⟨fun ⟨r, hmem⟩ => ?_, fun turn request hrequest => ?_⟩
  · have hcount := Selection.foldl_after_of_mem hmem .unshaped
    refine ⟨hcount, fun fields => ?_⟩
    unfold withProjection
    rw [hselects.counting.mpr hcount]
    rfl
  · obtain ⟨start, rfl⟩ := Turn.exists_of_mem_requests hrequest
    rw [hselects.askedIn_request start, hnames]

end Cursor

/-- A table of orders, whose numbers are held under a shorter name. -/
def Table.orders : Table :=
  { Handle.twoPages.table with
    schema :=
      { fields := [("number", ⟨"number", "no", "S", some "HASH", false, none⟩)]
        hashKey := ⟨"number", "no", "S", some "HASH", false, none⟩ } }

/-- A handle of that table, with pages to come. -/
def Handle.ofOrders : Handle :=
  { twoPages with table := .orders }

/-- A scan of the orders. -/
def Cursor.ordersScan (params : Params) : Cursor :=
  { mode := .scan, params := Table.orders.request params [] }

/-- What comes of some turns of a scan of the orders. -/
def Cursor.ordersRun (params : Params) (turns : List Turn) :
    List (Turn × Outcome (Option Page)) × Cursor × Handle :=
  Turn.performAll turns (ordersScan params) .ofOrders

/-- The requests that the scan makes when it is executed after that. -/
def Cursor.ordersRequests (params : Params) (turns : List Turn) : List Entries :=
  Turn.execute.requests (ordersRun params turns).2.1 (ordersRun params turns).2.2

/-- A projection is asked for where the caller names attributes as well, and a count where the
caller names none. -/
theorem Cursor.selection_iff_orders :
    (∃ request ∈ ordersRequests [("AttributesToGet", .list [.text "color"])]
        [.limit (.int 0), .project [.text "number"], .project [.text "size"], .fetchNext],
      (Selection.only [.text "number"]).AskedIn Table.orders.schema request) ∧
    ∃ request ∈ ordersRequests [] [.project [.text "number"], .countOnly, .project []],
      Selection.count.AskedIn Table.orders.schema request := by
  have hasks : ∀ params turns, (ordersRequests params turns).isEmpty = false →
      (Selection.ofHistory (ordersRun params turns).1 = .everything ∨
        Selection.ofHistory (ordersRun params turns).1 = .count →
          params.find? "AttributesToGet" = none) →
      ∃ request ∈ ordersRequests params turns,
        (Selection.ofHistory (ordersRun params turns).1).AskedIn Table.orders.schema request := by
    intro params turns hsome hunnamed
    obtain ⟨request, hrequest⟩ :=
      List.exists_mem_of_ne_nil _ (List.isEmpty_eq_false_iff.mp hsome)
    have hscan : Table.orders.scan .null params = .ok (ordersScan params) := rfl
    have hrun : Turn.performAll turns (ordersScan params) .ofOrders =
        ordersRun params turns := rfl
    have hiff := (selection_iff (.inr ⟨.null, hscan⟩) rfl turns hrun).2 .execute request hrequest
    exact ⟨request, hrequest, hiff.mpr hunnamed⟩
  constructor
  · have hselected : Selection.ofHistory (ordersRun [("AttributesToGet", .list [.text "color"])]
        [.limit (.int 0), .project [.text "number"], .project [.text "size"], .fetchNext]).1 =
          .only [.text "number"] := by
      rfl
    refine hselected ▸ hasks _ _ (by with_unfolding_all rfl) ?_
    rw [hselected]
    rintro (h | h) <;> cases h
  · have hselected : Selection.ofHistory (ordersRun []
        [.project [.text "number"], .countOnly, .project []]).1 = .count := by
      rfl
    exact hselected ▸ hasks _ _ (by with_unfolding_all rfl) fun _ => rfl

/-- Counted items are not asked for alone where the caller names attributes. -/
theorem Cursor.not_selection_named :
    ¬ ∀ (t : Table) (params : Params) (filter : Value) (c : Cursor),
      t.scan filter params = .ok c → ∀ (h : Handle) (turns : List Turn), h.table = t →
        ∀ (turn : Turn), ∀ request ∈
          turn.requests (Turn.performAll turns c h).2.1 (Turn.performAll turns c h).2.2,
          (Selection.ofHistory (Turn.performAll turns c h).1).AskedIn t.schema request := by
  intro hall
  have hnamed : (ordersRequests [("AttributesToGet", .list [.text "no"])] [.countOnly]).any
      (·.find? (.text "AttributesToGet") |>.isSome) = true := by
    with_unfolding_all rfl
  obtain ⟨request, hrequest, hsome⟩ := List.any_eq_true.mp hnamed
  have hasked : Selection.count.AskedIn Table.orders.schema request :=
    hall .orders [("AttributesToGet", .list [.text "no"])] .null (ordersScan _) rfl .ofOrders
      [.countOnly] rfl .execute request hrequest
  rw [hasked.2] at hsome
  cases hsome

end DocTable
