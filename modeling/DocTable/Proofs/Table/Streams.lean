import DocTable.Proofs.Table.Fetching
import DocTable.Proofs.Table.Operations

/-! Streams. A client serves a chain of pages: behind the key of each page but the last there is the
next one, unless the chain breaks. A stream over a query gives the items of the chain in their
order. It asks for each page once, and only when its first item is wanted. -/

namespace DocTable

/-! ## Chains of pages -/

/-- How a chain of pages ends. -/
inductive Ending where
  | complete
  /-- The parameters of a request are refused before the client gets it. -/
  | refused (f : Failure)
  /-- The client fails, or its response cannot be read. -/
  | failed (f : Failure)

namespace Ending

def failure : Ending → Option Failure
  | complete => none
  | refused f | failed f => some f

/-- The requests behind those for the pages. -/
def requests : Ending → Nat
  | complete | refused _ => 0
  | failed _ => 1

end Ending

namespace Cursor

variable {c base : Cursor} {s : Schema} {client : Client} {start : Option Entries} {page : Page}
  {pages : List Page} {ending : Ending} {response : Value} {key : Entries} {h h₁ h' : Handle}

/-- What the client receives when the page behind a key is asked for. -/
def callFrom (c : Cursor) (start : Option Entries) : String × Entries :=
  (c.mode.operation, c.request start)

/-- The client serves a page behind a key: its response gives the items, their number, and the key
of the next page. -/
structure Serves (c : Cursor) (s : Schema) (client : Client) (start : Option Entries)
    (page : Page) :
    Prop where
  names : checkNames (c.request start) = .ok ()
  answer : (client.answer c.mode.operation (c.request start)).1 = .ok page.response
  read : ∃ items, itemsOf s page.response = .ok items ∧ page.items = items.filterMap id ∧
    countOf page.response items.length = .ok page.count
  key : nextKey page.response = .ok page.continuationKey
  hasMore : page.hasMore = page.continuationKey.isSome

/-- The pages that a client serves one after the other, the first of them behind a key or at the
start, and how they end. -/
inductive Chain (c : Cursor) (s : Schema) :
    Client → Option Entries → List Page → Ending → Prop where
  | last {client : Client} {start : Option Entries} {page : Page}
      (serves : c.Serves s client start page) (key_eq : page.continuationKey = none) :
      Chain c s client start [page] .complete
  | more {client : Client} {start : Option Entries} {page : Page} {key : Entries}
      {pages : List Page} {ending : Ending} (serves : c.Serves s client start page)
      (key_eq : page.continuationKey = some key)
      (chain : Chain c s (client.after [c.callFrom start]) (some key) pages ending) :
      Chain c s client start (page :: pages) ending
  | refused {client : Client} {start : Option Entries} {f : Failure}
      (names : checkNames (c.request start) = .error f) : Chain c s client start [] (.refused f)
  | failed {client : Client} {start : Option Entries} {f : Failure}
      (names : checkNames (c.request start) = .ok ())
      (fails : ((client.answer c.mode.operation (c.request start)).1 >>= c.take s >>=
        Fetched.page) = .error f) : Chain c s client start [] (.failed f)

theorem Serves.take (hserves : c.Serves s client start page) :
    c.take s page.response = .ok ⟨c.moved page.continuationKey, .ok page⟩ := by
  obtain ⟨records, hasMore, count, key?, response⟩ := page
  obtain ⟨-, -, ⟨items, hitems, hrecords, hcount⟩, hkey, hmore⟩ := hserves
  dsimp only at hitems hrecords hcount hkey hmore
  subst hrecords hmore
  refine take_eq_ok_iff.mpr ⟨items, key?, hitems, hkey, ?_⟩
  rw [pageOf_eq_ok_iff.mpr ⟨count, hcount, rfl⟩]

/-- A page that is taken from a response is served by it. -/
theorem serves_of_take {f : Fetched} (hnames : checkNames (c.request start) = .ok ())
    (hanswer : (client.answer c.mode.operation (c.request start)).1 = .ok response)
    (htake : c.take s response = .ok f) (hpage : f.page = .ok page) :
    c.Serves s client start page := by
  obtain ⟨items, key?, hitems, hkey, rfl⟩ := take_eq_ok_iff.mp htake
  obtain ⟨count, hcount, rfl⟩ := pageOf_eq_ok_iff.mp hpage
  exact ⟨hnames, hanswer, ⟨items, hitems, rfl, hcount⟩, hkey, rfl⟩

/-- A response takes an expectation from the script. -/
theorem Serves.script (hserves : c.Serves s client start page) :
    (client.after [c.callFrom start]).script.length < client.script.length := by
  have hanswer := hserves.answer
  show (client.answer c.mode.operation (c.request start)).2.script.length < _
  unfold Client.answer at hanswer ⊢
  cases hscript : client.script with
  | nil =>
    rw [hscript] at hanswer
    cases hanswer
  | cons e script => exact Nat.lt_succ_self _

theorem Chain.length_le (hchain : c.Chain s client start pages ending) :
    pages.length ≤ client.script.length := by
  induction hchain with
  | last serves key => exact Nat.lt_of_le_of_lt (Nat.zero_le _) serves.script
  | more serves key chain ih => exact Nat.lt_of_le_of_lt ih serves.script
  | refused names => exact Nat.zero_le _
  | failed names fails => exact Nat.zero_le _

/-- Whatever a client does, it serves a chain. -/
theorem exists_chain (c : Cursor) (s : Schema) (client : Client) (start : Option Entries) :
    ∃ pages ending, c.Chain s client start pages ending := by
  induction hn : client.script.length using Nat.strongRecOn generalizing client start with
  | ind n ih =>
  cases hnames : checkNames (c.request start) with
  | error f => exact ⟨[], .refused f, .refused hnames⟩
  | ok u =>
  cases hpage : ((client.answer c.mode.operation (c.request start)).1 >>= c.take s >>=
      Fetched.page) with
  | error f => exact ⟨[], .failed f, .failed hnames hpage⟩
  | ok page =>
  obtain ⟨f, htake, hpage⟩ := Outcome.bind_eq_ok.mp hpage
  obtain ⟨response, hanswer, htake⟩ := Outcome.bind_eq_ok.mp htake
  have hserves : c.Serves s client start page := serves_of_take hnames hanswer htake hpage
  cases hkey : page.continuationKey with
  | none => exact ⟨[page], .complete, .last hserves hkey⟩
  | some key =>
    obtain ⟨pages, ending, hchain⟩ := ih _ (hn ▸ hserves.script) _ (some key) rfl
    exact ⟨page :: pages, ending, .more hserves hkey hchain⟩

/-! ## Keys of chains -/

theorem putEntry_ne_nil {entries entries' : Entries} {e : Value × Value}
    (hput : Value.putEntry entries e = .ok entries') : entries' ≠ [] := by
  unfold Value.putEntry at hput
  split at hput
  · cases hput
    cases entries with
    | nil => exact List.cons_ne_nil _ _
    | cons e' entries =>
      unfold OrderedMap.put
      split <;> exact List.cons_ne_nil _ _
  · cases hput

theorem foldlM_putEntry_ne_nil {items : List Value} {entries entries' : Entries}
    (hne : items ≠ [] ∨ entries ≠ [])
    (hfold : items.foldlM (fun entries item => do Value.putEntry entries (← item.entry)) entries =
      .ok entries') : entries' ≠ [] := by
  induction items generalizing entries with
  | nil =>
    cases hfold
    exact hne.resolve_left (absurd rfl)
  | cons item items ih =>
    rw [List.foldlM_cons] at hfold
    obtain ⟨entries₁, hput, hfold⟩ := Outcome.bind_eq_ok.mp hfold
    obtain ⟨e, -, hput⟩ := Outcome.bind_eq_ok.mp hput
    exact ih (.inr (putEntry_ne_nil hput)) hfold

theorem iterate_ne_nil {v : Value} {items : List Value} (htruthy : v.truthy = true)
    (hiterate : v.iterate = .ok items) : items ≠ [] := by
  cases v with
  | text content =>
    cases hiterate
    have hpoints : content.points ≠ [] :=
      mt Spelling.points_eq_nil_iff.mp (by simpa [Value.truthy] using htruthy)
    simpa [Spelling.letters] using hpoints
  | bytes changeable content =>
    cases hiterate
    simpa [Value.truthy] using htruthy
  | list items | tuple items | set frozen items | map entries =>
    cases hiterate
    simpa [Value.truthy] using htruthy
  | _ => cases hiterate

/-- A response never gives an empty key. -/
theorem nextKey_ne_nil (hkey : nextKey response = .ok (some key)) : key ≠ [] := by
  obtain ⟨last, -, hkey⟩ := Outcome.bind_eq_ok.mp hkey
  generalize last.getD .null = v at hkey
  dsimp only at hkey
  split at hkey
  next htruthy =>
    obtain ⟨entries, hmap, hkey⟩ := Outcome.bind_eq_ok.mp hkey
    cases hkey
    unfold Value.asMap at hmap
    split at hmap
    · cases hmap
      simpa [Value.truthy] using htruthy
    · obtain ⟨items, hitems, hfold⟩ := Outcome.bind_eq_ok.mp hmap
      exact foldlM_putEntry_ne_nil (.inl (iterate_ne_nil htruthy hitems)) hfold
  next => cases hkey

/-- The keys behind which the pages of a chain begin, and the last key if the chain is broken. -/
def starts (start : Option Entries) (pages : List Page) : List (Option Entries) :=
  start :: pages.map (·.continuationKey)

theorem Chain.start_ne (hchain : c.Chain s client start pages ending) (hstart : start ≠ some [])
    {start' : Option Entries} (hmem : start' ∈ starts start pages) : start' ≠ some [] := by
  induction hchain with
  | last serves key =>
    rw [starts, List.map_singleton, key] at hmem
    rcases List.mem_cons.mp hmem with rfl | hmem
    · exact hstart
    · exact List.mem_singleton.mp hmem ▸ nofun
  | more serves key chain ih =>
    rw [starts, List.map_cons, key] at hmem
    rcases List.mem_cons.mp hmem with rfl | hmem
    · exact hstart
    · have hne := nextKey_ne_nil (serves.key.trans (congrArg _ key))
      exact ih (fun h => hne (Option.some.inj h)) hmem
  | refused | failed => exact List.mem_singleton.mp hmem ▸ hstart

/-! ## Streaming -/

/-- The number of requests by which the pages of a chain are asked for, if some items are wanted. -/
def asked (ending : Ending) : (wanted : Nat) → List Page → Nat
  | 0, _ => 0
  | _ + 1, [] => ending.requests
  | wanted + 1, page :: pages => asked ending (wanted + 1 - page.items.length) pages + 1

theorem asked_complete_nil (wanted : Nat) : asked .complete wanted [] = 0 := by
  cases wanted <;> rfl

/-- The items of a chain. -/
def itemsOfAll (pages : List Page) : List Value :=
  pages.flatMap (·.items)

/-- All pages are asked for if more items are wanted than there are. -/
theorem asked_of_lt {wanted : Nat} (hwanted : (itemsOfAll pages).length < wanted) :
    asked ending wanted pages = pages.length + ending.requests := by
  induction pages generalizing wanted with
  | nil =>
    cases wanted with
    | zero => cases hwanted
    | succ wanted => exact (Nat.zero_add _).symm
  | cons page pages ih =>
    cases wanted with
    | zero => cases hwanted
    | succ wanted =>
      rw [itemsOfAll, List.flatMap_cons, List.length_append] at hwanted
      rw [asked, ih (Nat.lt_sub_of_add_lt (Nat.add_comm _ _ ▸ hwanted)), List.length_cons]
      omega

/-- What came of a stream over a chain of which some items are wanted: the first of its items, the
failure that breaks it if more are wanted than it has, and a request for each page. -/
structure Streams (c : Cursor) (start : Option Entries) (pages : List Page) (ending : Ending)
    (wanted : Nat) (before : List (String × Entries)) (x : Streamed × Handle) : Prop where
  items : x.1.items = (itemsOfAll pages).take wanted
  failure : x.1.failure = if (itemsOfAll pages).length < wanted then ending.failure else none
  calls : x.2.calls =
    before ++ ((starts start pages).take (asked ending wanted pages)).map c.callFrom

namespace Streams

variable {wanted : Nat} {before : List (String × Entries)} {x : Streamed × Handle}

theorem zero (before : List (String × Entries)) (hx : x.2.calls = before)
    (hitems : x.1.items = []) (hfailure : x.1.failure = none) :
    c.Streams start pages ending 0 before x := by
  refine ⟨hitems, hfailure, ?_⟩
  rw [hx, asked, List.take_zero, List.map_nil, List.append_nil]

/-- A page comes before the rest of its chain. -/
theorem more (hkey : page.continuationKey = some key)
    (hx : c.Streams (some key) pages ending (wanted + 1 - page.items.length)
      (before ++ [c.callFrom start]) x) :
    c.Streams start (page :: pages) ending (wanted + 1) before
      ({ x.1 with items := page.items.take (wanted + 1) ++ x.1.items }, x.2) := by
  obtain ⟨hitems, hfailure, hcalls⟩ := hx
  have hall : itemsOfAll (page :: pages) = page.items ++ itemsOfAll pages := List.flatMap_cons ..
  constructor
  · rw [hall, List.take_append, ← hitems]
  · show x.1.failure = _
    have hlt : (itemsOfAll (page :: pages)).length < wanted + 1 ↔
        (itemsOfAll pages).length < wanted + 1 - page.items.length := by
      rw [hall, List.length_append]
      omega
    rw [hfailure]
    simp only [hlt]
  · show x.2.calls = _
    rw [hcalls, asked, starts, starts, List.map_cons, hkey, List.take_succ_cons, List.map_cons,
      List.append_assoc]
    rfl

end Streams

theorem streamPages_zero (fuel : Nat) (first : Bool) (c : Cursor) (h : Handle) :
    streamPages fuel 0 first c h = (⟨[], c, none⟩, h) := by
  cases fuel <;> rfl

section

variable {fuel wanted : Nat} {first : Bool} {c' : Cursor}

theorem streamPages_of_error {o : Outcome Fetched} {f : Failure}
    (hfetch : (if first then c.execute else c.fetchNext).run.run h = (o, h'))
    (hfails : o >>= Fetched.page = .error f) :
    ∃ c', streamPages (fuel + 1) (wanted + 1) first c h = (⟨[], c', some f⟩, h') := by
  rw [streamPages, if_neg (Nat.succ_ne_zero wanted), hfetch]
  obtain f' | ⟨c', f' | page⟩ := o
  · cases hfails
    exact ⟨c, rfl⟩
  · cases hfails
    exact ⟨c', rfl⟩
  · cases hfails

theorem streamPages_of_last
    (hfetch : (if first then c.execute else c.fetchNext).run.run h = (.ok ⟨c', .ok page⟩, h'))
    (hmore : page.hasMore = false) :
    streamPages (fuel + 1) (wanted + 1) first c h =
      (⟨page.items.take (wanted + 1), c', none⟩, h') := by
  rw [streamPages, if_neg (Nat.succ_ne_zero wanted), hfetch]
  dsimp only
  rw [hmore, if_neg Bool.false_ne_true]

theorem streamPages_of_more
    (hfetch : (if first then c.execute else c.fetchNext).run.run h = (.ok ⟨c', .ok page⟩, h'))
    (hmore : page.hasMore = true) :
    streamPages (fuel + 1) (wanted + 1) first c h =
      ({ (streamPages fuel (wanted + 1 - page.items.length) false c' h').1 with
          items := page.items.take (wanted + 1) ++
            (streamPages fuel (wanted + 1 - page.items.length) false c' h').1.items },
        (streamPages fuel (wanted + 1 - page.items.length) false c' h').2) := by
  have hleft : wanted + 1 - (page.items.take (wanted + 1)).length =
      wanted + 1 - page.items.length := by
    rw [List.length_take]
    omega
  rw [streamPages, if_neg (Nat.succ_ne_zero wanted), hfetch]
  dsimp only
  rw [hmore, if_pos rfl, hleft]

end

/-- The page that a client serves is fetched once the gate is passed. -/
theorem Serves.fetch {v : Value} (hserves : base.Serves s client start page)
    (hgate : Handle.ensureReady.run.run h = (.ok v, h₁)) (hschema : h₁.table.schema = s)
    (hclient : h₁.scene.environ = client) : (base.fetch start).run.run h =
      (.ok ⟨base.moved page.continuationKey, .ok page⟩, h₁.called (base.callFrom start)) := by
  rw [run_fetch base start hgate, hserves.names]
  dsimp only
  rw [hclient, hserves.answer, hschema]
  exact congrArg (·, _) hserves.take

/-- What comes of a stream over a chain, if its fuel is more than there are pages. -/
theorem Chain.streams (hchain : base.Chain s client start pages ending) {fuel wanted : Nat}
    {first : Bool} {v : Value} (hfuel : pages.length ≤ fuel)
    (hfirst : (if first then c.execute else c.fetchNext).run.run h = (base.fetch start).run.run h)
    (hgate : Handle.ensureReady.run.run h = (.ok v, h₁)) (hopen : h₁.Open)
    (hschema : h₁.table.schema = s) (hclient : h₁.scene.environ = client) :
    base.Streams start pages ending (wanted + 1) h₁.calls
      (streamPages (fuel + 1) (wanted + 1) first c h) := by
  induction hchain generalizing fuel wanted first c h h₁ v with
  | last serves key_eq =>
    have hrun := hfirst.trans (serves.fetch hgate hschema hclient)
    rw [streamPages_of_last hrun (by rw [serves.hasMore, key_eq]; rfl)]
    refine ⟨?_, (ite_self none).symm, ?_⟩
    · rw [itemsOfAll, List.flatMap_singleton]
    · rw [Handle.calls_called, asked, asked_complete_nil]
      rfl
  | @more client start page key pages ending serves key_eq chain ih =>
    obtain _ | fuel := fuel
    · cases hfuel
    have hrun := hfirst.trans (serves.fetch hgate hschema hclient)
    rw [streamPages_of_more hrun (by rw [serves.hasMore, key_eq]; rfl)]
    refine .more key_eq ?_
    rw [← Handle.calls_called]
    rcases wanted + 1 - page.items.length with _ | wanted
    · rw [streamPages_zero]
      exact .zero _ rfl rfl rfl
    -- the gate is open from now on, and the cursor is behind the key
    have hopen' : (h₁.called (base.callFrom start)).Open := hopen
    obtain ⟨v', hgate'⟩ := hopen'.ensureReady
    refine ih (Nat.le_of_succ_le_succ hfuel) ?_ hgate' hopen' hschema ?_
    · rw [key_eq]
      rfl
    · rw [← hclient]
      rfl
  | @refused client start f names =>
    have hrun := run_fetch base start hgate
    rw [names] at hrun
    obtain ⟨c', hstream⟩ := streamPages_of_error (hfirst.trans hrun) rfl
    rw [hstream]
    exact ⟨rfl, rfl, (List.append_nil _).symm⟩
  | @failed client start f names fails =>
    have hrun := run_fetch base start hgate
    rw [names, hclient, hschema] at hrun
    obtain ⟨c', hstream⟩ := streamPages_of_error (hfirst.trans hrun) fails
    rw [hstream]
    exact ⟨rfl, rfl, h₁.calls_called _⟩

theorem stream_succ (c : Cursor) (wanted : Nat) (h : Handle) : c.stream (wanted + 1) h =
    streamPages (h.scene.environ.script.length + 1 + 1) (wanted + 1) true c h :=
  rfl

/-- **Streams neither lose nor repeat items.** A cursor over a query, wherever it was, streams. If
the gate is closed its error breaks the stream off. Else let the client serve a chain of pages from
the start. The stream gives the items of all pages, and what broke the chain off, if anything did;
each page is asked for once, the first without a key and each other one behind the key of the page
before. If no more items are wanted than there are, the stream gives the first of them, and asks for
no page that is not needed. -/
theorem stream_chain {t : Table} {fresh : Bool} (hs : h.Stands t fresh) {params : Entries}
    {p : Position} (hc : c.At .query params p) (hparams : params.find? startName = none) :
    c.checkStreams = .ok () ∧
      ∃ r h₁ checks, Handle.ensureReady.run.run h = (r, h₁) ∧ h₁.calls = h.calls ++ checks ∧
        Handle.ChecksOf fresh checks ∧
        (∀ f wanted, r = .error f → wanted ≠ 0 →
          ∃ c', c.stream wanted h = (⟨[], c', some f⟩, h₁)) ∧
        ∀ v pages ending, r = .ok v → c.Chain t.schema h₁.scene.environ none pages ending →
          (∀ start ∈ starts none pages, (c.request start).find? startName = start.map .map) ∧
          (∀ wanted, (itemsOfAll pages).length < wanted →
            (c.stream wanted h).1.items = itemsOfAll pages ∧
            (c.stream wanted h).1.failure = ending.failure ∧
            (c.stream wanted h).2.calls = h.calls ++ checks ++
              ((starts none pages).take (pages.length + ending.requests)).map c.callFrom) ∧
          ∀ wanted, wanted ≠ 0 → wanted ≤ (itemsOfAll pages).length →
            (c.stream wanted h).1.items = (itemsOfAll pages).take wanted ∧
            (c.stream wanted h).1.failure = none ∧
            (c.stream wanted h).2.calls = h.calls ++ checks ++
              ((starts none pages).take (asked ending wanted pages)).map c.callFrom := by
  obtain ⟨finding, h₁, checks, hready, htable, hrests, hcalls, hchecks⟩ := hs.ensureReady
  refine ⟨by rw [checkStreams, hc.mode], _, h₁, checks, hready, hcalls, hchecks, ?_, ?_⟩
  · intro f wanted hr hwanted
    obtain ⟨wanted, rfl⟩ := Nat.exists_eq_succ_of_ne_zero hwanted
    rw [hr] at hready
    have hrun : c.execute.run.run h = (.error f, h₁) := Session.run_bind_error hready
    rw [stream_succ]
    exact streamPages_of_error hrun rfl
  · intro v pages ending hr hchain
    have hopen : h₁.Open := by
      cases finding with
      | error f =>
        rw [Handle.passed_error] at hr
        cases hr
      | ok description => exact ⟨description, hrests⟩
    have hfuel : pages.length ≤ h.scene.environ.script.length + 1 := by
      have hreaches := Session.onlyCalls_gateAction (.ensureReady none true none none) h
      rw [show (Handle.gateAction _).run.run h = _ from hready] at hreaches
      exact Nat.le_succ_of_le (hchain.length_le.trans hreaches.script.length_le)
    rw [hr] at hready
    have hstreams : ∀ wanted, wanted ≠ 0 →
        c.Streams none pages ending wanted (h.calls ++ checks) (c.stream wanted h) := by
      intro wanted hwanted
      obtain ⟨wanted, rfl⟩ := Nat.exists_eq_succ_of_ne_zero hwanted
      rw [← hcalls, stream_succ]
      exact hchain.streams hfuel rfl hready hopen (congrArg _ htable) rfl
    refine ⟨fun start hstart => ?_, fun wanted hwanted => ?_, fun wanted hne hwanted => ?_⟩
    · exact hc.find?_request hparams (hchain.start_ne nofun hstart)
    · obtain ⟨hitems, hfailure, hcalls⟩ := hstreams wanted (Nat.ne_zero_of_lt hwanted)
      rw [hitems, hfailure, hcalls, asked_of_lt hwanted]
      exact ⟨List.take_of_length_le hwanted.le, if_pos hwanted, rfl⟩
    · obtain ⟨hitems, hfailure, hcalls⟩ := hstreams wanted hne
      exact ⟨hitems, hfailure.trans (if_neg (Nat.not_lt.mpr hwanted)), hcalls⟩

end Cursor

namespace Page

/-- A page without items, behind which there is more. -/
def hollow : Page where
  items := []
  hasMore := true
  count := 0
  continuationKey := some [(.text "id", .map [(.text "S", .text "a")])]
  response := .map [(.text "LastEvaluatedKey", .map [(.text "id", .map [(.text "S", .text "a")])])]

def final : Page where
  items := [.map [(.text "id", .text "b")]]
  hasMore := false
  count := 1
  continuationKey := none
  response := .map [(.text "Items", .list [.map [(.text "id", .map [(.text "S", .text "b")])]])]

end Page

/-- A handle whose client serves a page without items and the last page. -/
def Handle.queried : Handle where
  table := { Handle.twoPages.table with schema := .byId }
  scene :=
    { gate := Handle.twoPages.scene.gate
      environ := { script := [Client.activeTable (.text "orders"),
        { operation := "query", response := Page.hollow.response },
        { operation := "query", response := Page.final.response }] } }

def Cursor.querying : Cursor where
  mode := .query
  params := []

/-- The client of that handle once the table is described. -/
def Client.twoQueries (calls : List (String × Entries)) : Client where
  script := [{ operation := "query", response := Page.hollow.response },
    { operation := "query", response := Page.final.response }]
  calls

theorem Cursor.chain_twoQueries (calls : List (String × Entries)) :
    querying.Chain .byId (.twoQueries calls) none [.hollow, .final] .complete := by
  have hhollow : querying.Serves .byId (.twoQueries calls) none .hollow :=
    ⟨rfl, rfl, ⟨[], by with_unfolding_all rfl, rfl, by with_unfolding_all rfl⟩,
      by with_unfolding_all rfl, rfl⟩
  refine .more hhollow rfl (.last ?_ rfl)
  exact ⟨by rfl, rfl, ⟨[some (.map [(.text "id", .text "b")])], by with_unfolding_all rfl, rfl,
    by with_unfolding_all rfl⟩, by with_unfolding_all rfl, rfl⟩

theorem Cursor.stream_chain_queried :
    Handle.queried.Stands Handle.queried.table true ∧ querying.At .query [] .start ∧
      OrderedMap.find? ([] : Entries) startName = none ∧
      (querying.stream 10 .queried).1.items = [.map [(.text "id", .text "b")]] ∧
      (querying.stream 10 .queried).1.failure = none := by
  have hs : Handle.queried.Stands Handle.queried.table true :=
    ⟨rfl, none, ⟨rfl, rfl, rfl, rfl⟩, rfl⟩
  have hc : querying.At .query [] .start := ⟨rfl, rfl, .nil, rfl, rfl⟩
  have hparams : OrderedMap.find? ([] : Entries) startName = none := rfl
  obtain ⟨-, r, h₁, checks, hready, -, -, -, hopen⟩ := stream_chain hs hc hparams
  obtain ⟨v, rfl⟩ : ∃ v, r = .ok v := by
    have hok : (Handle.ensureReady.run.run .queried).1.isOk = true := by decide +kernel
    rw [hready] at hok
    exact Outcome.exists_of_isOk hok
  have hclient : h₁.scene.environ = .twoQueries h₁.calls := by
    have hscript : (Handle.ensureReady.run.run .queried).2.scene.environ.script =
      (Client.twoQueries []).script := by with_unfolding_all rfl
    rw [hready] at hscript
    exact congrArg (Client.mk · _) hscript
  obtain ⟨-, hall, -⟩ := hopen v _ _ rfl (hclient ▸ chain_twoQueries _)
  obtain ⟨hitems, hfailure, -⟩ := hall 10 (by decide)
  exact ⟨hs, hc, hparams, hitems, hfailure⟩

end DocTable
