import DocTable.Proofs.Outcome
import DocTable.Proofs.Value.Names
import DocTable.Table.Cursor

/-! Requests for data: the parameters that the caller gives, overlaid by what the operation
computes. All names in a request are texts, so it can be read name by name. -/

namespace DocTable

theorem Params.find?_entries (params : Params) (name : String) :
    params.entries.find? (.text name) = params.find? name := by
  induction params with
  | nil => rfl
  | cons e params ih =>
    by_cases h : e.1 = name <;>
      simp_all [Params.entries, OrderedMap.find?, Value.beq_text]

/-! ## Overlaid parameters -/

/-- A request that consists of parameters, overlaid by one entry and then by entries under some
other names. -/
structure Overlaid (params : Params) (entry : String × Value) (names : List String)
    (request : Entries) : Prop where
  rest : ∃ rest, request = params.entries.overlay ((.text entry.1, entry.2) :: rest) ∧
    Entries.NamedIn names rest
  other : entry.1 ∉ names

namespace Overlaid

variable {params : Params} {entry : String × Value} {names : List String} {request : Entries}

/-- The entry is in the request, whatever the caller gives under its name. -/
theorem find?_entry (h : Overlaid params entry names request) :
    request.find? (.text entry.1) = some entry.2 := by
  obtain ⟨rest, rfl, hrest⟩ := h.rest
  rw [OrderedMap.overlay_cons, hrest.find?_overlay h.other, Entries.find?_put_self]

/-- What the caller gives under any other name is in the request as it is. -/
theorem find?_param (h : Overlaid params entry names request) {name : String}
    (hname : name ∉ entry.1 :: names) : request.find? (.text name) = params.find? name := by
  obtain ⟨rest, rfl, hrest⟩ := h.rest
  obtain ⟨hne, hnames⟩ := List.ne_and_not_mem_of_not_mem_cons hname
  rw [OrderedMap.overlay_cons, hrest.find?_overlay hnames, Entries.find?_put_of_ne hne.symm,
    params.find?_entries]

theorem mono (h : Overlaid params entry names request) {names' : List String}
    (hnames : names ⊆ names') (hother : entry.1 ∉ names') :
    Overlaid params entry names' request := by
  obtain ⟨rest, rfl, hrest⟩ := h.rest
  exact ⟨⟨rest, rfl, hrest.mono hnames⟩, hother⟩

theorem overlay (h : Overlaid params entry names request) {options : Entries}
    (hoptions : Entries.NamedIn names options) :
    Overlaid params entry names (request.overlay options) := by
  obtain ⟨rest, rfl, hrest⟩ := h.rest
  refine ⟨⟨rest ++ options, ?_, hrest.append hoptions⟩, h.other⟩
  rw [← Entries.overlay_append, List.cons_append]

theorem put (h : Overlaid params entry names request) {name : String} (hname : name ∈ names)
    (v : Value) : Overlaid params entry names (request.put (.text name) v) :=
  h.overlay (.cons hname .nil)

theorem checkNames (h : Overlaid params entry names request) :
    Cursor.checkNames request = .ok () := by
  obtain ⟨rest, rfl, hrest⟩ := h.rest
  refine if_pos (List.all_eq_true.mpr fun e he => ?_)
  rcases Entries.mem_overlay he with ⟨e', he', heq⟩ | ⟨e', he', heq⟩
  · rcases List.mem_cons.mp he' with rfl | hmem
    · simp [← heq, Value.isText]
    · obtain ⟨name, -, htext⟩ := hrest e' hmem
      simp [← heq, htext, Value.isText]
  · obtain ⟨param, -, rfl⟩ := List.mem_map.mp he'
    simp [← heq, Value.isText]

end Overlaid

/-! ## Requests of tables -/

namespace Table

variable {t : Table} {params : Params} {names : List String} {request request' computed : Entries}

/-- The entry by which a request names the table. -/
def nameEntry (t : Table) : String × Value :=
  ("TableName", .text t.name)

theorem overlaid_request (hcomputed : Entries.NamedIn names computed)
    (hother : "TableName" ∉ names) :
    Overlaid params t.nameEntry names (t.request params computed) :=
  ⟨⟨computed, rfl, hcomputed⟩, hother⟩

theorem overlaid_consistent {entry : String × Value} (h : Overlaid params entry names request)
    (hname : "ConsistentRead" ∈ names) (wanted : Bool) :
    Overlaid params entry names (consistent request wanted) := by
  unfold consistent
  split
  · exact h.put hname _
  · exact h

theorem overlaid_withExpected {entry : String × Value} {expected : Value}
    (h : Overlaid params entry names request) (hname : "Expected" ∈ names)
    (hwith : t.withExpected request expected = .ok request') :
    Overlaid params entry names request' := by
  unfold withExpected at hwith
  split at hwith
  · exact Except.ok.inj hwith ▸ h
  · split at hwith
    · cases hwith
    · obtain ⟨conditions, -, hput⟩ := Outcome.bind_eq_ok.mp hwith
      exact Except.ok.inj hput ▸ h.put hname _

variable {key item updates expected keys : Value}

theorem overlaid_getRequest (h : t.getRequest key params = .ok request) :
    Overlaid params t.nameEntry ["Key", "ConsistentRead"] request := by
  obtain ⟨item, -, hrequest⟩ := Outcome.bind_eq_ok.mp h
  exact Except.ok.inj hrequest ▸
    overlaid_consistent (overlaid_request (.cons (by simp) .nil) (by simp)) (by simp) _

theorem overlaid_putRequest (h : t.putRequest item expected params = .ok request) :
    Overlaid params t.nameEntry ["Item", "Expected"] request := by
  obtain ⟨item, -, h⟩ := Outcome.bind_eq_ok.mp (Outcome.of_not_refused h)
  exact overlaid_withExpected (overlaid_request (.cons (by simp) .nil) (by simp)) (by simp) h

theorem overlaid_deleteRequest (h : t.deleteRequest key expected params = .ok request) :
    Overlaid params t.nameEntry ["Key", "Expected"] request := by
  obtain ⟨item, -, h⟩ := Outcome.bind_eq_ok.mp h
  exact overlaid_withExpected (overlaid_request (.cons (by simp) .nil) (by simp)) (by simp) h

theorem overlaid_updateItemRequest
    (h : t.updateItemRequest key updates expected params = .ok request) :
    Overlaid params t.nameEntry ["Key", "AttributeUpdates", "Expected"] request := by
  obtain ⟨item, -, h⟩ := Outcome.bind_eq_ok.mp (Outcome.of_not_refused h)
  obtain ⟨updates, -, h⟩ := Outcome.bind_eq_ok.mp h
  exact overlaid_withExpected
    (overlaid_request (.cons (by simp) (.cons (by simp) .nil)) (by simp)) (by simp) h

/-- A batch names the table in the only entry of what it asks for. -/
theorem overlaid_batchRequest {consistentRead : Value}
    (h : t.batchRequest keys consistentRead params = .ok request) :
    ∃ wanted, Overlaid params ("RequestItems", .map [(.text t.name, wanted)]) [] request := by
  obtain ⟨values, -, h⟩ := Outcome.bind_eq_ok.mp h
  obtain ⟨items, -, h⟩ := Outcome.bind_eq_ok.mp h
  exact ⟨_, ⟨[], (Except.ok.inj h).symm, .nil⟩, by simp⟩

theorem overlaid_queryRequest {conditions : Value}
    (h : t.queryRequest conditions params = .ok request) :
    Overlaid params t.nameEntry ["KeyConditions", "ConsistentRead"] request := by
  obtain ⟨conditions, -, h⟩ := Outcome.bind_eq_ok.mp (Outcome.of_not_refused h)
  exact Except.ok.inj h ▸
    overlaid_consistent (overlaid_request (.cons (by simp) .nil) (by simp)) (by simp) _

theorem overlaid_scanRequest {filter : Value} (h : t.scanRequest filter params = .ok request) :
    Overlaid params t.nameEntry ["ScanFilter"] request := by
  have hbase : Overlaid params t.nameEntry ["ScanFilter"] (t.request params []) :=
    overlaid_request .nil (by simp)
  unfold scanRequest at h
  dsimp only at h
  split at h
  · obtain ⟨conditions, -, h⟩ := Outcome.bind_eq_ok.mp h
    exact Except.ok.inj h ▸ hbase.put (by simp) _
  · exact Except.ok.inj h ▸ hbase

end Table

/-! ## Cursors -/

/-- The cursors that a table gives for some parameters, however they are shaped and wherever they
have moved. -/
inductive Cursor.Obtained (t : Table) (params : Params) : Cursor → Prop where
  | query {c : Cursor} {conditions : Value} (h : t.query conditions params = .ok c) :
    Obtained t params c
  | scan {c : Cursor} {filter : Value} (h : t.scan filter params = .ok c) : Obtained t params c
  | projected {c c' : Cursor} {fields : List Value} (hc : Obtained t params c)
      (h : c.withProjection t.schema fields = .ok c') : Obtained t params c'
  | limited {c c' : Cursor} {limit : Value} (hc : Obtained t params c)
      (h : c.withLimit limit = .ok c') : Obtained t params c'
  | metered {c : Cursor} (hc : Obtained t params c) (enabled : Value) :
    Obtained t params (c.withConsumedCapacity enabled)
  | counting {c : Cursor} (hc : Obtained t params c) : Obtained t params c.asCountOnly
  | resumed {c c' : Cursor} {token : Value} (hc : Obtained t params c)
      (h : c.resume token = .ok c') : Obtained t params c'
  | fetched {c : Cursor} {response : Value} {f : Fetched} (hc : Obtained t params c)
      (h : c.take t.schema response = .ok f) : Obtained t params f.cursor

namespace Cursor

/-- The names that a cursor can put into a request. -/
def fields (mode : CursorMode) : List String :=
  (match mode with
    | .query => ["KeyConditions", "ConsistentRead"]
    | .scan => ["ScanFilter"]) ++
    ["AttributesToGet", "Select", "Limit", "ReturnConsumedCapacity", "ExclusiveStartKey"]

/-- A cursor whose requests consist of the parameters, overlaid by what it can put into them. -/
structure Shaped (t : Table) (params : Params) (c : Cursor) : Prop where
  params : Overlaid params t.nameEntry (fields c.mode) c.params
  options : Entries.NamedIn (fields c.mode) c.options

namespace Shaped

variable {t : Table} {params : Params} {c : Cursor}

theorem moved (h : Shaped t params c) (key : Option Entries) (more : Bool) :
    Shaped t params { c with continuationKey := key, hasMore := more } :=
  ⟨h.params, h.options⟩

theorem setOption (h : Shaped t params c) {name : String} (hname : name ∈ fields c.mode)
    (v : Value) : Shaped t params (c.setOption name v) :=
  ⟨h.params, h.options.put hname⟩

theorem dropOption (h : Shaped t params c) (name : String) :
    Shaped t params (c.dropOption name) :=
  ⟨h.params, h.options.erase _⟩

theorem counting (h : Shaped t params c) : Shaped t params { c with countOnly := true } :=
  ⟨h.params, h.options⟩

theorem request (h : Shaped t params c) (start : Option Entries) :
    Overlaid params t.nameEntry (fields c.mode) (c.request start) := by
  have hshaped := h.params.overlay h.options
  unfold Cursor.request
  split
  · exact hshaped
  · exact hshaped
  · exact hshaped.put (by simp [fields]) _

end Shaped

theorem Obtained.shaped {t : Table} {params : Params} {c : Cursor} (h : Obtained t params c) :
    Shaped t params c := by
  induction h with
  | query h =>
    obtain ⟨request, hrequest, h⟩ := Outcome.bind_eq_ok.mp h
    cases h
    exact ⟨(Table.overlaid_queryRequest hrequest).mono (by simp [fields])
      (by simp [fields, Table.nameEntry]), .nil⟩
  | scan h =>
    obtain ⟨request, hrequest, h⟩ := Outcome.bind_eq_ok.mp h
    cases h
    exact ⟨(Table.overlaid_scanRequest hrequest).mono (by simp [fields])
      (by simp [fields, Table.nameEntry]), .nil⟩
  | projected hc h ih =>
    have h := Outcome.of_not_refused h
    split at h
    · exact Except.ok.inj h ▸ (ih.dropOption _).setOption (by simp [fields]) _
    · obtain ⟨names, -, h⟩ := Outcome.bind_eq_ok.mp h
      exact Except.ok.inj h ▸ (ih.setOption (by simp [fields]) _).setOption (by simp [fields]) _
  | limited hc h ih =>
    unfold withLimit at h
    split at h
    · split at h
      · exact Except.ok.inj h ▸ ih.setOption (by simp [fields]) _
      · cases h
    · cases h
  | metered hc enabled ih => exact ih.setOption (by simp [fields]) _
  | counting hc ih => exact (ih.counting.dropOption _).setOption (by simp [fields]) _
  | resumed hc h ih =>
    unfold resume at h
    split at h
    · exact Except.ok.inj h ▸ ih.moved _ _
    · cases h
  | fetched hc h ih =>
    obtain ⟨items, -, h⟩ := Outcome.bind_eq_ok.mp h
    obtain ⟨key, -, h⟩ := Outcome.bind_eq_ok.mp h
    cases h
    exact ih.moved _ _

end Cursor

end DocTable
