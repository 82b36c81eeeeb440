import DocTable.Proofs.Table.Answers
import DocTable.Proofs.Table.Positions

/-! Handing a reading over by tokens. Pages are read one after the other; behind a page the reading
can go on with the cursor, or with a new one that resumes from its token. A client that answers as a
store does cannot tell one from the other: it gets equal requests, and gives the same pages. -/

namespace DocTable

open Entries

/-! ## Reading -/

namespace Cursor

/-- A new cursor for the same request, behind what another one has read: it resumes from the token
of the other. -/
def handOver (base c : Cursor) : Outcome Cursor := do
  match ← c.token with
  | some token => base.resume (.text token)
  | none => base.resume .null

open Session

variable {base : Cursor} {handsOver : Nat → Bool}

end Cursor

/-! ## Open handles -/

namespace Handle

variable {h h' : Handle} {operation : String}

/-- Whether the gate of a handle is open. -/
def Open (h : Handle) : Prop :=
  ∃ description, h.scene.gate.Rests (some (.ok description))

theorem Open.ensureReady (hopen : h.Open) : ∃ v, Handle.ensureReady.run.run h = (.ok v, h) := by
  obtain ⟨description, hrests⟩ := hopen
  exact ⟨_, run_gateAction (h.scene.perform_known h.table.environ hrests)⟩

/-- Two open handles of one table whose clients have received equal requests. -/
structure Alike (h h' : Handle) : Prop where
  table : h'.table = h.table
  opened : h.Open
  opened' : h'.Open
  calls : AlikeCalls h.calls h'.calls

theorem Alike.called (hh : h.Alike h') {request request' : Entries}
    (hrequest : Entries.Alike request request') :
    (h.called (operation, request)).Alike (h'.called (operation, request')) where
  table := hh.table
  opened := hh.opened
  opened' := hh.opened'
  calls := by
    rw [calls_called, calls_called]
    exact List.rel_append hh.calls (.cons ⟨rfl, hrequest⟩ .nil)

end Handle

namespace Cursor

open Session

variable {s : Store} {base c : Cursor} {start : Option Entries} {key key' : Entries}
  {h h₁ h' : Handle} {handsOver : Nat → Bool}

/-! ## Fetching -/

/-- A cursor with the same request behind a key. -/
def behind (base : Cursor) (key : Entries) : Cursor :=
  { base with continuationKey := some key, hasMore := true }

end Cursor

namespace Store

def firstPage : Entries :=
  [(.text "Count", .int 3), (.text "LastEvaluatedKey", KeyToken.nestedKey)]

def lastPage : Entries :=
  [(.text "Count", .int 1)]

/-- A store whose first page ends behind a key with a map inside and changeable bytes. -/
def twoPages : Store where
  respond request :=
    .ok (if request.keys.any (·.same (.text "ExclusiveStartKey")) then lastPage else firstPage)
  alike h := by rw [h.keys_eq]
  native := by
    intro request response v hresponse hlast _
    cases hresponse
    split at hlast
    · simp [lastPage, OrderedMap.find?, Value.text_beq_text] at hlast
    · have hkey : v = KeyToken.nestedKey := by
        simpa [firstPage, OrderedMap.find?, Value.text_beq_text, eq_comm] using hlast
      refine ⟨_, hkey, ⟨named_keyed.mpr (by decide), ?_⟩, KeyToken.plain_nestedKey⟩
      refine List.forall_mem_cons.mpr ⟨.text "é", List.forall_mem_singleton.mpr ?_⟩
      refine .map (named_keyed.mpr (by decide)) ?_
      exact List.forall_mem_cons.mpr ⟨.bytes true _, List.forall_mem_singleton.mpr (.number "1")⟩

end Store

def Cursor.scanning : Cursor where
  mode := .scan
  params := []

end DocTable
