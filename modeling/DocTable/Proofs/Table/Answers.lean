import DocTable.Proofs.Table.Scripts
import DocTable.Proofs.Token.Native

/-! Clients that answer as a store does. What a store answers is a function of the request, and
equal requests get one answer, so that it does not matter to a store which of two equal keys a
request goes on behind. A client answers as a store does if each of its calls is answered so. -/

namespace DocTable

/-! ## Equal requests -/

/-- Whether two values are the same or at least equal. -/
def Value.Alike (v v' : Value) : Prop :=
  v = v' ∨ v.same v' = true

namespace Entries

variable {entries entries' : Entries}

/-- Whether two maps have the same keys in one order, with the same or equal values. -/
def Alike (entries entries' : Entries) : Prop :=
  List.Forall₂ (fun e e' => e.1 = e'.1 ∧ e.2.Alike e'.2) entries entries'

theorem Alike.refl (entries : Entries) : Alike entries entries :=
  List.forall₂_same.mpr fun _ _ => ⟨rfl, .inl rfl⟩

theorem Alike.put (h : Alike entries entries') (k : Value) {v v' : Value} (hv : v.Alike v') :
    Alike (entries.put k v) (entries'.put k v') := by
  induction h with
  | nil => exact .cons ⟨rfl, hv⟩ .nil
  | @cons e e' entries entries' he hrest ih =>
    obtain ⟨k₀, v₀⟩ := e
    obtain ⟨k₀', v₀'⟩ := e'
    obtain ⟨rfl, hvalue⟩ := he
    rw [OrderedMap.put, OrderedMap.put]
    split
    · exact .cons ⟨rfl, hv⟩ hrest
    · exact .cons ⟨rfl, hvalue⟩ ih

theorem Alike.keys_eq (h : Alike entries entries') : entries.keys = entries'.keys := by
  induction h with
  | nil => rfl
  | cons he _ ih => exact congrArg₂ List.cons he.1 ih

theorem Alike.checkNames (h : Alike entries entries') :
    Cursor.checkNames entries = Cursor.checkNames entries' := by
  have hkeys : ∀ entries : Entries,
      entries.all (fun e => e.1.isText) = entries.keys.all Value.isText := by
    intro entries
    rw [OrderedMap.keys, List.all_map]
    rfl
  rw [Cursor.checkNames, Cursor.checkNames, hkeys, hkeys, h.keys_eq]

end Entries

open Entries

/-- Whether calls are of the same operations, with equal requests. -/
def AlikeCalls (calls calls' : List (String × Entries)) : Prop :=
  List.Forall₂ (fun call call' => call.1 = call'.1 ∧ Alike call.2 call'.2) calls calls'

theorem AlikeCalls.refl (calls : List (String × Entries)) : AlikeCalls calls calls :=
  List.forall₂_same.mpr fun _ _ => ⟨rfl, .refl _⟩

/-! ## Stores -/

/-- A store that answers equal requests alike. If a response says behind which key there is more,
the key is as the store gives keys. -/
structure Store where
  respond : Entries → Outcome Entries
  alike {request request' : Entries} : Alike request request' → respond request = respond request'
  native {request response : Entries} {v : Value} : respond request = .ok response →
    response.find? (.text "LastEvaluatedKey") = some v → v.truthy = true →
      ∃ key, v = .map key ∧ KeyToken.Native key

namespace Client

/-- Whether a client answers the calls of an operation, among some calls, as a store does. -/
def AnswersAs (s : Store) (operation : String) : Client → List (String × Entries) → Prop
  | _, [] => True
  | c, call :: calls =>
    (call.1 = operation → (c.answer call.1 call.2).1 = (s.respond call.2).map .map) ∧
      AnswersAs s operation (c.answer call.1 call.2).2 calls

theorem answersAs_append {s : Store} {operation : String} {c : Client}
    {calls calls' : List (String × Entries)} : c.AnswersAs s operation (calls ++ calls') ↔
      c.AnswersAs s operation calls ∧ (c.after calls).AnswersAs s operation calls' := by
  induction calls generalizing c with
  | nil => exact ⟨fun h => ⟨trivial, h⟩, fun h => h.2⟩
  | cons call calls ih =>
    rw [List.cons_append, AnswersAs, AnswersAs, ih, and_assoc]
    rfl

end Client

namespace Handle

variable {s : Store} {operation : String} {h h₁ h' : Handle}

/-- Whether the calls between two states of a handle were answered as a store does. -/
def AnsweredBy (s : Store) (operation : String) (h h' : Handle) : Prop :=
  ∃ made, h'.calls = h.calls ++ made ∧ h.scene.environ.AnswersAs s operation made

/-- What is done in two parts is answered in two parts. -/
theorem AnsweredBy.split (hanswered : h.AnsweredBy s operation h')
    (hfirst : h.scene.environ.Reaches h₁.scene.environ)
    (hrest : h₁.scene.environ.Reaches h'.scene.environ) :
    h.AnsweredBy s operation h₁ ∧ h₁.AnsweredBy s operation h' := by
  obtain ⟨made, hmade, hanswers⟩ := hanswered
  obtain ⟨first, hfirst⟩ := hfirst
  obtain ⟨rest, hrest⟩ := hrest
  have hcalls₁ : h₁.calls = h.calls ++ first := by
    rw [calls, hfirst, Client.calls_after]
    rfl
  have hcalls' : h'.calls = h₁.calls ++ rest := by
    rw [calls, hrest, Client.calls_after]
    rfl
  obtain rfl : made = first ++ rest := by
    rw [hcalls', hcalls₁, List.append_assoc] at hmade
    exact (List.append_cancel_left hmade).symm
  obtain ⟨hanswers₁, hanswers'⟩ := Client.answersAs_append.mp hanswers
  exact ⟨⟨first, hcalls₁, hanswers₁⟩, rest, hcalls', hfirst ▸ hanswers'⟩

theorem AnsweredBy.answer {request : Entries}
    (hanswered : h.AnsweredBy s operation (h.called (operation, request))) :
    (h.scene.environ.answer operation request).1 = (s.respond request).map .map := by
  obtain ⟨made, hmade, hanswers⟩ := hanswered
  rw [calls_called] at hmade
  obtain rfl := List.append_cancel_left hmade
  exact hanswers.1 rfl

end Handle

end DocTable
