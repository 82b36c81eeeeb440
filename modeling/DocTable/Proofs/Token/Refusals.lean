import DocTable.Proofs.Token.Forms
import DocTable.Proofs.Value.Shown

/-! What is no token is refused for its value: no stage of decoding fails for any other reason,
since all that is looked into are trees, whose names can be compared. What is decoded is never
empty. -/

namespace DocTable

open Outcome

namespace Failure

/-- Whether a failure blames a token: its text, the bytes in it, the tree that these spell, or an
attribute value. -/
def isMalformed : Failure → Bool
  | token _ | badText | badJson | badUtf8 | badBase64 => true
  | _ => false

theorem isBadValue_of_isMalformed {f : Failure} (h : f.isMalformed = true) :
    f.isBadValue = true := by
  cases f <;> first
    | exact absurd h Bool.false_ne_true
    | rfl

theorem kind_of_isMalformed {f : Failure} (h : f.isMalformed = true) :
    f.kind ∈ ["ValueError", "Error", "JSONDecodeError", "UnicodeDecodeError"] := by
  cases f <;> first
    | exact absurd h Bool.false_ne_true
    | simp [kind]

end Failure

/-- Whether a failure, if there is one, blames a token. -/
abbrev Blames {α : Type} (o : Outcome α) : Prop :=
  Fails (fun f => f.isMalformed = true) o

theorem Base64.blames_decode (a : Alphabet) (cs : List Char) : Blames (decode a cs) := by
  unfold decode
  repeat' split
  · exact fails_ok _
  all_goals exact fails_error.mpr rfl

namespace Json

theorem blames_readNumber (negative : Bool) (cs : List Char) : Blames (readNumber negative cs) := by
  unfold readNumber
  split
  · exact fails_error.mpr rfl
  · dsimp only
    repeat' split
    · exact fails_error.mpr rfl
    all_goals exact fails_ok _

mutual

theorem blames_readValue (fuel : Nat) (cs : List Char) : Blames (readValue fuel none cs) := by
  cases fuel with
  | zero => exact fails_error.mpr rfl
  | succ fuel =>
    rw [readValue.eq_def]
    simp only [deeper, ok_bind]
    repeat' split
    all_goals first
      | exact fails_ok _
      | exact fails_error.mpr rfl
      | exact blames_readNumber _ _
      | exact (blames_readItems fuel _).bind fun _ _ => fails_ok _
      | exact (blames_readMembers fuel _).bind fun _ _ => fails_ok _

theorem blames_readItems (fuel : Nat) (cs : List Char) : Blames (readItems fuel none cs) := by
  cases fuel with
  | zero => exact fails_error.mpr rfl
  | succ fuel =>
    rw [readItems]
    refine (blames_readValue fuel cs).bind fun r _ => ?_
    dsimp only
    split
    · exact fails_ok _
    · exact (blames_readItems fuel _).bind fun _ _ => fails_ok _
    · exact fails_error.mpr rfl

theorem blames_readMembers (fuel : Nat) (cs : List Char) : Blames (readMembers fuel none cs) := by
  cases fuel with
  | zero => exact fails_error.mpr rfl
  | succ fuel =>
    rw [readMembers.eq_def]
    dsimp only
    repeat' split
    all_goals try exact fails_error.mpr rfl
    -- what is left has a name and a colon
    refine (blames_readValue fuel _).bind fun r _ => ?_
    split
    · exact fails_ok _
    · exact (blames_readMembers fuel _).bind fun _ _ => fails_ok _
    · exact fails_error.mpr rfl

end

theorem blames_parse (s : String) : Blames (parse s) := by
  refine (blames_readValue _ _).bind fun r _ => ?_
  dsimp only
  split
  · exact fails_ok _
  · exact fails_error.mpr rfl

end Json

namespace Attr

open Entries

theorem blames_sortedAttrs {entries : List (Value × Outcome Attr)} (hnames : Named entries)
    (h : ∀ e ∈ entries, Blames e.2) : Blames (sortedAttrs entries) := by
  obtain ⟨sorted, hsorted, hperm, -⟩ := Value.exists_sortedBy hnames
  rw [sortedAttrs, hsorted]
  show Blames ((keyed sorted).mapM _ >>= _)
  refine Fails.bind (.mapM fun e he => ?_) fun _ _ => fails_ok _
  obtain ⟨named, hnamed, rfl⟩ := List.mem_map.mp he
  exact (h _ (hperm.subset he)).bind fun _ _ => fails_ok _

theorem blames_portableBytes (code : String) (v : Value) : Blames (portableBytes code v) := by
  cases v with
  | text s => exact (Base64.blames_decode _ _).bind fun _ _ => fails_ok _
  | _ => exact fails_error.mpr rfl

theorem blames_textsOf (code : String) (v : Value) : Blames (textsOf code v) := by
  unfold textsOf
  repeat' split
  · exact fails_ok _
  all_goals exact fails_error.mpr rfl

/-- A tree is looked into in three ways, depending on the kind that is told around it. -/
theorem blames_read {v : Value} (hv : Value.Tree Value.Simple v) :
    Blames (read none portableBytes v) ∧ Blames (readList none portableBytes v) ∧
      Blames (readMap none portableBytes v) := by
  induction hv with
  | @leaf v h =>
    cases v <;> first
      | exact h.elim
      | exact ⟨fails_error.mpr rfl, fails_error.mpr rfl, fails_error.mpr rfl⟩
  | @list items h ih =>
    refine ⟨fails_error.mpr rfl, ?_, fails_error.mpr rfl⟩
    rw [readList, readItems_eq]
    exact Fails.bind (.mapM fun v hv => (ih v hv).1) fun _ _ => fails_ok _
  | @map entries hnames h ih =>
    refine ⟨?_, fails_error.mpr rfl, ?_⟩
    · rw [read.eq_def]
      split
      next k payload heq =>
        obtain rfl := Value.map.inj heq
        obtain ⟨-, hlist, hmap⟩ := ih _ List.mem_cons_self
        obtain ⟨name, hname⟩ := hnames.1 _ List.mem_cons_self
        obtain rfl : k = .text name := hname
        simp only [deeper, ok_bind, Value.plainText_text]
        repeat' split
        all_goals first
          | exact fails_ok _
          | exact fails_error.mpr rfl
          | exact hlist
          | exact hmap
          | exact (blames_textsOf _ _).bind fun _ _ => fails_ok _
          | exact (blames_portableBytes _ _).bind fun _ _ => fails_ok _
          | exact Fails.bind (.mapM fun v _ => blames_portableBytes _ v) fun _ _ => fails_ok _
      next => exact fails_error.mpr rfl
    · rw [readMap, readEntries_eq]
      refine Fails.bind (blames_sortedAttrs (hnames.map _) fun e he => ?_) fun _ _ => fails_ok _
      obtain ⟨e, hmem, rfl⟩ := List.mem_map.mp he
      exact (ih e hmem).1

end Attr

namespace KeyToken

open Attr Entries

theorem blames_contents (token : String) : Blames (contents token) := by
  refine (Base64.blames_decode _ _).bind fun bytes _ => ?_
  split
  · exact fails_ok _
  · exact fails_error.mpr rfl

/-- What is read of a tree as a key is refused or not empty. -/
theorem keyOf_cases {v : Value} (hv : Value.Tree Value.Simple v) :
    Blames (keyOf v) ∧ ∀ key, keyOf v = .ok key → key ≠ [] := by
  have hleaf : ∀ v : Value, v.Simple → v.Simple := fun _ => id
  unfold keyOf
  split
  next entries =>
    split
    next e rest hfind =>
      obtain ⟨k, -, hmem⟩ := OrderedMap.exists_mem_of_find? hfind
      have hkey := hv.of_mem_entries hleaf hmem
      have hnames := hkey.named hleaf
      constructor
      · rw [readEntries_eq]
        refine blames_sortedAttrs (hnames.map _) fun e' he' => ?_
        obtain ⟨e', hmem', rfl⟩ := List.mem_map.mp he'
        exact (blames_read (hkey.of_mem_entries hleaf hmem')).1
      · rintro key hread rfl
        have hheld := (sortedAttrs_readEntries hnames).mp hread
        exact absurd hheld.2.length_eq (by simp [keyed])
    next => exact ⟨fails_error.mpr rfl, nofun⟩
  next => exact ⟨fails_error.mpr rfl, nofun⟩

theorem blames_keyIn (text : String) : Blames (keyIn text {}) :=
  (Json.blames_parse text).bind fun j _ =>
    (keyOf_cases j.tree_toValue).1.bind fun _ _ => fails_ok _

theorem blames_decode (token : Value) : Blames (decode token) := by
  have hstripped : Blames (stripped token) := by
    have hshown : Blames token.plainText := token.fails_plainText.mono fun f hf => hf.2 ▸ rfl
    exact .ite (hshown.bind fun _ _ => fails_ok _) (fails_ok _)
  refine hstripped.bind fun shown _ => Fails.ite (fails_error.mpr rfl) ?_
  exact (blames_contents _).bind fun s _ => blames_keyIn s

/-- What is decoded was read of the tree in the token. -/
theorem exists_keyOf {token k : Value} (h : decode token = .ok k) :
    ∃ (j : Json) (key : List (Spelling × Attr)), keyOf j.toValue = .ok key ∧ key ≠ [] ∧
      k = .map (toEntries key) := by
  obtain ⟨shown, -, h⟩ := bind_eq_ok.mp h
  obtain ⟨s, -, h⟩ := bind_eq_ok.mp (of_not_refused h)
  obtain ⟨j, -, h⟩ := bind_eq_ok.mp h
  obtain ⟨key, hkey, h⟩ := bind_eq_ok.mp h
  exact ⟨j, key, hkey, (keyOf_cases j.tree_toValue).2 key hkey, (Except.ok.inj h).symm⟩

/-- **Decoding** gives a key that is not empty, or blames the token. -/
theorem decode_cases (token : Value) :
    (∃ key, key ≠ [] ∧ decode token = .ok (.map key)) ∨
      ∃ f, f.isBadValue = true ∧ decode token = .error f := by
  cases hdecode : decode token with
  | error f =>
    exact .inr ⟨f, Failure.isBadValue_of_isMalformed (blames_decode token f hdecode), rfl⟩
  | ok k =>
    obtain ⟨j, key, -, hne, rfl⟩ := exists_keyOf hdecode
    exact .inl ⟨toEntries key, toEntries_ne_nil hne, rfl⟩

end KeyToken

end DocTable
