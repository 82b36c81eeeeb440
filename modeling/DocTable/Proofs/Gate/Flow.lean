import DocTable.Proofs.Gate.Move

/-! What a step of the machine does to its task and frames. `Machine.step_flow` lists all the ways
in which control can pass; the rest derives from the list: what is done above some frames replies to
them before they are touched, callbacks that were handed over are called at once, and what waits for
the end of a check is told of no other. -/

namespace DocTable

variable {σ : Type}

namespace Frame

/-- What waits for the end of a check. -/
def endsCheck : Frame → Bool
  | awaits _ | started .. | released _ => true
  | _ => false

/-- The number of the result that is going to be looked for. -/
def number? : Frame → Option Nat
  | awaits number | started _ _ number _ => some number
  | _ => none

def isCheck (f : Frame) : Bool := f.stand?.isSome

end Frame

/-- How control passes from a task and frames to the next ones. -/
inductive Flow (g : Gate) (thread : Thread) :
    Task → List Frame → Task → List Frame → Prop where
  | acts {a : Action} {fs : List Frame} (r : Outcome Value) :
      Flow g thread (.act a) fs (.reply r) fs
  | spawns {a : Action} {fs : List Frame} :
      Flow g thread (.act (.onThread a)) fs (.act a) (.joins thread :: fs)
  | hands {callback : Option Callback} {block : Bool} {interval timeout : Option Value}
      {fs : List Frame} {c : Callback} (settled : g.entry thread = .settled)
      (hc : waiter callback block = some c) :
      Flow g thread (.act (.ensureReady callback block interval timeout)) fs
        (.call c g.error g.description) (.called block :: fs)
  | begins {callback : Option Callback} {block : Bool} {interval timeout : Option Value}
      {fs : List Frame} {f : Frame} (i : Value) (ends : f.endsCheck = true)
      (told : f.number? = some g.result) :
      Flow g thread (.act (.ensureReady callback block interval timeout)) fs
        (.ask .describeFirst i) (f :: fs)
  | waits {callback : Option Callback} {block : Bool} {interval timeout : Option Value}
      {fs : List Frame} :
      Flow g thread (.act (.ensureReady callback block interval timeout)) fs
        (.look g.result timeout) fs
  | releases {fs : List Frame} (h : HeldCheck) :
      Flow g thread (.act .release) fs (.react h.reaction.actions h.reaction.ending)
        (.checks h.phase h.interval :: .released thread :: fs)
  | calls {c : Callback} {error : Option Failure} {description : Option Entries} {fs : List Frame}
      (actions : List Action) (ending : Outcome Value) :
      Flow g thread (.call c error description) fs (.react actions ending) fs
  | raises {c : Callback} {error : Option Failure} {description : Option Entries}
      {fs : List Frame} (r : Outcome Value) :
      Flow g thread (.call c error description) fs (.reply r) fs
  | holds {phase : Phase} {interval : Value} {fs : List Frame} :
      Flow g thread (.ask phase interval) fs (.reply (.ok .null)) fs
  | asks {phase : Phase} {interval : Value} {fs : List Frame} (actions : List Action)
      (ending : Outcome Value) :
      Flow g thread (.ask phase interval) fs (.react actions ending)
        (.checks phase interval :: fs)
  | reacted {ending : Outcome Value} {fs : List Frame} :
      Flow g thread (.react [] ending) fs (.reply ending) fs
  | reacts {a : Action} {rest : List Action} {ending : Outcome Value} {fs : List Frame} :
      Flow g thread (.react (a :: rest) ending) fs (.act a) (.actions a.name rest ending :: fs)
  | finishes {f : Finding} {fs : List Frame} : Flow g thread (.finish f) fs (.deliver f) fs
  | takes {f : Finding} {fs : List Frame} (c : Callback) :
      Flow g thread (.deliver f) fs (.call c f.error? f.description?) (.delivers f :: fs)
  | publishes {f : Finding} {fs : List Frame} : Flow g thread (.deliver f) fs (.resolve f) fs
  | resolves {f : Finding} {fs : List Frame} {r : Outcome Value}
      (raised : ∀ x, r = .error x → f = .error x) : Flow g thread (.resolve f) fs (.reply r) fs
  | looks {number : Nat} {timeout : Option Value} {fs : List Frame} (r : Outcome Value) :
      Flow g thread (.look number timeout) fs (.reply r) fs
  | noted {r : Outcome Value} {done : String} {rest : List Action} {ending : Outcome Value}
      {fs : List Frame} :
      Flow g thread (.reply r) (.actions done rest ending :: fs) (.react rest ending) fs
  | joined {r : Outcome Value} {t : Thread} {fs : List Frame} :
      Flow g thread (.reply r) (.joins t :: fs) (.reply r) fs
  | served {r : Outcome Value} {block : Bool} {fs : List Frame} (r' : Outcome Value) :
      Flow g thread (.reply r) (.called block :: fs) (.reply r') fs
  | answered {r : Outcome Value} {phase : Phase} {interval : Value} {fs : List Frame} {next : Task}
      (goes : next = g.afterAnswer phase interval r) :
      Flow g thread (.reply r) (.checks phase interval :: fs) next fs
  | goesOn {r : Outcome Value} {f : Finding} {fs : List Frame} :
      Flow g thread (.reply r) (.delivers f :: fs) (.deliver f) fs
  | breaks {x : Failure} {f : Finding} {fs : List Frame} (interrupt : x.isInterrupt = true) :
      Flow g thread (.reply (.error x)) (.delivers f :: fs) (.reply (.error x)) fs
  | ended {r : Outcome Value} {f : Frame} {fs : List Frame} (r' : Outcome Value)
      (ends : f.endsCheck = true) : Flow g thread (.reply r) (f :: fs) (.reply r') fs
  | looksUp {r : Outcome Value} {f : Frame} {fs : List Frame} {number : Nat}
      (timeout : Option Value) (ends : f.endsCheck = true) (told : f.number? = some number) :
      Flow g thread (.reply r) (f :: fs) (.look number timeout) fs

namespace Flow

variable {g : Gate} {thread : Thread} {task task' : Task} {fs fs' : List Frame}

/-- A reply takes the frame on top away, and everything else leaves the frames alone. -/
theorem frames (h : Flow g thread task fs task' fs') :
    (∃ r f, task = .reply r ∧ fs = f :: fs') ∨
      (∀ r, task ≠ .reply r) ∧ ∃ above, fs' = above ++ fs := by
  cases h with
  | spawns | hands | begins | asks | reacts | takes => exact .inr ⟨by simp, [_], rfl⟩
  | releases => exact .inr ⟨by simp, [_, _], rfl⟩
  | acts | waits | calls | raises | holds | reacted | finishes | publishes | resolves | looks =>
    exact .inr ⟨by simp, [], rfl⟩
  | noted | joined | served | answered | goesOn | breaks | ended | looksUp =>
    exact .inl ⟨_, _, rfl, rfl⟩

end Flow

/-! ## Checks and their ends -/

/-- Whether a task is one of a check. With a reply that is open. -/
def Task.isCheck? : Task → Option Bool
  | .reply _ => none
  | task => some task.stand?.isSome

/-- The end of a check stands right below the check, and nowhere else; a look for the result that
comes after it is for the result with the number. -/
def Fits (number : Nat) : Option Bool → List Frame → Prop
  | above, [] => above ≠ some true
  | above, f :: fs =>
    (∀ check, above = some check →
      f.endsCheck = check ∧ (check = true → ∀ n, f.number? = some n → n = number)) ∧
    Fits number (some f.isCheck) fs

theorem Fits.reply {number : Nat} {above : Option Bool} {fs : List Frame}
    (h : Fits number above fs) : Fits number none fs := by
  cases fs with
  | nil => nofun
  | cons f fs => exact ⟨nofun, h.2⟩

/-- What is no check can be put on frames below which the end of a check is not expected. -/
theorem Fits.push {number : Nat} {above : Bool} {f : Frame} {fs : List Frame}
    (hends : f.endsCheck = above) (hnumber : f.number? = none)
    (h : Fits number (some f.isCheck) fs) : Fits number (some above) (f :: fs) :=
  ⟨fun check hc => by cases hc; exact ⟨hends, fun _ n hn => by simp [hnumber] at hn⟩, h⟩

/-- Where no check stands, the number does not matter. -/
theorem Fits.renumber {number number' : Nat} {fs : List Frame}
    (hfs : fs.filterMap Frame.stand? = []) : ∀ {above : Option Bool}, above ≠ some true →
    Fits number above fs → Fits number' above fs := by
  induction fs with
  | nil => exact fun habove _ => habove
  | cons f fs ih =>
    intro above habove h
    have hf : f.stand? = none := by
      cases hf : f.stand? with
      | none => rfl
      | some s => simp [hf] at hfs
    rw [List.filterMap_cons_none hf] at hfs
    refine ⟨fun check hc => ⟨(h.1 check hc).1, ?_⟩, ih hfs (by simp [Frame.isCheck, hf]) h.2⟩
    rintro rfl
    exact absurd hc habove

theorem Frame.isCheck_of_endsCheck {f : Frame} (h : f.endsCheck = true) : f.isCheck = false := by
  cases f <;> first | rfl | cases h

theorem Gate.isCheck?_afterAnswer (g : Gate) (phase : Phase) (interval : Value)
    (a : Outcome Value) : (g.afterAnswer phase interval a).isCheck? = some true := by
  unfold afterAnswer afterDescription
  repeat' split
  all_goals rfl

theorem Gate.ne_afterAnswer {g : Gate} {phase : Phase} {interval : Value} {a : Outcome Value}
    {task : Task} (h : task.isCheck? ≠ some true) : task ≠ g.afterAnswer phase interval a := by
  rintro rfl
  exact h (g.isCheck?_afterAnswer phase interval a)

/-- Control passes so that the ends of checks stay in place. -/
theorem Flow.fits {g : Gate} {thread : Thread} {task task' : Task} {fs fs' : List Frame}
    (flow : Flow g thread task fs task' fs') (h : Fits g.result task.isCheck? fs) :
    Fits g.result task'.isCheck? fs' := by
  cases flow with
  | acts | raises | holds | reacted | looks => exact h.reply
  | resolves => exact h.reply
  | waits | calls | finishes | publishes => exact h
  | spawns | hands | reacts | takes => exact .push rfl rfl h
  | asks => exact .push rfl rfl h
  | begins i ends told =>
    refine ⟨fun check hc => ?_, ?_⟩
    · cases hc
      exact ⟨ends, fun _ n hn => Option.some.inj (hn.symm.trans told)⟩
    · rw [Frame.isCheck_of_endsCheck ends]
      exact h
  | releases => exact .push rfl rfl (.push rfl rfl h)
  | noted | goesOn => exact h.2
  | joined | served | breaks => exact h.2.reply
  | answered goes =>
    rw [goes, Gate.isCheck?_afterAnswer]
    exact h.2
  | ended r' ends => exact h.2.reply
  | looksUp timeout ends told =>
    have h' := h.2
    rw [Frame.isCheck_of_endsCheck ends] at h'
    exact h'

/-- What a reply to the starter of a check that it runs itself tells. -/
theorem Flow.reply_awaits {g : Gate} {thread : Thread} {task : Task} {fs fs' : List Frame}
    {x : Failure} {number : Nat}
    (flow : Flow g thread task fs (.reply (.error x)) (.awaits number :: fs'))
    (h : Fits g.result task.isCheck? fs) :
    (∃ f, task = .reply (.error x) ∧ fs = .delivers f :: .awaits number :: fs' ∧
        x.isInterrupt = true) ∨
      task = .resolve (.error x) ∧ number = g.result := by
  cases flow with
  | acts | raises | reacted | looks => cases (h.1 false rfl).1
  | resolves raised =>
    cases raised x rfl
    exact .inr ⟨rfl, (h.1 true rfl).2 rfl number rfl⟩
  | joined | served => cases (h.2.1 false rfl).1
  | breaks interrupt => exact .inl ⟨_, rfl, rfl, interrupt⟩
  | answered goes => exact absurd goes (Gate.ne_afterAnswer (by simp [Task.isCheck?]))
  | ended r' ends =>
    have hbelow := h.2
    rw [Frame.isCheck_of_endsCheck ends] at hbelow
    cases (hbelow.1 false rfl).1

namespace Machine

variable {e : Environ σ} {m m' : Machine σ}

theorem flow_ensureReady {callback : Option Callback} {block : Bool}
    {interval timeout : Option Value} :
    Flow m.scene.gate m.thread (.act (.ensureReady callback block interval timeout)) m.frames
      (m.ensureReady callback block interval timeout).task
      (m.ensureReady callback block interval timeout).frames := by
  cases hentry : m.scene.gate.entry m.thread with
  | settled =>
    rw [ensureReady_of_settled hentry]
    cases hw : waiter callback block with
    | none => exact .acts _
    | some c => exact .hands hentry hw
  | starts =>
    rw [ensureReady_of_starts hentry]
    cases block && timeout.isNone <;> exact .begins _ rfl rfl
  | waits =>
    rw [ensureReady_of_waits hentry]
    cases block
    · exact .acts _
    · exact .waits

theorem flow_act (a : Action) :
    Flow m.scene.gate m.thread (.act a) m.frames (m.act a).task (m.act a).frames := by
  cases a with
  | ensureReady => exact flow_ensureReady
  | onThread => exact .spawns
  | state => exact .acts _
  | reset =>
    simp only [act]
    cases m.scene.gate.reset <;> exact .acts _
  | release =>
    cases hh : m.scene.held with
    | none =>
      simp only [act, release, hh]
      exact .acts _
    | some h =>
      simp only [act, release, hh]
      exact .releases h

theorem flow_resume {frame : Frame} {frames : List Frame} {r : Outcome Value} :
    Flow m.scene.gate m.thread (.reply r) (frame :: frames)
      (({ m with frames }.resume r frame).task) (({ m with frames }.resume r frame).frames) := by
  cases frame with
  | actions => exact .noted
  | joins => exact .joined
  | called => cases r <;> exact .served _
  | checks => exact .answered rfl
  | delivers f =>
    cases r with
    | ok => exact .goesOn
    | error x =>
      by_cases hx : x.isInterrupt
      · simp only [resume, goOn, hx, if_true]
        exact .breaks hx
      · simp only [resume, goOn, hx]
        exact .goesOn
  | awaits number =>
    cases r with
    | ok => exact .looksUp none rfl rfl
    | error x => exact .ended _ rfl
  | started thread block number timeout =>
    cases block
    · exact .ended _ rfl
    · exact .looksUp timeout rfl rfl
  | released => exact .ended _ rfl

/-- **Control**: every step passes control in one of the ways of `Flow`. -/
theorem step_flow (h : m.step? e = some m') :
    Flow m.scene.gate m.thread m.task m.frames m'.task m'.frames := by
  cases task : m.task with
  | act a =>
    simp only [step?, task, Option.some.injEq] at h
    exact h ▸ flow_act a
  | call c error description =>
    simp only [step?, task, Option.some.injEq] at h
    subst h
    cases c
    · exact .calls ..
    · exact .raises _
  | ask phase interval =>
    simp only [step?, task, Option.some.injEq] at h
    subst h
    simp only [ask]
    split
    · exact .holds
    · exact .asks ..
  | react actions ending =>
    simp only [step?, task, Option.some.injEq] at h
    subst h
    cases actions
    · exact .reacted
    · exact .reacts
  | finish f =>
    simp only [step?, task, Option.some.injEq] at h
    exact h ▸ .finishes
  | deliver f =>
    simp only [step?, task, Option.some.injEq] at h
    subst h
    cases hw : m.scene.gate.waiters with
    | nil =>
      simp only [deliver, hw]
      exact .publishes
    | cons c cs =>
      simp only [deliver, hw]
      cases f <;> exact .takes c
  | resolve f =>
    simp only [step?, task, Option.some.injEq] at h
    subst h
    refine .resolves fun x hx => ?_
    cases f with
    | ok description => cases hx
    | error y =>
      by_cases hy : y.isInterrupt <;> simp [hy] at hx
      rw [hx]
  | look number timeout =>
    simp only [step?, task] at h
    obtain ⟨r, rfl⟩ := exists_reply_of_look h
    exact .looks r
  | reply r =>
    cases hframes : m.frames with
    | nil => simp [step?, task, hframes] at h
    | cons frame frames =>
      simp only [step?, task, hframes, Option.some.injEq] at h
      exact h ▸ flow_resume

/-- What lies below some frames stays there until a reply comes to it. -/
theorem step_above {above fs : List Frame} {f : Frame} (h : m.step? e = some m')
    (hframes : m.frames = above ++ f :: fs) :
    (∃ above', m'.frames = above' ++ f :: fs) ∨
      above = [] ∧ ∃ r, m.task = .reply r ∧ m' = { m with frames := fs }.resume r f := by
  rcases (step_flow h).frames with ⟨r, f', hr, hf⟩ | ⟨-, pushed, hpushed⟩
  · cases above with
    | nil =>
      simp only [step?, hr, hframes, List.nil_append, Option.some.injEq] at h
      exact .inr ⟨rfl, r, hr, h.symm⟩
    | cons f'' above =>
      rw [hframes] at hf
      exact .inl ⟨above, (List.cons.inj hf).2.symm⟩
  · exact .inl ⟨pushed ++ above, by rw [hpushed, hframes, List.append_assoc]⟩

/-- A callback that is called at once was handed over in the step before. -/
theorem step_called {c : Callback} {error : Option Failure} {description : Option Entries}
    {block : Bool} {frames : List Frame} (h : m.step? e = some m')
    (task : m'.task = .call c error description) (hframes : m'.frames = .called block :: frames) :
    m.deeds = [.handed c] ∧ m'.thread = m.thread ∧ m'.scene.gate = m.scene.gate ∧
      error = m.scene.gate.error ∧ description = m.scene.gate.description ∧
      m.scene.gate.entry m.thread = .settled := by
  have flow := step_flow h
  rw [task, hframes] at flow
  generalize htask : m.task = from_, m.frames = below at flow
  cases flow with
  | hands settled hc =>
    simp only [step?, htask, act, ensureReady_of_settled settled, hc, Option.some.injEq] at h
    subst h
    exact ⟨by simp [deeds, htask, settled, hc], rfl, rfl, rfl, rfl, settled⟩
  | answered goes => exact absurd goes (Gate.ne_afterAnswer (by simp [Task.isCheck?, Task.stand?]))

theorem handsOver_of_act {a : Action} (task : m.task = .act a) : m.HandsOver :=
  fun _ _ _ h => by cases task.symm.trans h

theorem step_handsOver (h : m.step? e = some m') : m'.HandsOver := by
  intro c error description task
  have flow := step_flow h
  rw [task] at flow
  generalize htask : m.task = from_, m.frames = below at flow
  generalize hframes : m'.frames = frames at flow
  cases flow with
  | hands settled hc =>
    obtain ⟨-, hthread, hgate, herror, hdescription, hentry⟩ := step_called h task hframes
    exact .inr ⟨_, _, rfl, hgate ▸ herror, hgate ▸ hdescription, hthread ▸ hgate ▸ hentry⟩
  | takes => exact .inl ⟨_, _, rfl⟩
  | answered goes => exact absurd goes (Gate.ne_afterAnswer (by simp [Task.isCheck?, Task.stand?]))

end Machine

end DocTable
