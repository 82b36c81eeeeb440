import DocTable.Client.Metered
import DocTable.Proofs.OrderedMap

/-! Clients that report their calls. Whatever was called before, a call gives what the bare client
gives and reports one metric. The metric tells how the call ended, unless it was stopped by an
interrupt: that is reported as a success. -/

namespace DocTable

/-- Whether a call was ended by a request to stop. -/
def Stopped (r : Outcome Reply) : Prop :=
  ∃ text, r = .error (.interrupt text)

/-- Whether a metric tells how a call ended: with a reply, or with an error of a code or kind. -/
structure Metric.Truthful (m : Metric) (r : Outcome Reply) : Prop where
  ok : m.ok = true ↔ ∃ reply, r = .ok reply
  errorCode : m.errorCode = "" ↔ m.ok = true
  named : ∀ f, r = .error f → m.errorCode = if f.code = "" then f.kind else f.code

theorem Failure.kind_ne_empty (f : Failure) : f.kind ≠ "" := by
  cases f with
  | signal s => cases s <;> simp [kind, signalName]
  | unstorable why => cases why <;> simp [kind, Unstorable.kind]
  | other name => exact name.2
  | _ => simp [kind]

theorem Failure.isInterrupt_iff {f : Failure} :
    f.isInterrupt = true ↔ ∃ text, f = .interrupt text := by
  cases f <;> simp [isInterrupt]

/-- What an error is reported under is a name, unless it is an interrupt. -/
theorem Metric.codeOf_error {f : Failure} (h : f.isInterrupt = false) :
    codeOf (.error f : Outcome Reply) = (if f.code = "" then f.kind else f.code) ∧
      codeOf (.error f : Outcome Reply) ≠ "" := by
  have hcode : codeOf (.error f : Outcome Reply) = if f.code = "" then f.kind else f.code := by
    simp [codeOf, h]
  refine ⟨hcode, ?_⟩
  rw [hcode]
  split
  next => exact f.kind_ne_empty
  next hnonempty => exact hnonempty

/-- The metric for an outcome is the truth about it exactly if nothing stopped the call. -/
theorem Metric.truthful_iff (service operation : String) (r : Outcome Reply) :
    (ofOutcome service operation r).Truthful r ↔ ¬ Stopped r := by
  cases r with
  | ok reply =>
    refine iff_of_true ⟨?_, ?_, nofun⟩ nofun
    · simp [ofOutcome, codeOf]
    · simp [ofOutcome, codeOf]
  | error f =>
    cases hf : f.isInterrupt with
    | true =>
      refine iff_of_false (fun h => ?_) (not_not_intro ?_)
      · have hok : (ofOutcome service operation (.error f : Outcome Reply)).ok = true := by
          simp [ofOutcome, codeOf, hf]
        exact nomatch h.ok.mp hok
      · obtain ⟨text, rfl⟩ := Failure.isInterrupt_iff.mp hf
        exact ⟨text, rfl⟩
    | false =>
      obtain ⟨hcode, hnonempty⟩ := codeOf_error hf
      refine iff_of_true ⟨?_, ?_, ?_⟩ ?_
      · simp [ofOutcome, hnonempty]
      · simp [ofOutcome]
      · rintro _ ⟨⟩
        exact hcode
      · rintro ⟨text, ⟨⟩⟩
        exact nomatch hf

/-- The outcomes of calls of methods one after another, each with the client after it. -/
def Client.callAll (c : Client) : List (String × Params) → List (Outcome Reply × Client)
  | [] => []
  | (name, params) :: calls =>
    let (r, c) := c.call name params
    (r, c) :: c.callAll calls

/-- A call of a method gives what it gives unmetered, and reports how that ended. -/
theorem Client.meteredCall_eq {c : Client} {service name : String} {params : Params}
    (h : member name = .method) :
    c.meteredCall service name params = ⟨(c.call name params).1, (c.call name params).2,
      [.ofOutcome service name (c.call name params).1]⟩ := by
  simp only [meteredCall, h]

namespace MeteredClient

/-- What comes of calls of methods one after another. -/
def callAll (m : MeteredClient) : List (String × Params) → List Metered
  | [] => []
  | (name, params) :: calls =>
    let (r, m) := m.call name params
    r :: m.callAll calls

/-- Whether what is kept for a name calls and reports the method of that name. -/
def Faithful (m : MeteredClient) : Prop :=
  ∀ kept ∈ m.kept, kept.2 = ⟨kept.1, kept.1⟩

variable {m : MeteredClient}

theorem method_eq (h : m.Faithful) (name : String) :
    ∃ kept, m.method name = (⟨name, name⟩, { m with kept }) ∧
      ({ m with kept } : MeteredClient).Faithful := by
  unfold method
  cases hfound : m.kept.find? name with
  | some method =>
    obtain rfl : method = ⟨name, name⟩ := h _ (OrderedMap.mem_of_find? hfound)
    exact ⟨m.kept, rfl, h⟩
  | none =>
    refine ⟨_, rfl, fun kept hkept => ?_⟩
    have hput := OrderedMap.put_of_notMem (OrderedMap.find?_eq_none.mp hfound)
      (v := (⟨name, name⟩ : MeteredMethod))
    rw [hput, List.mem_append, List.mem_singleton] at hkept
    obtain hkept | rfl := hkept
    · exact h kept hkept
    · rfl

/-- Keeping the methods changes nothing: a call is one of the method that is looked up anew. -/
theorem call_eq (h : m.Faithful) (name : String) (params : Params) :
    ∃ kept, m.call name params = (m.client.meteredCall m.service name params,
        ⟨m.service, (m.client.meteredCall m.service name params).client, kept⟩) ∧
      ∀ c, (⟨m.service, c, kept⟩ : MeteredClient).Faithful := by
  unfold call Client.meteredCall
  cases Client.member name with
  | absent | data => exact ⟨m.kept, rfl, fun _ => h⟩
  | method =>
    obtain ⟨kept, hmethod, hkept⟩ := method_eq h name
    exact ⟨kept, by rw [hmethod], fun _ => hkept⟩

/-- The calls of a run give what the calls of the bare client give, and each reports its outcome. -/
theorem callAll_eq {calls : List (String × Params)} (h : m.Faithful)
    (hcalls : ∀ call ∈ calls, Client.member call.1 = .method) :
    (m.callAll calls).map (fun r => (r.reply, r.client)) = m.client.callAll calls ∧
      List.Forall₂ (fun call r => r.reported = [.ofOutcome m.service call.1 r.reply]) calls
        (m.callAll calls) := by
  induction calls generalizing m with
  | nil => exact ⟨rfl, .nil⟩
  | cons call calls ih =>
    obtain ⟨name, params⟩ := call
    obtain ⟨hname, hrest⟩ := List.forall_mem_cons.mp hcalls
    -- what the first call keeps is faithful again, and all that it leaves to the rest of the run
    obtain ⟨kept, hcall, hkept⟩ := call_eq h name params
    rw [Client.meteredCall_eq hname] at hcall
    obtain ⟨hsame, hreports⟩ := ih (hkept (m.client.call name params).2) hrest
    simp only [callAll, Client.callAll, hcall]
    exact ⟨congrArg₂ List.cons rfl hsame, .cons rfl hreports⟩

/-- **Metering changes no call of a method, whatever is called in whatever order: the replies, the
errors and what is recorded and pending are those of the bare client. Each call reports one metric,
in order; the metric tells how the call ended if and only if no interrupt ended it.** -/
theorem callAll_truthful_iff (c : Client) (service : String) (calls : List (String × Params))
    (h : ∀ call ∈ calls, Client.member call.1 = .method) :
    (callAll ⟨service, c, []⟩ calls).map (fun r => (r.reply, r.client)) = c.callAll calls ∧
      List.Forall₂ (fun call r => ∃ metric : Metric, r.reported = [metric] ∧
        metric.service = service ∧ metric.operation = call.1 ∧
        (metric.Truthful r.reply ↔ ¬ Stopped r.reply)) calls (callAll ⟨service, c, []⟩ calls) := by
  obtain ⟨hsame, hreports⟩ := callAll_eq (m := ⟨service, c, []⟩) nofun h
  refine ⟨hsame, hreports.imp fun call r hr => ?_⟩
  exact ⟨_, hr, rfl, rfl, Metric.truthful_iff service call.1 r.reply⟩

/-- A scan that is stopped. -/
def stop : Expectation where
  operation := "scan"
  error := some (.interrupt "stop")

/-- A client that answers the first call, is busy at the second, and is stopped at the third. -/
def stoppedAtLast : Client where
  script := [{ operation := "get_item" },
    { operation := "get_item", error := some (.service (.ofCode "Busy" "" "GetItem")) }, stop]

def getsAndScan : List (String × Params) :=
  [("get_item", []), ("get_item", []), ("scan", [])]

theorem callAll_truthful_stopped :
    let given := callAll ⟨"dynamodb", stoppedAtLast, []⟩ getsAndScan
    (∀ call ∈ getsAndScan, Client.member call.1 = .method) ∧
    given.map (·.reported) = [[⟨"dynamodb", "get_item", true, ""⟩],
      [⟨"dynamodb", "get_item", false, "Busy"⟩], [⟨"dynamodb", "scan", true, ""⟩]] ∧
    given.map (fun r => (r.reply, r.client)) = stoppedAtLast.callAll getsAndScan ∧
    List.Forall₂ (fun call r => ∃ metric : Metric, r.reported = [metric] ∧
      metric.service = "dynamodb" ∧ metric.operation = call.1 ∧
      (metric.Truthful r.reply ↔ ¬ Stopped r.reply)) getsAndScan given := by
  have hcalls : ∀ call ∈ getsAndScan, Client.member call.1 = .method := by decide
  refine ⟨hcalls, ?_, callAll_truthful_iff stoppedAtLast "dynamodb" getsAndScan hcalls⟩
  with_unfolding_all rfl

/-- So not every metric is true: a scan that is stopped is reported as one that succeeded. -/
theorem exists_untruthful_metric :
    ¬ ∀ (c : Client) (service : String) (calls : List (String × Params)),
      (∀ call ∈ calls, Client.member call.1 = .method) →
      ∀ r ∈ callAll ⟨service, c, []⟩ calls, ∀ metric ∈ r.reported, metric.Truthful r.reply := by
  intro h
  have hrun : callAll ⟨"dynamodb", { script := [stop] }, []⟩ [("scan", [])] =
      [⟨.error (.interrupt "stop"), ⟨[], [("scan", [])]⟩, [⟨"dynamodb", "scan", true, ""⟩]⟩] := by
    rfl
  have htrue := h { script := [stop] } "dynamodb" [("scan", [])] (by decide) _
    (hrun ▸ List.mem_singleton_self _) _ (List.mem_singleton_self _)
  obtain ⟨reply, hreply⟩ := htrue.ok.mp rfl
  cases hreply

end MeteredClient

end DocTable
