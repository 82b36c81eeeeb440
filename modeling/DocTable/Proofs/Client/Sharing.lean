import DocTable.Client.Pool
import DocTable.Proofs.Client.Metering

/-! Clients that are shared. A client is made for the first request for its region and its endpoint
and given for all later ones, so its metrics go where that request sent them. Whoever asks for them
later, to be sent elsewhere, is told nothing. -/

namespace DocTable

variable {past requests : List ClientRequest} {r first : ClientRequest}
  {key : Option String × Option String} {j : Nat} {c : PooledClient} {p : Pool}

/-- The first of some requests that are for a region and an endpoint. -/
structure FirstFor (requests : List ClientRequest) (key : Option String × Option String) (j : Nat)
    (first : ClientRequest) : Prop where
  found : requests[j]? = some first
  same : first.key = key
  before : ∀ r ∈ requests.take j, r.key ≠ key

theorem FirstFor.append (h : FirstFor past key j first) (more : List ClientRequest) :
    FirstFor (past ++ more) key j first := by
  have hlt : j < past.length := (List.getElem?_eq_some_iff.mp h.found).1
  refine ⟨?_, h.same, ?_⟩
  · rw [List.getElem?_append_left hlt, h.found]
  · rw [List.take_append_of_le_length (Nat.le_of_lt hlt)]
    exact h.before

theorem FirstFor.le {i : Nat} (h : FirstFor requests key j first) (hr : requests[i]? = some r)
    (hkey : r.key = key) : j ≤ i := by
  by_contra hlt
  have hmem : r ∈ requests.take j :=
    List.mem_of_getElem? ((List.getElem?_take_of_lt (Nat.lt_of_not_le hlt)).trans hr)
  exact h.before r hmem hkey

theorem FirstFor.unique {j' : Nat} {first' : ClientRequest} (h : FirstFor requests key j first)
    (h' : FirstFor requests key j' first') : j = j' ∧ first = first' := by
  obtain rfl := Nat.le_antisymm (h.le h'.found h'.same) (h'.le h.found h.same)
  exact ⟨rfl, Option.some.inj (h.found.symm.trans h'.found)⟩

theorem FirstFor.of_new (h : ∀ r' ∈ past, r'.key ≠ r.key) :
    FirstFor (past ++ [r]) r.key past.length r := by
  refine ⟨List.getElem?_concat_length, rfl, ?_⟩
  rw [List.take_left]
  exact h

namespace PooledClient

/-- Whether a client is the one that was made for the first of some requests for its region and
endpoint. -/
def MadeFirst (c : PooledClient) (requests : List ClientRequest) : Prop :=
  ∃ first, FirstFor requests c.key c.number first ∧ c.metered = first.metered

theorem MadeFirst.append (h : c.MadeFirst past) (more : List ClientRequest) :
    c.MadeFirst (past ++ more) := by
  obtain ⟨first, hfirst, hmetered⟩ := h
  exact ⟨first, hfirst.append more, hmetered⟩

theorem MadeFirst.exists_mem (h : c.MadeFirst past) : ∃ r ∈ past, r.key = c.key := by
  obtain ⟨first, hfirst, -⟩ := h
  exact ⟨first, List.mem_of_getElem? hfirst.found, hfirst.same⟩

/-- Whether each call of a method of a client reports its metric to a callback, and no other. -/
def Tells {κ : Type} (c : PooledClient) (callbacks : Nat → κ) (callback : κ) : Prop :=
  ∀ store name params, Client.member name = .method →
    c.reports callbacks store name params =
      [(callback, .ofOutcome service name (store.call name params).1)]

theorem tells_iff {κ : Type} {callbacks : Nat → κ} {callback : κ} :
    c.Tells callbacks callback ↔ c.metered = true ∧ callbacks c.number = callback := by
  constructor
  · intro h
    have hcall := h {} "scan" [] (by decide)
    rw [reports] at hcall
    split at hcall
    next hmetered =>
      rw [Client.meteredCall_eq (by decide)] at hcall
      exact ⟨hmetered, (Prod.ext_iff.mp (List.singleton_inj.mp hcall)).1⟩
    next => cases hcall
  · rintro ⟨hmetered, rfl⟩ store name params hname
    rw [reports, if_pos hmetered, Client.meteredCall_eq hname]
    rfl

end PooledClient

namespace Pool

/-- The clients for requests one after another, and whether they had to be made. -/
def getAll (p : Pool) : List ClientRequest → List (PooledClient × Bool)
  | [] => []
  | r :: requests =>
    let (c, made, p) := p.get r
    (c, made) :: p.getAll requests

/-- The regions and endpoints of the clients that had to be made. -/
def madeFor (given : List (PooledClient × Bool)) : List (Option String × Option String) :=
  (given.filter (·.2)).map (·.1.key)

/-- Whether a pool has a client for each of the requests that came, made for the first like it. -/
structure Keeps (p : Pool) (past : List ClientRequest) : Prop where
  requests : p.requests = past.length
  made : ∀ c ∈ p.clients, c.MadeFirst past
  all : ∀ r ∈ past, ∃ c ∈ p.clients, c.key = r.key

/-- A client that is kept is given as it is; else one is made and kept. -/
theorem get_cases (p : Pool) (r : ClientRequest) :
    (∃ c ∈ p.clients, c.key = r.key ∧
      p.get r = (c, false, { p with requests := p.requests + 1 })) ∨
    (∀ c ∈ p.clients, c.key ≠ r.key) ∧ ∃ c : PooledClient,
      c.number = p.requests ∧ c.key = r.key ∧ c.metered = r.metered ∧
        p.get r = (c, true, ⟨p.requests + 1, p.clients ++ [c]⟩) := by
  unfold Pool.get
  obtain ⟨region, endpoint⟩ := r.key
  cases hfound : p.clients.find? fun c => c.region = region ∧ c.endpoint = endpoint with
  | some c =>
    have hmatch := List.find?_some hfound
    rw [decide_eq_true_iff] at hmatch
    have hmem := List.mem_of_find?_eq_some hfound
    exact .inl ⟨c, hmem, Prod.ext hmatch.1 hmatch.2, by simp only [hfound]⟩
  | none =>
    refine .inr ⟨fun c hc hkey => ?_, ⟨p.requests, region, endpoint, r.config.getD {}, r.metered⟩,
      rfl, rfl, rfl, by simp only [hfound]⟩
    have hno := List.find?_eq_none.mp hfound c hc
    rw [decide_eq_true_iff] at hno
    exact hno (Prod.ext_iff.mp hkey)

/-- What a request is given after others: a client for its region and endpoint that was made for
the first request for them, which is the request itself if there was none before. -/
structure Gives (past : List ClientRequest) (r : ClientRequest) (c : PooledClient) (made : Bool) :
    Prop where
  key : c.key = r.key
  first : c.MadeFirst (past ++ [r])
  made : made = true ↔ ∀ r' ∈ past, r'.key ≠ r.key

theorem Keeps.get (h : p.Keeps past) (r : ClientRequest) :
    ∃ c made p', p.get r = (c, made, p') ∧ Gives past r c made ∧ p'.Keeps (past ++ [r]) := by
  have hlength : p.requests + 1 = (past ++ [r]).length := by
    rw [List.length_append, h.requests]
    rfl
  obtain ⟨c, hc, hkey, hget⟩ | ⟨hnone, c, hnumber, hkey, hmetered, hget⟩ := p.get_cases r
  · have hfirst := h.made c hc
    obtain ⟨r', hr', hsame⟩ := hfirst.exists_mem
    refine ⟨c, false, _, hget, ⟨hkey, hfirst.append [r], ?_⟩, hlength, ?_, ?_⟩
    · exact iff_of_false Bool.false_ne_true fun hnew => hnew r' hr' (hsame.trans hkey)
    · exact fun c hc => (h.made c hc).append [r]
    · exact List.forall_mem_append.mpr ⟨h.all, List.forall_mem_singleton.mpr ⟨c, hc, hkey⟩⟩
  · have hnew : ∀ r' ∈ past, r'.key ≠ r.key := fun r' hr' hsame => by
      obtain ⟨c', hc', hkey'⟩ := h.all r' hr'
      exact hnone c' hc' (hkey'.trans hsame)
    have hfirst : c.MadeFirst (past ++ [r]) :=
      ⟨r, by rw [hkey, hnumber, h.requests]; exact .of_new hnew, hmetered⟩
    refine ⟨c, true, _, hget, ⟨hkey, hfirst, iff_of_true rfl hnew⟩, hlength, ?_, ?_⟩
    · exact List.forall_mem_append.mpr ⟨fun c hc => (h.made c hc).append [r],
        List.forall_mem_singleton.mpr hfirst⟩
    · refine List.forall_mem_append.mpr ⟨fun r' hr' => ?_, List.forall_mem_singleton.mpr
        ⟨c, List.mem_concat_self, hkey⟩⟩
      obtain ⟨c', hc', hkey'⟩ := h.all r' hr'
      exact ⟨c', List.mem_append_left _ hc', hkey'⟩

theorem Keeps.forall₂_getAll (h : p.Keeps past) (requests : List ClientRequest) :
    List.Forall₂ (fun r (given : PooledClient × Bool) =>
      given.1.key = r.key ∧ given.1.MadeFirst (past ++ requests)) requests (p.getAll requests) := by
  induction requests generalizing p past with
  | nil => exact .nil
  | cons r requests ih =>
    obtain ⟨c, made, p', hget, hgives, hkeeps⟩ := h.get r
    -- what came first stays so when more requests come, and no later client is made for it
    have hrest := ih hkeeps
    have hfirst := hgives.first.append requests
    rw [List.append_assoc, List.singleton_append] at hrest hfirst
    rw [getAll, hget]
    exact .cons ⟨hgives.key, hfirst⟩ hrest

theorem mem_madeFor_cons {new : Bool} {given : List (PooledClient × Bool)} :
    key ∈ madeFor ((c, new) :: given) ↔ (new = true ∧ key = c.key) ∨ key ∈ madeFor given := by
  cases new <;> simp [madeFor]

/-- A client is made for each region and endpoint that there was no request for before, and for
none of them twice. -/
theorem Keeps.madeFor_getAll (h : p.Keeps past) (requests : List ClientRequest) :
    (madeFor (p.getAll requests)).Nodup ∧ ∀ key, key ∈ madeFor (p.getAll requests) ↔
      (∃ r ∈ requests, r.key = key) ∧ ∀ r ∈ past, r.key ≠ key := by
  induction requests generalizing p past with
  | nil => exact ⟨List.nodup_nil, by simp [getAll, madeFor]⟩
  | cons r requests ih =>
    obtain ⟨c, new, p', hget, hgives, hkeeps⟩ := h.get r
    obtain ⟨hnodup, hmem⟩ := ih hkeeps
    simp only [getAll, hget]
    have hlater : r.key ∉ madeFor (p'.getAll requests) := fun hin =>
      ((hmem r.key).mp hin).2 r List.mem_concat_self rfl
    refine ⟨?_, fun key => ?_⟩
    · cases new with
      | false => exact hnodup
      | true =>
        rw [← hgives.key] at hlater
        exact List.nodup_cons.mpr ⟨hlater, hnodup⟩
    · rw [mem_madeFor_cons, hgives.made, hgives.key]
      by_cases hkey : r.key = key
      · subst hkey
        simp [hlater]
      · simp [hmem, hkey, Ne.symm hkey, or_imp, forall_and]

/-- **A client is made once for each region and endpoint that is asked for, and given for each
request for them. Its calls report their metrics to the callback of the request if and only if the
first request for that region and endpoint gave that callback.** -/
theorem getAll_tells_iff {κ : Type} (requests : List ClientRequest) (callbacks : Nat → κ) :
    (madeFor (getAll {} requests)).Nodup ∧
    (∀ key, key ∈ madeFor (getAll {} requests) ↔ ∃ r ∈ requests, r.key = key) ∧
    ∀ i r, requests[i]? = some r → ∃ c made j first,
      (getAll {} requests)[i]? = some (c, made) ∧ c.key = r.key ∧
        FirstFor requests r.key j first ∧
        (c.Tells callbacks (callbacks i) ↔
          first.metered = true ∧ callbacks j = callbacks i) := by
  have hempty : Keeps {} [] := ⟨rfl, nofun, nofun⟩
  obtain ⟨hnodup, hmem⟩ := hempty.madeFor_getAll requests
  refine ⟨hnodup, fun key => by simpa using hmem key, fun i r hr => ?_⟩
  obtain ⟨hlength, hall⟩ := List.forall₂_iff_get.mp (hempty.forall₂_getAll requests)
  obtain ⟨hi, rfl⟩ := List.getElem?_eq_some_iff.mp hr
  obtain ⟨hkey, first, hfirst, hmetered⟩ := hall i hi (hlength ▸ hi)
  refine ⟨_, _, _, first, List.getElem?_eq_getElem (hlength ▸ hi), hkey, hkey ▸ hfirst, ?_⟩
  rw [PooledClient.tells_iff, ← hmetered]

/-- Two requests for one region and endpoint: the second one asks for metrics. -/
def plainThenMetered : List ClientRequest :=
  [{ region := some "us-east-1" }, { region := some "us-east-1", metered := true }]

theorem getAll_tells_west :
    let west : ClientRequest := { region := some "us-west-2", metered := true }
    (madeFor (getAll {} (plainThenMetered ++ [west]))).Nodup ∧
    ∃ c made, (getAll {} (plainThenMetered ++ [west]))[2]? = some (c, made) ∧ c.Tells id 2 := by
  intro west
  have hself : FirstFor (plainThenMetered ++ [west]) west.key 2 west := .of_new (by decide)
  obtain ⟨hnodup, -, h⟩ := getAll_tells_iff (plainThenMetered ++ [west]) id
  obtain ⟨c, made, j, first, hc, -, hfirst, hiff⟩ := h 2 west rfl
  obtain ⟨rfl, rfl⟩ := hself.unique hfirst
  exact ⟨hnodup, c, made, hc, hiff.mpr ⟨rfl, rfl⟩⟩

/-- So metrics do not go to all who ask for them. -/
theorem exists_untold :
    ¬ ∀ (requests : List ClientRequest) (callbacks : Nat → Nat) (i : Nat) (r : ClientRequest),
      requests[i]? = some r → r.metered = true →
      ∃ c made, (getAll {} requests)[i]? = some (c, made) ∧ c.Tells callbacks (callbacks i) := by
  intro h
  obtain ⟨c, made, hc, htells⟩ := h plainThenMetered id 1 _ rfl rfl
  have hgiven : (getAll {} plainThenMetered)[1]?.map (fun given => given.1.metered) =
      some false := rfl
  rw [hc] at hgiven
  have hmetered := (PooledClient.tells_iff.mp htells).1
  rw [Option.map_some, hmetered] at hgiven
  cases hgiven

end Pool

end DocTable
