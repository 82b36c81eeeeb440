import DocTable.Client.Metered

/-!
The settings of clients, and the clients that are kept for use by all: one for each region and
endpoint, made when it is first asked for.
-/

namespace DocTable

/-- The variables of the environment. -/
abbrev Environment := OrderedMap String String

namespace Environment

def nonEmpty (s : Option String) : Option String :=
  s.filter (· ≠ "")

/-- The region that the environment asks for. -/
def region (env : Environment) : Option String :=
  (nonEmpty (env.find? "AWS_REGION")).orElse fun _ => nonEmpty (env.find? "AWS_DEFAULT_REGION")

/-- The endpoint that the environment asks for. -/
def endpoint (env : Environment) : Option String :=
  nonEmpty ((env.find? "DYNAMODB_ENDPOINT").map Text.strip)

end Environment

/-- How long a client waits and how often it tries. -/
structure ClientConfig where
  connectTimeout : Value := .float (.ofInt 2)
  readTimeout : Value := .float (.ofInt 10)
  maxAttempts : Value := .int 3

namespace ClientConfig

/-- The way in which calls are tried again. -/
def retryMode : String := "standard"

/-- The configuration with the given settings. The number of attempts cannot be negative. -/
def ofParams (params : Params) : Outcome ClientConfig := do
  let byDefault : ClientConfig := {}
  let a ← Signature.bind
    { named := [("connect_timeout", byDefault.connectTimeout),
        ("read_timeout", byDefault.readTimeout), ("max_attempts", byDefault.maxAttempts)]
      reserved := [] } [] params
  let maxAttempts := a.get "max_attempts"
  if ← maxAttempts.less (.int 0) then throw .retryLimit
  return ⟨a.get "connect_timeout", a.get "read_timeout", maxAttempts⟩

end ClientConfig

/-- What a client is asked for with. -/
structure ClientRequest where
  region : Option String := none
  endpoint : Option String := none
  metered : Bool := false
  config : Option ClientConfig := none
  environment : Environment := []

/-- A client that is kept. -/
structure PooledClient where
  /-- The number of the request that it was made for. -/
  number : Nat
  region : Option String
  endpoint : Option String
  config : ClientConfig
  metered : Bool

namespace PooledClient

/-- The service that clients are made for. -/
def service : String := "dynamodb"

/-- The region and the endpoint that the client was made for. -/
def key (c : PooledClient) : Option String × Option String :=
  (c.region, c.endpoint)

/-- What the call of a method of the client reports, and to whom. A metered client reports to the
callback that was given with the request that it was made for. -/
def reports {κ : Type} (c : PooledClient) (callbacks : Nat → κ) (store : Client) (name : String)
    (params : Params) : List (κ × Metric) :=
  if c.metered then
    (store.meteredCall service name params).reported.map (callbacks c.number, ·)
  else []

end PooledClient

/-- The clients made so far. -/
structure Pool where
  requests : Nat := 0
  clients : List PooledClient := []

namespace ClientRequest

def given (s : Option String) : Option String :=
  s.filter (· ≠ "")

/-- The region and the endpoint that are meant. -/
def key (r : ClientRequest) : Option String × Option String :=
  ((given r.region).orElse fun _ => r.environment.region,
    (given r.endpoint).orElse fun _ => r.environment.endpoint)

end ClientRequest

namespace Pool

/-- The client for a region and an endpoint, and whether it had to be made. One that is kept is
given as it is, whatever else is asked for. -/
def get (p : Pool) (r : ClientRequest) : PooledClient × Bool × Pool :=
  let (region, endpoint) := r.key
  match p.clients.find? fun c => c.region = region ∧ c.endpoint = endpoint with
  | some c => (c, false, { p with requests := p.requests + 1 })
  | none =>
    let c : PooledClient := ⟨p.requests, region, endpoint, r.config.getD {}, r.metered⟩
    (c, true, ⟨p.requests + 1, p.clients ++ [c]⟩)

/-- A request that failed before a client was looked for counts as well. -/
def skip (p : Pool) : Pool :=
  { p with requests := p.requests + 1 }

end Pool

end DocTable
