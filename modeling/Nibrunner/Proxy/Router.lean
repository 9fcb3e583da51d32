import Nibrunner.ForStd.Run
import Nibrunner.Protocol.Identifier
import Nibrunner.Protocol.Tenant
import Nibrunner.Proxy.Access
import Nibrunner.Proxy.Forward

/-!
# The router

The proxy finds the app a request is for by its hostname, checks that the visitor may reach it and
forwards the request to the app's port on this host. The routes come from the records of the apps,
a whole table at a time; the hostnames of an app may also be taken out of the table in force.

Requests are served at once, and the table may change while one is under way: `lookUp` is what a
request does under the read lock of the routes, `check` what it does with the keys of its app's
policy, and `send` the rest. Between them others move. The cache of fetched keys is filled by a task
of its own.
-/

namespace Nibrunner.Proxy

open Std

/-! ### Answers of the proxy itself -/

inductive Outcome where
  | refused
  | wrongHost
  | redirected
  | noSuchHost
deriving DecidableEq

/-- An answer nobody was asked for. -/
structure Said where
  status : ℕ
  message : String
  headers : HeaderMap
  outcome : Outcome

def say (status : ℕ) (message : String) (outcome : Outcome) : Said where
  status := status
  message := message
  headers :=
    [("content-type", Bytes.ofText "text/plain; charset=utf-8"),
      ("cache-control", Bytes.ofText "no-store"), ("connection", Bytes.ofText "close")]
  outcome := outcome

/-! ### Routes -/

structure RouteTarget where
  appId : AppId
  deploymentId : DeploymentId
  hostnames : List AppHostname
  hostPort : ℕ
  access : AccessPolicy

structure Route where
  appId : AppId
  deploymentId : DeploymentId
  hostPort : ℕ
deriving DecidableEq

variable (J : Jwt)

structure RouteTable where
  byHostname : ExtTreeMap String Route
  verifiers : ExtTreeMap AppId (Except PolicyError (JwtVerifier J))

variable {J}

def RouteTarget.route (target : RouteTarget) : Route where
  appId := target.appId
  deploymentId := target.deploymentId
  hostPort := target.hostPort

/-- The hostnames a target answers for, in lower case. -/
def RouteTarget.names (target : RouteTarget) : List String :=
  target.hostnames.map fun entry => String.ofList (entry.hostname.text.toList.map Char.toLower)

/-- What a target's visitors are checked with, if they are checked. -/
def RouteTarget.verifier (J : Jwt) (target : RouteTarget) :
    Option (AppId × Except PolicyError (JwtVerifier J)) :=
  match target.access with
  | .publicAccess => none
  | .jwt policy => some (target.appId, JwtVerifier.compile J policy)

namespace RouteTable

/-- Where two targets have a hostname in common the later one answers for it. -/
def fromTargets (J : Jwt) (targets : List RouteTarget) : RouteTable J where
  verifiers :=
    (targets.filterMap (RouteTarget.verifier J)).foldl (fun m entry => m.insert entry.1 entry.2) ∅
  byHostname :=
    (targets.flatMap fun target => target.names.map fun name => (name, target.route)).foldl
      (fun m entry => m.insert entry.1 entry.2) ∅

def routeFor (table : RouteTable J) (hostname : String) : Option Route :=
  table.byHostname[hostname]?

/-- The table without the hostnames of an app. -/
def discard (table : RouteTable J) (appId : AppId) : RouteTable J :=
  { table with byHostname := table.byHostname.filter fun _ route => route.appId ≠ appId }

end RouteTable

/-! ### One request -/

/-- What a connection was before any request arrived on it. -/
structure Arrival where
  serverName : Option String
  peer : String
  secure : Bool

structure HttpFallback where
  originHost : String
  redirect : String

def eqIgnoreAsciiCase (a b : String) : Bool :=
  a.toList.map Char.toLower = b.toList.map Char.toLower

/-- A request that was given a route. -/
structure Routed (J : Jwt) where
  request : Request
  arrival : Arrival
  hostname : String
  route : Route
  access : Option (Except PolicyError (JwtVerifier J))

/-- What a request does up to the end of its lookup. -/
def lookUp (fallback : Option HttpFallback) (table : RouteTable J) (request : Request)
    (arrival : Arrival) : Except Said (Routed J) :=
  match hostnameOf request with
  | none => .error (say 400 "This request names no host.\n" .refused)
  | some hostname =>
    if arrival.serverName.any fun name => !eqIgnoreAsciiCase name hostname then
      .error (say 421 "This connection was opened for a different host.\n" .wrongHost)
    else
      match fallback.filter fun fallback => hostname = fallback.originHost with
      | some fallback =>
        let response := say 307 "" .redirected
        .error { response with
          headers := response.headers.insert "location" (Bytes.ofText fallback.redirect) }
      | none =>
        match table.routeFor hostname with
        | none => .error (say 404 "No app on this host answers for that hostname.\n" .noSuchHost)
        | some route =>
          .ok { request := request
                arrival := arrival
                hostname := hostname
                route := route
                access := table.verifiers[route.appId]? }

/-- A request that is given a route names the route's hostname, which its connection was opened
for. -/
theorem lookUp_eq_ok {fallback : Option HttpFallback} {table : RouteTable J} {request : Request}
    {arrival : Arrival} {routed : Routed J}
    (h : lookUp fallback table request arrival = .ok routed) :
    routed.request = request ∧ routed.arrival = arrival ∧
      hostnameOf request = some routed.hostname ∧
      (∀ name, arrival.serverName = some name → eqIgnoreAsciiCase name routed.hostname) ∧
      table.routeFor routed.hostname = some routed.route ∧
      routed.access = table.verifiers[routed.route.appId]? := by
  rw [lookUp] at h
  split at h
  · cases h
  · rename_i hostname hname
    split_ifs at h with hserver
    split at h
    · cases h
    · split at h
      · cases h
      · rename_i route hroute
        cases h
        refine ⟨rfl, rfl, hname, fun name hsn => ?_, hroute, rfl⟩
        rw [hsn] at hserver
        simpa using hserver

/-- The URL the keys of a request's policy are fetched from. -/
def Routed.jwksUrl (routed : Routed J) : Option String :=
  match routed.access with
  | some (.ok verifier) => verifier.jwksUrl
  | _ => none

/-- Why a request may not reach its app, with the keys the cache has for it. -/
def Routed.refusal (routed : Routed J) (keys : Option (JwksKeys J)) (timestamp : ℕ) :
    Option Said :=
  match routed.access with
  | some (.error _) => some (say 503 "This app's access policy is invalid.\n" .refused)
  | some (.ok verifier) =>
    if verifier.jwksUrl.isSome && keys.isNone then
      some (say 503 "This app's access keys are unavailable.\n" .refused)
    else if !verifier.permits routed.request.headers keys timestamp then
      some (say 403 "A valid access token is required.\n" .refused)
    else none
  | none => none

/-- The request with its hop noted. -/
def Routed.noted (routed : Routed J) : Request :=
  let arrival := routed.arrival
  { routed.request with
    headers := noteTheHop routed.request.headers arrival.peer arrival.secure routed.hostname }

/-- What is sent to the app, unless this host or the app has no room for another request. -/
def Routed.send (routed : Routed J) (busy : Bool) : Except Said Forwarded :=
  if busy then
    let response := say 503 "This host or app is busy. Please retry.\n" .refused
    .error { response with headers := response.headers.insert "retry-after" (Bytes.ofText "1") }
  else
    .ok (forward routed.noted (loopback routed.route.hostPort))

/-! ### Fetched keys -/

/-- In seconds, as the clock of the cache. -/
def maxKeyAge : ℕ := 900

structure CachedKeys (J : Jwt) where
  keys : Option (JwksKeys J)
  expiresAt : ℕ

/-- The keys of a URL while they are fresh. -/
def cachedKeys (cache : ExtTreeMap String (CachedKeys J)) (url : String) (now : ℕ) :
    Option (JwksKeys J) :=
  match cache[url]? with
  | some entry => if now < entry.expiresAt then entry.keys else none
  | none => none

/-- The URLs of the policies in a table. -/
def RouteTable.jwksUrls (table : RouteTable J) : List String :=
  table.verifiers.values.filterMap fun verifier =>
    match verifier with
    | .ok verifier => verifier.jwksUrl
    | .error _ => none

/-- A refresh begins: the URLs no policy names are forgotten, and those it has not are noted. -/
def noteUrls (cache : ExtTreeMap String (CachedKeys J)) (urls : List String) (now : ℕ) :
    ExtTreeMap String (CachedKeys J) :=
  urls.foldl (fun m url => if m.contains url then m
      else m.insert url { keys := none, expiresAt := now })
    (cache.filter fun url _ => urls.contains url)

/-! ### Requests among others -/

/-- A request that was given a route, with the table that gave it. -/
structure UnderWay (J : Jwt) where
  routed : Routed J
  table : RouteTable J
  targets : List RouteTarget
  /-- The keys it was checked with and when, once it was let through. -/
  passed : Option (Option (JwksKeys J) × ℕ)

/-- A request that was forwarded. -/
structure Sent (J : Jwt) where
  underWay : UnderWay J
  keys : Option (JwksKeys J)
  timestamp : ℕ
  forwarded : Forwarded

structure Router (J : Jwt) where
  fallback : Option HttpFallback
  table : RouteTable J
  cache : ExtTreeMap String (CachedKeys J)
  /-- The URLs the refresh that is under way read from the routes. -/
  refreshing : List String
  requests : ExtTreeMap ℕ (UnderWay J)
  /-- The targets the table in force was made of. -/
  targets : List RouteTarget
  /-- What was fetched from a URL, and when. -/
  fetches : List (String × JwksKeys J × ℕ)
  sent : List (Sent J)

namespace Router

def new (J : Jwt) (fallback : Option HttpFallback) : Router J where
  fallback := fallback
  table := .fromTargets J []
  cache := ∅
  refreshing := []
  requests := ∅
  targets := []
  fetches := []
  sent := []

def put (s : Router J) (id : ℕ) (underWay : UnderWay J) : Router J :=
  { s with requests := s.requests.insert id underWay }

/-- A request is answered. -/
def answered (s : Router J) (id : ℕ) : Router J := { s with requests := s.requests.erase id }

def forwards (s : Router J) (sent : Sent J) : Router J := { s with sent := s.sent ++ [sent] }

inductive Move (J : Jwt) where
  | apply (targets : List RouteTarget)
  | discardHttpLog (appId : AppId)
  | request (id : ℕ) (request : Request) (arrival : Arrival)
  | check (id : ℕ) (now timestamp : ℕ)
  | send (id : ℕ) (busy : Bool)
  | readUrls
  | refresh (now : ℕ)
  | fetched (url : String) (keys : JwksKeys J) (now : ℕ)

def step (s : Router J) : Move J → Router J
  | .apply targets => { s with table := .fromTargets J targets, targets := targets }
  | .discardHttpLog appId => { s with table := s.table.discard appId }
  | .request id request arrival =>
    match lookUp s.fallback s.table request arrival with
    | .error _ => s
    | .ok routed =>
      s.put id { routed := routed, table := s.table, targets := s.targets, passed := none }
  | .check id now timestamp =>
    match s.requests[id]?.filter fun underWay => underWay.passed.isNone with
    | none => s
    | some underWay =>
      let keys := underWay.routed.jwksUrl.bind fun url => cachedKeys s.cache url now
      match underWay.routed.refusal keys timestamp with
      | some _ => s.answered id
      | none => s.put id { underWay with passed := some (keys, timestamp) }
  | .send id busy =>
    match s.requests[id]? with
    | none => s
    | some underWay =>
      match underWay.passed with
      | none => s
      | some (keys, timestamp) =>
        match underWay.routed.send busy with
        | .error _ => s.answered id
        | .ok forwarded => (s.answered id).forwards ⟨underWay, keys, timestamp, forwarded⟩
  | .readUrls => { s with refreshing := s.table.jwksUrls }
  | .refresh now => { s with cache := noteUrls s.cache s.refreshing now }
  | .fetched url keys now =>
    { s with
      cache := s.cache.modify url fun _ => { keys := some keys, expiresAt := now + maxKeyAge }
      fetches := s.fetches ++ [(url, keys, now)] }

end Router

end Nibrunner.Proxy
