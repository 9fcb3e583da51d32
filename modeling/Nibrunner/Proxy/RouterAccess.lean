import Nibrunner.Proxy.Router

/-!
# Access fails closed

* `access_fails_closed`: **a request is sent to an app only if it may be**, however requests, new
  routes and discarded hostnames interleave. Its hostname is the app's in the table that was in
  force when it was looked up, a TLS server name is that hostname, and the app is public or the
  request carries the one header with the one token that its policy accepts.

Two targets may have a hostname in common; the later one answers for it, and since an app has one
target, the verifier found by the app is that target's.
-/

namespace Nibrunner.Proxy

open Std

variable {J : Jwt}

/-! ### Tables and their targets -/

namespace RouteTable

variable {targets : List RouteTarget} {hostname : String} {route : Route}

theorem exists_target_of_routeFor (h : (fromTargets J targets).routeFor hostname = some route) :
    ∃ target ∈ targets, target.route = route ∧ hostname ∈ target.names := by
  rcases ExtTreeMap.getElem?_foldl_insert Prod.fst Prod.snd _ ∅ hostname h with
    ⟨entry, hentry, rfl, rfl⟩ | hnone
  · obtain ⟨target, htarget, hmem⟩ := List.mem_flatMap.mp hentry
    obtain ⟨name, hname, rfl⟩ := List.mem_map.mp hmem
    exact ⟨target, htarget, rfl, hname⟩
  · simp at hnone

/-- With one target for each app, what an app's visitors are checked with is what its target
says. -/
theorem verifiers_fromTargets (hdistinct : (targets.map RouteTarget.appId).Nodup)
    {target : RouteTarget} (ht : target ∈ targets) :
    (fromTargets J targets).verifiers[target.appId]? =
      match target.access with
      | .publicAccess => none
      | .jwt policy => some (JwtVerifier.compile J policy) := by
  have hkey {other : RouteTarget} {entry : AppId × Except PolicyError (JwtVerifier J)}
      (h : other.verifier J = some entry) : entry.1 = other.appId := by
    rw [RouteTarget.verifier] at h
    split at h
    · cases h
    · cases h
      rfl
  cases haccess : target.access with
  | publicAccess =>
    refine (ExtTreeMap.getElem?_foldl_insert_of_notMem Prod.fst Prod.snd ∅ fun hmem => ?_).trans
      ExtTreeMap.getElem?_empty
    obtain ⟨entry, hentry, heq⟩ := List.mem_map.mp hmem
    obtain ⟨other, hother, hverifier⟩ := List.mem_filterMap.mp hentry
    have hsame : other = target :=
      List.inj_on_of_nodup_map hdistinct hother ht ((hkey hverifier).symm.trans heq)
    rw [hsame, RouteTarget.verifier, haccess] at hverifier
    cases hverifier
  | jwt policy =>
    have hnodup : ((targets.filterMap (RouteTarget.verifier J)).map Prod.fst).Nodup := by
      refine List.pairwise_map.mpr (List.Pairwise.filterMap _ ?_ (List.pairwise_map.mp hdistinct))
      intro a b hne x hx y hy
      rw [hkey hx, hkey hy]
      exact hne
    have hmem : (target.appId, JwtVerifier.compile J policy) ∈
        targets.filterMap (RouteTarget.verifier J) :=
      List.mem_filterMap.mpr ⟨target, ht, by rw [RouteTarget.verifier, haccess]⟩
    exact ExtTreeMap.getElem?_foldl_insert_of_mem Prod.fst Prod.snd hnodup ∅ hmem

/-- A table that is in force: made of targets, perhaps with hostnames taken out since. -/
structure MadeOf (table : RouteTable J) (targets : List RouteTarget) : Prop where
  routeFor (hostname : String) (route : Route) (h : table.routeFor hostname = some route) :
    (fromTargets J targets).routeFor hostname = some route
  verifiers : table.verifiers = (fromTargets J targets).verifiers

theorem MadeOf.discard {table : RouteTable J} (h : table.MadeOf targets) (appId : AppId) :
    (table.discard appId).MadeOf targets where
  routeFor hostname route hroute := by
    refine h.routeFor hostname route ?_
    have hfilter : (table.byHostname.filter fun _ route => route.appId ≠ appId)[hostname]? =
        some route := hroute
    rw [ExtTreeMap.getElem?_filter', Option.filter_eq_some_iff] at hfilter
    exact hfilter.1
  verifiers := h.verifiers

end RouteTable

/-! ### What lets a request through -/

/-- The keys a request is checked with, where its policy names a URL, were fetched from there. -/
def KeysOf (fetches : List (String × JwksKeys J × ℕ)) (verifier : JwtVerifier J)
    (keys : Option (JwksKeys J)) : Prop :=
  ∀ url, verifier.jwksUrl = some url → ∃ fetched time, keys = some fetched ∧
    (url, fetched, time) ∈ fetches

/-- What a target asks of a request's visitor. -/
def MayReach (fetches : List (String × JwksKeys J × ℕ)) (target : RouteTarget)
    (headers : HeaderMap) (keys : Option (JwksKeys J)) (timestamp : ℕ) : Prop :=
  match target.access with
  | .publicAccess => True
  | .jwt policy => ∃ verifier, JwtVerifier.compile J policy = .ok verifier ∧
      verifier.permits headers keys timestamp ∧ verifier.Carried headers keys timestamp ∧
      KeysOf fetches verifier keys

/-- A request that was sent to an app, and what it was sent for. -/
structure Sent.Admitted (f : Sent J) (fetches : List (String × JwksKeys J × ℕ)) : Prop where
  hostname : hostnameOf f.underWay.routed.request = some f.underWay.routed.hostname
  serverName (name : String) (h : f.underWay.routed.arrival.serverName = some name) :
    eqIgnoreAsciiCase name f.underWay.routed.hostname
  inForce : f.underWay.table.routeFor f.underWay.routed.hostname = some f.underWay.routed.route
  upstream : f.forwarded.upstream = loopback f.underWay.routed.route.hostPort
  target : ∃ target ∈ f.underWay.targets, target.route = f.underWay.routed.route ∧
    f.underWay.routed.hostname ∈ target.names ∧
    MayReach fetches target f.underWay.routed.request.headers f.keys f.timestamp

theorem mem_mono {fetches more : List (String × JwksKeys J × ℕ)} {verifier : JwtVerifier J}
    {keys : Option (JwksKeys J)} (h : KeysOf fetches verifier keys) :
    KeysOf (fetches ++ more) verifier keys := by
  intro url hurl
  obtain ⟨fetched, time, hkeys, hmem⟩ := h url hurl
  exact ⟨fetched, time, hkeys, List.mem_append_left _ hmem⟩

theorem MayReach.mono {fetches more : List (String × JwksKeys J × ℕ)} {target : RouteTarget}
    {headers : HeaderMap} {keys : Option (JwksKeys J)} {timestamp : ℕ}
    (h : MayReach fetches target headers keys timestamp) :
    MayReach (fetches ++ more) target headers keys timestamp := by
  rw [MayReach] at h ⊢
  cases haccess : target.access with
  | publicAccess => trivial
  | jwt policy =>
    rw [haccess] at h
    obtain ⟨verifier, hcompile, hpermits, hcarried, hkeys⟩ := h
    exact ⟨verifier, hcompile, hpermits, hcarried, mem_mono hkeys⟩

/-! ### Every step -/

/-- A request under way has the route and the verifier the table gave it, and passed the check if it
was checked. -/
structure UnderWay.Sound (u : UnderWay J) (fetches : List (String × JwksKeys J × ℕ)) : Prop where
  madeOf : u.table.MadeOf u.targets
  distinct : (u.targets.map RouteTarget.appId).Nodup
  hostname : hostnameOf u.routed.request = some u.routed.hostname
  serverName (name : String) (h : u.routed.arrival.serverName = some name) :
    eqIgnoreAsciiCase name u.routed.hostname
  inForce : u.table.routeFor u.routed.hostname = some u.routed.route
  access : u.routed.access = u.table.verifiers[u.routed.route.appId]?
  passed (keys : Option (JwksKeys J)) (timestamp : ℕ) (h : u.passed = some (keys, timestamp)) :
    u.routed.refusal keys timestamp = none ∧
      ∀ verifier, u.routed.access = some (.ok verifier) → KeysOf fetches verifier keys

/-- What passed the check may reach the app. -/
theorem UnderWay.Sound.mayReach {u : UnderWay J} {fetches : List (String × JwksKeys J × ℕ)}
    (hu : u.Sound fetches) {keys : Option (JwksKeys J)} {timestamp : ℕ}
    (hpassed : u.passed = some (keys, timestamp)) :
    ∃ target ∈ u.targets, target.route = u.routed.route ∧ u.routed.hostname ∈ target.names ∧
      MayReach fetches target u.routed.request.headers keys timestamp := by
  obtain ⟨target, ht, hroute, hname⟩ :=
    RouteTable.exists_target_of_routeFor (hu.madeOf.routeFor _ _ hu.inForce)
  refine ⟨target, ht, hroute, hname, ?_⟩
  obtain ⟨hrefusal, hkeys⟩ := hu.passed keys timestamp hpassed
  have haccess := hu.access
  rw [hu.madeOf.verifiers, ← hroute, show target.route.appId = target.appId from rfl,
    RouteTable.verifiers_fromTargets hu.distinct ht] at haccess
  rw [MayReach]
  cases hpolicy : target.access with
  | publicAccess => trivial
  | jwt policy =>
    simp only [hpolicy] at haccess
    rw [Routed.refusal, haccess] at hrefusal
    cases hcompile : JwtVerifier.compile J policy with
    | error e => simp [hcompile] at hrefusal
    | ok verifier =>
      simp only [hcompile] at hrefusal
      split_ifs at hrefusal with hmissing hrefused
      have hpermits : verifier.permits u.routed.request.headers keys timestamp := by
        simpa using hrefused
      exact ⟨verifier, hcompile, hpermits, JwtVerifier.permits_iff.mp hpermits,
        hkeys verifier (by rw [haccess, hcompile])⟩

namespace Router

structure Consistent (s : Router J) : Prop where
  madeOf : s.table.MadeOf s.targets
  distinct : (s.targets.map RouteTarget.appId).Nodup
  cached (url : String) (entry : CachedKeys J) (keys : JwksKeys J) (h : s.cache[url]? = some entry)
    (hk : entry.keys = some keys) : ∃ time, (url, keys, time) ∈ s.fetches
  requests (id : ℕ) (u : UnderWay J) (h : s.requests[id]? = some u) : u.Sound s.fetches
  sent (f : Sent J) (h : f ∈ s.sent) : f.Admitted s.fetches

variable {s : Router J}

theorem Consistent.put (hs : s.Consistent) (id : ℕ) {u : UnderWay J} (hu : u.Sound s.fetches) :
    (s.put id u).Consistent := by
  refine ⟨hs.madeOf, hs.distinct, hs.cached, fun other v hv => ?_, hs.sent⟩
  rw [Router.put, ExtTreeMap.getElem?_insert_ite] at hv
  split_ifs at hv with heq
  · cases hv
    exact hu
  · exact hs.requests other v hv

theorem Consistent.answered (hs : s.Consistent) (id : ℕ) : (s.answered id).Consistent := by
  refine ⟨hs.madeOf, hs.distinct, hs.cached, fun other v hv => ?_, hs.sent⟩
  rw [Router.answered, ExtTreeMap.getElem?_erase_ite] at hv
  split_ifs at hv with heq
  exact hs.requests other v hv

theorem Consistent.forwards (hs : s.Consistent) {f : Sent J} (hf : f.Admitted s.fetches) :
    (s.forwards f).Consistent := by
  refine ⟨hs.madeOf, hs.distinct, hs.cached, hs.requests, fun other hother => ?_⟩
  rcases List.mem_append.mp hother with hother | hother
  · exact hs.sent other hother
  · rw [List.mem_singleton.mp hother]
    exact hf

/-- The keys the cache has for a request were fetched from the URL of its policy. -/
theorem Consistent.keysOf (hs : s.Consistent) {routed : Routed J} {verifier : JwtVerifier J}
    (haccess : routed.access = some (.ok verifier)) {now timestamp : ℕ}
    (h : routed.refusal (routed.jwksUrl.bind fun url => cachedKeys s.cache url now) timestamp =
      none) :
    KeysOf s.fetches verifier (routed.jwksUrl.bind fun url => cachedKeys s.cache url now) := by
  intro url hurl
  have hjwks : routed.jwksUrl = some url := by rw [Routed.jwksUrl, haccess, ← hurl]
  rw [hjwks, Option.bind_some] at h ⊢
  cases hkeys : cachedKeys s.cache url now with
  | none => simp [Routed.refusal, haccess, hurl, hkeys] at h
  | some keys =>
    rw [cachedKeys] at hkeys
    split at hkeys
    · rename_i entry hentry
      split_ifs at hkeys with hfresh
      obtain ⟨time, hmem⟩ := hs.cached url entry keys hentry hkeys
      exact ⟨keys, time, rfl, hmem⟩
    · cases hkeys

/-- What a refresh keeps of the cache was there before. -/
theorem keys_noteUrls {cache : ExtTreeMap String (CachedKeys J)} {urls : List String} {now : ℕ}
    {url : String} {entry : CachedKeys J} {keys : JwksKeys J}
    (h : (noteUrls cache urls now)[url]? = some entry) (hk : entry.keys = some keys) :
    cache[url]? = some entry := by
  have hfold (l : List String) (m : ExtTreeMap String (CachedKeys J))
      (hm : ∀ (url : String) (entry : CachedKeys J), m[url]? = some entry →
        entry.keys = none ∨ cache[url]? = some entry) :
      ∀ (url : String) (entry : CachedKeys J),
        (l.foldl (fun m url => if m.contains url then m
          else m.insert url { keys := none, expiresAt := now }) m)[url]? = some entry →
        entry.keys = none ∨ cache[url]? = some entry := by
    induction l generalizing m with
    | nil => exact hm
    | cons first l ih =>
      refine ih _ fun url entry hentry => ?_
      dsimp only at hentry
      split_ifs at hentry with hcontains
      · exact hm url entry hentry
      · rw [ExtTreeMap.getElem?_insert_ite] at hentry
        split_ifs at hentry with heq
        · cases hentry
          exact .inl rfl
        · exact hm url entry hentry
  refine (hfold urls _ (fun url entry hentry => ?_) url entry h).resolve_left
    fun hnone => by simp [hk] at hnone
  rw [ExtTreeMap.getElem?_filter', Option.filter_eq_some_iff] at hentry
  exact .inr hentry.1

/-- The targets of a table are those of apps that are all different. -/
def DistinctApps : Move J → Prop
  | .apply targets => (targets.map RouteTarget.appId).Nodup
  | _ => True

theorem Consistent.step (hs : s.Consistent) {m : Move J} (hm : DistinctApps m) :
    (s.step m).Consistent := by
  cases m with
  | apply targets => exact ⟨⟨fun _ _ h => h, rfl⟩, hm, hs.cached, hs.requests, hs.sent⟩
  | discardHttpLog appId =>
    exact ⟨hs.madeOf.discard appId, hs.distinct, hs.cached, hs.requests, hs.sent⟩
  | request id request arrival =>
    rw [Router.step]
    split
    · exact hs
    · rename_i routed hrouted
      obtain ⟨rfl, rfl, hname, hserver, hroute, haccess⟩ := lookUp_eq_ok hrouted
      exact hs.put id ⟨hs.madeOf, hs.distinct, hname, hserver, hroute, haccess, nofun⟩
  | check id now timestamp =>
    rw [Router.step]
    split
    · exact hs
    · rename_i u hu
      have hsound := hs.requests id u (Option.filter_eq_some_iff.mp hu).1
      dsimp only
      split
      · exact hs.answered id
      · rename_i hrefusal
        refine hs.put id ⟨hsound.madeOf, hsound.distinct, hsound.hostname, hsound.serverName,
          hsound.inForce, hsound.access, fun keys time hpassed => ?_⟩
        cases hpassed
        exact ⟨hrefusal, fun verifier haccess => hs.keysOf haccess hrefusal⟩
  | send id busy =>
    rw [Router.step]
    split
    · exact hs
    · rename_i u hu
      split
      · exact hs
      · rename_i keys timestamp hpassed
        have hsound := hs.requests id u hu
        split
        · exact hs.answered id
        · rename_i forwarded hforwarded
          have hupstream : forwarded.upstream = loopback u.routed.route.hostPort := by
            rw [Routed.send] at hforwarded
            split_ifs at hforwarded
            cases hforwarded
            rw [forward]
            split <;> rfl
          exact (hs.answered id).forwards ⟨hsound.hostname, hsound.serverName, hsound.inForce,
            hupstream, hsound.mayReach hpassed⟩
  | readUrls => exact ⟨hs.madeOf, hs.distinct, hs.cached, hs.requests, hs.sent⟩
  | refresh now =>
    refine ⟨hs.madeOf, hs.distinct, fun url entry keys h hk => ?_, hs.requests, hs.sent⟩
    exact hs.cached url entry keys (keys_noteUrls h hk) hk
  | fetched url keys now =>
    refine ⟨hs.madeOf, hs.distinct, fun other entry found h hk => ?_, fun id u h => ?_,
      fun f hf => ?_⟩
    · rw [Router.step, ExtTreeMap.getElem?_modify_ite] at h
      split_ifs at h with heq
      · obtain ⟨old, -, rfl⟩ := Option.map_eq_some_iff.mp h
        cases hk
        exact ⟨now, List.mem_append_right _ (by rw [heq]; exact List.mem_singleton.mpr rfl)⟩
      · obtain ⟨time, hmem⟩ := hs.cached other entry found h hk
        exact ⟨time, List.mem_append_left _ hmem⟩
    · have hsound := hs.requests id u h
      refine ⟨hsound.madeOf, hsound.distinct, hsound.hostname, hsound.serverName, hsound.inForce,
        hsound.access, fun keys time hpassed => ?_⟩
      obtain ⟨hrefusal, hkeys⟩ := hsound.passed keys time hpassed
      exact ⟨hrefusal, fun verifier haccess => mem_mono (hkeys verifier haccess)⟩
    · have hadmitted := hs.sent f hf
      obtain ⟨target, ht, hroute, hname, hmay⟩ := hadmitted.target
      exact ⟨hadmitted.hostname, hadmitted.serverName, hadmitted.inForce, hadmitted.upstream,
        target, ht, hroute, hname, hmay.mono⟩

theorem consistent_new (J : Jwt) (fallback : Option HttpFallback) :
    (new J fallback).Consistent := by
  refine ⟨⟨fun _ _ h => h, rfl⟩, List.nodup_nil, fun url entry keys h _ => ?_, fun id u h => ?_,
    fun f hf => ?_⟩
  · simp [new] at h
  · simp [new] at h
  · cases hf

/-- **Access fails closed**, in every interleaving: what was sent to an app was let through by the
app's own target. An invalid policy, keys that are missing, no token, a second one, one that is too
long or one another policy accepts let nothing through. -/
theorem access_fails_closed (J : Jwt) (fallback : Option HttpFallback) (moves : List (Move J))
    (hdistinct : ∀ targets, .apply targets ∈ moves → (targets.map RouteTarget.appId).Nodup) :
    let s := Run.run step (new J fallback) moves
    ∀ f ∈ s.sent, f.Admitted s.fetches := by
  have hmoves : ∀ m ∈ moves, DistinctApps m := by
    intro m hm
    cases m with
    | apply targets => exact hdistinct targets hm
    | _ => trivial
  have hmeets : Run.Meets step (fun _ m => DistinctApps m) (new J fallback) moves :=
    Run.meets_of_forall hmoves _
  exact (hmeets.invariant (I := Consistent) (fun _ _ hs hm => hs.step hm)
    (consistent_new J fallback)).sent

/-! ### A public app and one with a policy -/

/-- A library that has read no key and no token yet. -/
private def unread : Jwt where
  DecodingKey := Unit
  headerName name := some name
  parseUrl url := some
    { scheme := "https", host := some "issuer.example.com", username := "", password := none,
      fragment := none, text := url }
  keyFromPem _ _ := none
  verifies _ _ := false
  decodeHeader _ := none
  decode _ _ _ := none

private def target (appId : String) (name : Hostname) (hostPort : ℕ) (access : AccessPolicy) :
    RouteTarget where
  appId := ⟨appId⟩
  deploymentId := ⟨"deployment-one"⟩
  hostnames := [⟨name, .platform⟩]
  hostPort := hostPort
  access := access

private def policy : JwtAccessPolicy where
  token := { header := "cf-access-jwt-assertion", format := .raw }
  issuer := "https://issuer.example.com"
  audiences := ["app-two"]
  algorithm := .edDsa
  publicKeys := .jwks "https://issuer.example.com/keys"

private def twoTargets : List RouteTarget :=
  [target "app-one" ⟨"first.example.com", by decide +kernel⟩ 20001 .publicAccess,
    target "app-two" ⟨"second.example.com", by decide +kernel⟩ 20002 (.jwt policy)]

private def asking (host : String) : Request where
  version := .http11
  uri := { scheme := none, authority := none, pathAndQuery := some "/" }
  headers := [("host", Bytes.ofText host)]

private def visit (id : ℕ) (host : String) : List (Move unread) :=
  [.request id (asking host) { serverName := some host, peer := "192.0.2.1", secure := true },
    .check id 0 0, .send id false]

/-- One of two visitors is let through while the keys of the other's app are not fetched yet. -/
theorem access_fails_closed_unread :
    let s := Run.run step (new unread none)
      (.apply twoTargets :: visit 1 "first.example.com" ++ visit 2 "second.example.com")
    s.sent.map (·.forwarded.upstream.text) = ["127.0.0.1:20001"] ∧
      ∀ f ∈ s.sent, f.Admitted s.fetches := by
  refine ⟨by decide +kernel, access_fails_closed unread none _ fun ts hts => ?_⟩
  obtain rfl : ts = twoTargets := by simpa [visit] using hts
  decide +kernel

end Router

end Nibrunner.Proxy
