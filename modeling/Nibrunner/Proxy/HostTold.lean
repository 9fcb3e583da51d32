import Nibrunner.Proxy.Router

/-!
# The name an app is told

An app reads in the `Host` header what its visitor asked for. The proxy routes a request by a name
of its own reckoning, and the two are not always the same:

* `tells_iff`: **an app is told the name its request was routed by** exactly when the request
  `Agrees`. A request with one readable `Host` header does, over HTTP/1 and over HTTP/2 without an
  authority.
* `not_tells`: the leg of an upgrade carries the headers over as they came, so that a name that
  stands in the request line alone is not told at all.
-/

namespace Nibrunner.Proxy

/-! ### What the headers of a leg say -/

/-- The `Host` headers of a request. -/
def Request.hosts (request : Request) : List HeaderValue := request.headers.getAll "host"

/-- There is a `Host` header, and every one is text and of one host. -/
def Names (hosts : List HeaderValue) (hostname : String) : Prop :=
  hosts ≠ [] ∧ ∀ value ∈ hosts, ∃ text, value.toStr = some text ∧ hostWithoutPort text = hostname

/-- What the upstream is told: the name the request was routed by. -/
def Forwarded.Tells (forwarded : Forwarded) (hostname : String) : Prop :=
  Names forwarded.request.hosts hostname

/-- The condition on a request: its `Host` headers are readable and of one host where they are
carried over, and where its authority takes their place that is of the same host as the first of
them, or has nothing before its host. -/
def Request.Agrees (request : Request) : Prop :=
  match request.uri.authority with
  | none => ∃ hostname, Names request.hosts hostname
  | some authority =>
    if upgradeRequested request ∨ (request.version ≠ .http2 ∧ request.hosts ≠ []) then
      ∃ hostname, Names request.hosts hostname
    else
      match request.hosts.head?.bind HeaderValue.toStr with
      | some host => hostWithoutPort authority.text = hostWithoutPort host
      | none => hostWithoutPort authority.text = hostWithoutPort authority.host

variable {request : Request} {hostname : String}

/-! ### What the legs carry over -/

theorem getAll_tryInsert_of_ne {headers : HeaderMap} {name other : String} (h : other ≠ name)
    (value : Option HeaderValue) :
    (headers.tryInsert other value).getAll name = headers.getAll name := by
  cases value with
  | some value => exact HeaderMap.getAll_insert_of_ne h
  | none => rfl

/-- Noting the hop leaves every header alone but the three it fills in. -/
theorem getAll_noteTheHop {name : String} (hfor : "x-forwarded-for" ≠ name)
    (hproto : "x-forwarded-proto" ≠ name) (hhost : "x-forwarded-host" ≠ name)
    (headers : HeaderMap) (peer : String) (secure : Bool) (hostname : String) :
    (noteTheHop headers peer secure hostname).getAll name = headers.getAll name := by
  simp only [noteTheHop]
  split_ifs <;> simp only [getAll_tryInsert_of_ne hfor, getAll_tryInsert_of_ne hhost,
    HeaderMap.getAll_insert_of_ne hproto]

theorem getAll_foldl_remove {name : String} {names : List String} (h : name ∉ names)
    (headers : HeaderMap) : (names.foldl HeaderMap.remove headers).getAll name =
      headers.getAll name := by
  induction names generalizing headers with
  | nil => rfl
  | cons first names ih =>
    rw [List.mem_cons, not_or] at h
    rw [List.foldl_cons, ih h.2, HeaderMap.getAll_remove_of_ne (Ne.symm h.1)]

/-- The leg of an upgrade and the other one are chosen by headers the hop does not touch. -/
theorem upgradeRequested_congr {a b : Request} (hversion : a.version = b.version)
    (hupgrade : a.headers.getAll "upgrade" = b.headers.getAll "upgrade")
    (hconnection : a.headers.getAll "connection" = b.headers.getAll "connection") :
    upgradeRequested a = upgradeRequested b := by
  have hcontains : a.headers.containsKey "upgrade" = b.headers.containsKey "upgrade" := by
    rw [Bool.eq_iff_iff, HeaderMap.containsKey_iff, HeaderMap.containsKey_iff, hupgrade]
  rw [upgradeRequested, upgradeRequested, hversion, hcontains, hconnection]

/-- The `Host` headers an upstream gets: those of the request, unless its authority takes their
place. -/
theorem hosts_forward (request : Request) (upstream : Authority) :
    (forward request upstream).request.hosts =
      if upgradeRequested request ∨ (request.version ≠ .http2 ∧ request.hosts ≠ []) then
        request.hosts
      else
        match request.uri.authority.bind fun authority => HeaderValue.fromStr authority.text with
        | some askedFor => [askedFor]
        | none => request.hosts := by
  rw [forward]
  by_cases hupgrade : upgradeRequested request
  · rw [if_pos hupgrade, if_pos (.inl hupgrade)]
    rfl
  · have hstrip (headers : HeaderMap) :
        (stripHopByHop headers).getAll "host" = headers.getAll "host" :=
      getAll_foldl_remove (by decide) headers
    rw [if_neg hupgrade]
    simp only [Request.hosts, hstrip, asTheUpstreamSpeaks]
    by_cases hnamed : request.version ≠ .http2 ∧ request.headers.getAll "host" ≠ []
    · have hcontains := HeaderMap.containsKey_iff.mpr hnamed.2
      simp [hnamed, hcontains]
    · have huri : (decide (request.version = .http2) || !request.headers.containsKey "host") =
          true := by
        rw [not_and_or, not_not] at hnamed
        rcases hnamed with hversion | hnone
        · simp [hversion]
        · have hcontains : request.headers.containsKey "host" = false := by
            rw [Bool.eq_false_iff, ne_eq, HeaderMap.containsKey_iff]
            exact hnone
          simp [hcontains]
      simp only [huri, hupgrade, hnamed, or_self, if_false, Bool.not_true, Bool.false_eq_true]
      cases request.uri.authority.bind fun authority => HeaderValue.fromStr authority.text with
      | none => rfl
      | some askedFor => exact HeaderMap.getAll_insert_self

/-! ### Told and routed by -/

theorem names_singleton {value : HeaderValue} {text : String} (h : value.toStr = some text) :
    Names [value] hostname ↔ hostWithoutPort text = hostname := by
  constructor
  · rintro ⟨-, hall⟩
    obtain ⟨text', htext', hname⟩ := hall value (List.mem_singleton.mpr rfl)
    cases h.symm.trans htext'
    exact hname
  · intro hname
    refine ⟨List.cons_ne_nil _ _, fun other hother => ?_⟩
    rw [List.mem_singleton.mp hother]
    exact ⟨text, h, hname⟩

/-- Where the `Host` headers are readable and of one host the request is routed by that host. -/
theorem names_of_hostnameOf (h : hostnameOf request = some hostname) :
    Names request.hosts hostname ↔ ∃ name, Names request.hosts name := by
  refine ⟨fun hnames => ⟨hostname, hnames⟩, fun ⟨name, hnames⟩ => ?_⟩
  obtain ⟨first, rest, hhosts⟩ := List.exists_cons_of_ne_nil hnames.1
  obtain ⟨text, htext, hname⟩ := hnames.2 first (by rw [hhosts]; exact List.mem_cons_self)
  have hget : request.headers.get "host" = some first := by
    rw [HeaderMap.get, show request.headers.getAll "host" = first :: rest from hhosts]
    rfl
  rw [hostnameOf, hget, Option.bind_some, htext, Option.some_or, Option.map_some] at h
  rw [← Option.some.inj h, hname]
  exact hnames

/-- **An app is told the name its request was routed by**, for every request the router forwards,
exactly when the request agrees with itself. -/
theorem tells_iff {J : Jwt} (fallback : Option HttpFallback) (table : RouteTable J)
    (request : Request) (arrival : Arrival) (routed : Routed J) (sent : Forwarded)
    (hrouted : lookUp fallback table request arrival = .ok routed)
    (hsent : routed.send false = .ok sent) :
    sent.Tells routed.hostname ↔ request.Agrees := by
  obtain ⟨rfl, rfl, hname, -⟩ := lookUp_eq_ok hrouted
  obtain rfl : forward routed.noted (loopback routed.route.hostPort) = sent :=
    Except.ok.inj hsent
  have hhop {name : String} (h₁ : "x-forwarded-for" ≠ name) (h₂ : "x-forwarded-proto" ≠ name)
      (h₃ : "x-forwarded-host" ≠ name) :
      routed.noted.headers.getAll name = routed.request.headers.getAll name :=
    getAll_noteTheHop h₁ h₂ h₃ _ _ _ _
  have hhosts : routed.noted.hosts = routed.request.hosts :=
    hhop (by decide) (by decide) (by decide)
  have hleg : upgradeRequested routed.noted = upgradeRequested routed.request :=
    upgradeRequested_congr rfl (hhop (by decide) (by decide) (by decide))
      (hhop (by decide) (by decide) (by decide))
  have huri : routed.noted.uri = routed.request.uri := rfl
  have hversion : routed.noted.version = routed.request.version := rfl
  rw [Forwarded.Tells, hosts_forward, hhosts, hleg, huri, hversion, Request.Agrees]
  generalize routed.request = request at hname
  cases hauthority : request.uri.authority with
  | none =>
    rw [Option.bind_none]
    split <;> exact names_of_hostnameOf hname
  | some authority =>
    obtain ⟨askedFor, hfrom, hto⟩ := authority.fromStr_text
    simp only [Option.bind_some, hfrom]
    split_ifs with hcarried
    · exact names_of_hostnameOf hname
    · -- the authority takes the place of the header
      rw [names_singleton hto]
      have hfirst : ((request.hosts.head?.bind HeaderValue.toStr).or request.uri.host).map
          hostWithoutPort = some routed.hostname := hname
      rw [Uri.host, hauthority, Option.map_some] at hfirst
      cases hread : request.hosts.head?.bind HeaderValue.toStr with
      | some host =>
        rw [hread, Option.some_or, Option.map_some] at hfirst
        rw [← Option.some.inj hfirst]
      | none =>
        rw [hread, Option.none_or, Option.map_some] at hfirst
        rw [← Option.some.inj hfirst]

/-! ### A request line that names an app -/

/-- A library nothing is asked of. -/
private def unasked : Jwt where
  DecodingKey := Unit
  headerName _ := none
  parseUrl _ := none
  keyFromPem _ _ := none
  verifies _ _ := false
  decodeHeader _ := none
  decode _ _ _ := none

private def oneApp : RouteTable unasked :=
  .fromTargets unasked
    [{ appId := ⟨"app-one"⟩
       deploymentId := ⟨"deployment-one"⟩
       hostnames := [⟨⟨"one.example.com", by decide +kernel⟩, .platform⟩]
       hostPort := 20001
       access := .publicAccess }]

private def plain : Arrival := { serverName := none, peer := "192.0.2.1", secure := false }

/-- `GET http://one.example.com/ws HTTP/1.1`, with headers of its own. -/
private def absolute (headers : HeaderMap) : Request where
  version := .http11
  uri :=
    { scheme := some "http"
      authority := some ⟨"one.example.com", by decide⟩
      pathAndQuery := some "/ws" }
  headers := headers

private def routedAs (request : Request) : Routed unasked where
  request := request
  arrival := plain
  hostname := "one.example.com"
  route := { appId := ⟨"app-one"⟩, deploymentId := ⟨"deployment-one"⟩, hostPort := 20001 }
  access := none

private theorem lookUp_oneApp {request : Request}
    (h : hostnameOf request = some "one.example.com") :
    lookUp none oneApp request plain = .ok (routedAs request) := by
  have hroute : oneApp.routeFor "one.example.com" =
      some { appId := ⟨"app-one"⟩, deploymentId := ⟨"deployment-one"⟩, hostPort := 20001 } := by
    decide +kernel
  have hverifier : oneApp.verifiers[(⟨"app-one"⟩ : AppId)]? = none :=
    Option.isNone_iff_eq_none.mp (by decide +kernel)
  rw [lookUp, h]
  simp [plain, hroute, hverifier, routedAs]

/-- Where the line names the app and no header does, an ordinary request tells it. -/
theorem tells_iff_absolute :
    (forward (routedAs (absolute [])).noted (loopback 20001)).Tells "one.example.com" ↔
      (absolute []).Agrees :=
  tells_iff none oneApp (absolute []) plain (routedAs (absolute [])) _
    (lookUp_oneApp (by decide +kernel)) rfl

/-- A request for an upgrade does not. -/
theorem not_tells : ¬ ∀ (J : Jwt) (fallback : Option HttpFallback) (table : RouteTable J)
    (request : Request) (arrival : Arrival) (routed : Routed J) (sent : Forwarded),
    lookUp fallback table request arrival = .ok routed → routed.send false = .ok sent →
      sent.Tells routed.hostname := by
  intro h
  have htold := h unasked none oneApp (absolute [("connection", Bytes.ofText "Upgrade"),
    ("upgrade", Bytes.ofText "websocket")]) plain _ _ (lookUp_oneApp (by decide +kernel)) rfl
  exact absurd htold.1 (by decide +kernel)

end Nibrunner.Proxy
