import Nibrunner.ForStd.TextLines
import Nibrunner.Proxy.Http

/-!
# Forwarding a request

How the proxy names the app a request is for, and what of the request its upstream gets. The leg to
an app is HTTP/1.1, whatever the visitor spoke, over a connection of a pool; a request for an
upgrade goes over a connection of its own, and goes as it came.
-/

namespace Nibrunner.Proxy

/-! ### The name a request is for -/

/-- A host without its port, in lower case. -/
def hostWithoutPort (host : String) : String :=
  String.ofList ((host.toList.takeWhile (· ≠ ':')).map Char.toLower)

/-- The `Host` header if it is text, and otherwise the target's host. -/
def hostnameOf (request : Request) : Option String :=
  (((request.headers.get "host").bind HeaderValue.toStr).or request.uri.host).map hostWithoutPort

/-! ### What the visitor's connection looked like -/

/-- A header whose value may be one no header can have. -/
def HeaderMap.tryInsert (headers : HeaderMap) (name : String) : Option HeaderValue → HeaderMap
  | some value => headers.insert name value
  | none => headers

def noteTheHop (headers : HeaderMap) (peer : String) (secure : Bool) (hostname : String) :
    HeaderMap :=
  let travelled :=
    match (headers.get "x-forwarded-for").bind HeaderValue.toStr with
    | some already => s!"{already}, {peer}"
    | none => peer
  let headers := headers.tryInsert "x-forwarded-for" (HeaderValue.fromStr travelled)
  let headers :=
    if headers.containsKey "x-forwarded-proto" then headers
    else headers.insert "x-forwarded-proto" (Bytes.ofText (if secure then "https" else "http"))
  if headers.containsKey "x-forwarded-host" then headers
  else headers.tryInsert "x-forwarded-host" (HeaderValue.fromStr hostname)

/-! ### The two legs -/

def hopByHop : List String :=
  ["connection", "keep-alive", "proxy-authenticate", "proxy-authorization", "te", "trailer",
    "transfer-encoding", "upgrade"]

def stripHopByHop (headers : HeaderMap) : HeaderMap := hopByHop.foldl HeaderMap.remove headers

/-- Spaces and tabs, the only blanks of a header that is text. -/
def trimBlanks (text : List Char) : List Char :=
  let isBlank := fun c : Char => c = ' ' || c = '\t'
  (((text.dropWhile isBlank).reverse).dropWhile isBlank).reverse

def upgradeRequested (request : Request) : Bool :=
  request.version = .http11 && request.headers.containsKey "upgrade" &&
    (((request.headers.getAll "connection").filterMap HeaderValue.toStr).flatMap
      fun value => value.toList.splitOn ',').any
        fun token => (trimBlanks token).map Char.toLower = "upgrade".toList

/-- A port of this host. -/
def loopback (port : ℕ) : Authority where
  text := String.ofList ("127.0.0.1:".toList ++ TextLines.decimal port)
  visible := by
    have hdigits : (TextLines.decimal port).all isVisibleChar = true := by
      refine List.all_eq_true.mpr fun c hc => ?_
      obtain ⟨hfrom, hto⟩ := Char.isDigit_iff_toNat.mp (TextLines.isDigit_of_mem_decimal hc)
      have hge : 32 ≤ c.toNat := Nat.le_trans (by decide) hfrom
      have hlt : c.toNat < 127 := Nat.lt_of_le_of_lt hto (by decide)
      simp [isVisibleChar, hge, hlt]
    rw [String.toList_ofList, List.all_append, hdigits]
    decide

def rewritten (uri : Uri) (upstream : Authority) : Uri where
  scheme := some "http"
  authority := some upstream
  pathAndQuery := some (uri.pathAndQuery.getD "/")

/-- The version and the name the upstream is told. -/
def asTheUpstreamSpeaks (request : Request) : Request :=
  let namedByTheUri := request.version = .http2 || !request.headers.containsKey "host"
  let request := { request with version := .http11 }
  if !namedByTheUri then request
  else
    match request.uri.authority.bind fun authority => HeaderValue.fromStr authority.text with
    | some askedFor => { request with headers := request.headers.insert "host" askedFor }
    | none => request

/-- What an upstream is sent, and where: over a connection of the pool, or over one of its own that
is kept for as long as the two sides talk. -/
structure Forwarded where
  request : Request
  upstream : Authority
  ownConnection : Bool

def forwardUpgrade (request : Request) (upstream : Authority) : Forwarded where
  request := request
  upstream := upstream
  ownConnection := true

def forward (request : Request) (upstream : Authority) : Forwarded :=
  if upgradeRequested request then forwardUpgrade request upstream
  else
    let request := asTheUpstreamSpeaks request
    { request :=
        { request with
          uri := rewritten request.uri upstream
          headers := stripHopByHop request.headers }
      upstream := upstream
      ownConnection := false }

end Nibrunner.Proxy
