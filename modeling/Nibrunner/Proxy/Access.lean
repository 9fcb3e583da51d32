import Nibrunner.ForStd.IdMap
import Nibrunner.ForStd.TextLines
import Nibrunner.Proxy.Http

/-!
# Access policies

An app is public, or its visitors carry a token its policy accepts. A policy is compiled into a
verifier once, when the routes are made, and a policy that does not compile lets nobody in.

Parsing keys, URLs and header names and reading and checking tokens is done by libraries: `Jwt` is
what the code asks of them. The keys a policy names by URL are fetched by a cache of their own.

`permits_iff`: **the verifier says yes to one header that is a token its policy accepts**, and to
nothing else.
-/

namespace Nibrunner.Proxy

open Std

/-! ### Policies -/

inductive JwtAlgorithm where
  | rs256
  | es256
  | edDsa
deriving DecidableEq

inductive JwtTokenFormat where
  | raw
  | bearer
deriving DecidableEq

structure JwtTokenSource where
  header : String
  format : JwtTokenFormat
deriving DecidableEq

inductive JwtPublicKeys where
  | pem (pems : List String)
  | jwks (url : String)
deriving DecidableEq

structure JwtAccessPolicy where
  token : JwtTokenSource
  issuer : String
  audiences : List String
  algorithm : JwtAlgorithm
  publicKeys : JwtPublicKeys
deriving DecidableEq

inductive AccessPolicy where
  | publicAccess
  | jwt (policy : JwtAccessPolicy)
deriving DecidableEq

/-! ### The libraries -/

/-- The algorithms a token may claim. -/
inductive Algorithm where
  | hs256 | hs384 | hs512 | es256 | es384 | rs256 | rs384 | rs512 | ps256 | ps384 | ps512 | edDsa
deriving DecidableEq

structure Url where
  scheme : String
  host : Option String
  username : String
  password : Option String
  fragment : Option String
  text : String

/-- What a token is checked against. -/
structure Validation where
  algorithm : Algorithm
  requiredSpecClaims : List String
  issuer : List String
  audience : List String
  validateNbf : Bool
  leeway : ℕ

structure TokenHeader where
  algorithm : Algorithm
  kid : Option String

/-- What is read of a token that was verified. -/
structure VerifiedToken where
  crit : Option (List String)
  exp : ℕ
  iss : String

/-- What the code asks of the libraries it is built on. -/
structure Jwt where
  DecodingKey : Type
  headerName : String → Option String
  parseUrl : String → Option Url
  keyFromPem : JwtAlgorithm → String → Option DecodingKey
  /-- Whether a key can verify what an algorithm signs. -/
  verifies : Algorithm → DecodingKey → Bool
  decodeHeader : String → Option TokenHeader
  decode : String → DecodingKey → Validation → Option VerifiedToken

/-! ### Compiling a policy -/

inductive PolicyError where
  | header
  | issuer
  | audiences
  | keyCount
  | publicKey
  | jwksUrl
deriving DecidableEq

def maxPublicKeys : ℕ := 8

def maxTokenBytes : ℕ := 16 * 1024

section Verifier

variable (J : Jwt)

inductive VerificationKeys where
  | pem (keys : List J.DecodingKey)
  | jwks (url : String)

structure JwtVerifier where
  header : String
  format : JwtTokenFormat
  keys : VerificationKeys J
  validation : Validation

/-- The keys of a JWKS document by their ids, each with its algorithm. -/
abbrev JwksKeys := ExtTreeMap String (Algorithm × J.DecodingKey)

variable {J}

def JwksKeys.find (keys : JwksKeys J) (kid : String) (algorithm : Algorithm) :
    Option J.DecodingKey :=
  (keys[kid]?.filter fun key => key.1 = algorithm).map Prod.snd

def isBlank (text : String) : Bool := text.toList.all TextLines.isWhitespace

def JwtAlgorithm.algorithm : JwtAlgorithm → Algorithm
  | .rs256 => .rs256
  | .es256 => .es256
  | .edDsa => .edDsa

namespace JwtVerifier

def compileKey (J : Jwt) (algorithm : JwtAlgorithm) (pem : String) :
    Except PolicyError J.DecodingKey :=
  match J.keyFromPem algorithm pem with
  | none => .error .publicKey
  | some key => if J.verifies algorithm.algorithm key then .ok key else .error .publicKey

def compileKeys (J : Jwt) (policy : JwtAccessPolicy) : Except PolicyError (VerificationKeys J) :=
  match policy.publicKeys with
  | .pem pems =>
    if pems = [] ∨ pems.length > maxPublicKeys then .error .keyCount
    else (pems.mapM (compileKey J policy.algorithm)).map .pem
  | .jwks url =>
    match J.parseUrl url with
    | none => .error .jwksUrl
    | some parsed =>
      if parsed.scheme ≠ "https" ∨ parsed.host = none ∨ parsed.username ≠ "" ∨
          parsed.password.isSome ∨ parsed.fragment.isSome then
        .error .jwksUrl
      else .ok (.jwks parsed.text)

def compile (J : Jwt) (policy : JwtAccessPolicy) : Except PolicyError (JwtVerifier J) :=
  match J.headerName policy.token.header with
  | none => .error .header
  | some header =>
    if isBlank policy.issuer then .error .issuer
    else if policy.audiences = [] ∨ policy.audiences.any isBlank then .error .audiences
    else
      (compileKeys J policy).map fun keys =>
        { header := header
          format := policy.token.format
          keys := keys
          validation :=
            { algorithm := policy.algorithm.algorithm
              requiredSpecClaims := ["exp", "iss", "aud"]
              issuer := [policy.issuer]
              audience := policy.audiences
              validateNbf := true
              leeway := 0 } }

def jwksUrl (verifier : JwtVerifier J) : Option String :=
  match verifier.keys with
  | .pem _ => none
  | .jwks url => some url

/-! ### Checking a token -/

def validToken (verifier : JwtVerifier J) (token : String) (key : J.DecodingKey)
    (timestamp : ℕ) : Bool :=
  match J.decode token key verifier.validation with
  | some decoded =>
    decoded.crit.isNone && timestamp < decoded.exp &&
      verifier.validation.issuer.contains decoded.iss
  | none => false

/-- The token in a header's value. -/
def tokenOf (format : JwtTokenFormat) (value : String) : Option String :=
  match format with
  | .raw => some value
  | .bearer =>
    let (scheme, rest) := value.toList.span (· ≠ ' ')
    match rest with
    | [] => none
    | _ :: token =>
      if scheme.map Char.toLower = "bearer".toList then some (String.ofList token) else none

/-- Whether a token is signed with one of the policy's keys. -/
def validWith (verifier : JwtVerifier J) (token : String) (jwks : Option (JwksKeys J))
    (timestamp : ℕ) : Bool :=
  match verifier.keys with
  | .pem keys => keys.any fun key => verifier.validToken token key timestamp
  | .jwks _ =>
    match J.decodeHeader token with
    | none => false
    | some header =>
      match header.kid with
      | none => false
      | some kid =>
        match jwks.bind fun keys => keys.find kid header.algorithm with
        | none => false
        | some key => verifier.validToken token key timestamp

def permits (verifier : JwtVerifier J) (headers : HeaderMap) (jwks : Option (JwksKeys J))
    (timestamp : ℕ) : Bool :=
  match headers.getAll verifier.header with
  | [] => false
  | value :: others =>
    match HeaderValue.toStr value with
    | none => false
    | some value =>
      if others ≠ [] ∨ value.utf8ByteSize > maxTokenBytes then false
      else
        match tokenOf verifier.format value with
        | none => false
        | some token => verifier.validWith token jwks timestamp

end JwtVerifier

end Verifier

/-! ### What a permitted request carries -/

section Permits

variable {J : Jwt}

/-- A key of the policy: one of those it lists, or the one a token names among those fetched. -/
def JwtVerifier.HasKey (verifier : JwtVerifier J) (jwks : Option (JwksKeys J)) (token : String)
    (key : J.DecodingKey) : Prop :=
  match verifier.keys with
  | .pem keys => key ∈ keys
  | .jwks _ => ∃ keys header kid, jwks = some keys ∧ J.decodeHeader token = some header ∧
      header.kid = some kid ∧ keys[kid]? = some (header.algorithm, key)

/-- A token the policy accepts: it verifies under a key of the policy, names its issuer, has not
expired and asks for no extension. -/
def JwtVerifier.Accepts (verifier : JwtVerifier J) (jwks : Option (JwksKeys J))
    (timestamp : ℕ) (token : String) : Prop :=
  ∃ key decoded, verifier.HasKey jwks token key ∧
    J.decode token key verifier.validation = some decoded ∧ decoded.crit = none ∧
    timestamp < decoded.exp ∧ decoded.iss ∈ verifier.validation.issuer

/-- Exactly one header of the policy's name, which is text of a size that is checked and carries a
token the policy accepts. -/
def JwtVerifier.Carried (verifier : JwtVerifier J) (headers : HeaderMap)
    (jwks : Option (JwksKeys J)) (timestamp : ℕ) : Prop :=
  ∃ value text token, headers.getAll verifier.header = [value] ∧
    HeaderValue.toStr value = some text ∧ text.utf8ByteSize ≤ maxTokenBytes ∧
    JwtVerifier.tokenOf verifier.format text = some token ∧
    verifier.Accepts jwks timestamp token

namespace JwtVerifier

variable {verifier : JwtVerifier J} {jwks : Option (JwksKeys J)} {timestamp : ℕ} {token : String}

theorem validToken_iff {key : J.DecodingKey} : verifier.validToken token key timestamp ↔
    ∃ decoded, J.decode token key verifier.validation = some decoded ∧ decoded.crit = none ∧
      timestamp < decoded.exp ∧ decoded.iss ∈ verifier.validation.issuer := by
  rw [validToken]
  cases J.decode token key verifier.validation with
  | none => simp
  | some decoded => simp [and_assoc]

theorem find_eq_some_iff {keys : JwksKeys J} {kid : String} {algorithm : Algorithm}
    {key : J.DecodingKey} :
    keys.find kid algorithm = some key ↔ keys[kid]? = some (algorithm, key) := by
  rw [JwksKeys.find, Option.map_eq_some_iff]
  constructor
  · rintro ⟨⟨algorithm', key'⟩, hfilter, rfl⟩
    obtain ⟨hget, halg⟩ := Option.filter_eq_some_iff.mp hfilter
    obtain rfl : algorithm' = algorithm := of_decide_eq_true halg
    exact hget
  · intro hget
    exact ⟨(algorithm, key), Option.filter_eq_some_iff.mpr ⟨hget, decide_eq_true rfl⟩, rfl⟩

theorem validWith_iff :
    verifier.validWith token jwks timestamp ↔ verifier.Accepts jwks timestamp token := by
  have hsplit : verifier.Accepts jwks timestamp token ↔
      ∃ key, verifier.HasKey jwks token key ∧ verifier.validToken token key timestamp := by
    constructor
    · rintro ⟨key, decoded, hkey, hdecoded⟩
      exact ⟨key, hkey, validToken_iff.mpr ⟨decoded, hdecoded⟩⟩
    · rintro ⟨key, hkey, hvalid⟩
      obtain ⟨decoded, hdecoded⟩ := validToken_iff.mp hvalid
      exact ⟨key, decoded, hkey, hdecoded⟩
  rw [hsplit, validWith]
  simp only [HasKey]
  cases verifier.keys with
  | pem keys => simp
  | jwks url =>
    constructor
    · intro h
      cases hheader : J.decodeHeader token with
      | none => simp [hheader] at h
      | some header =>
        cases hkid : header.kid with
        | none => simp [hheader, hkid] at h
        | some kid =>
          simp only [hheader, hkid] at h
          split at h
          · cases h
          · rename_i key hfind
            obtain ⟨keys, hjwks, hkey⟩ := Option.bind_eq_some_iff.mp hfind
            exact ⟨key, ⟨keys, header, kid, hjwks, rfl, hkid, find_eq_some_iff.mp hkey⟩, h⟩
    · rintro ⟨key, ⟨keys, header, kid, rfl, hheader, hkid, hget⟩, hvalid⟩
      simp [hheader, hkid, find_eq_some_iff.mpr hget, hvalid]

theorem permits_iff {headers : HeaderMap} :
    verifier.permits headers jwks timestamp ↔ verifier.Carried headers jwks timestamp := by
  constructor
  · intro h
    rw [permits] at h
    split at h
    · cases h
    · rename_i value others hvalues
      split at h
      · cases h
      · rename_i text htext
        split_ifs at h with hmany
        rw [not_or, not_not, Nat.not_lt] at hmany
        split at h
        · cases h
        · rename_i token htoken
          exact ⟨value, text, token, hmany.1 ▸ hvalues, htext, hmany.2, htoken,
            validWith_iff.mp h⟩
  · rintro ⟨value, text, token, hvalues, htext, hsize, htoken, haccepts⟩
    rw [permits, hvalues]
    simp only [htext, htoken]
    rw [if_neg (by simpa using hsize)]
    exact validWith_iff.mpr haccepts

end JwtVerifier

end Permits

end Nibrunner.Proxy
