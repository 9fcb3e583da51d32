import Nibrunner.ForStd.Pattern
import Nibrunner.Net.Slot
import Nibrunner.Protocol.Tenant

/-!
# What the wire types publish

A validated text carries its rule twice: as the check it is built through, and as the schema
fragment that is published for it. Here are the checks that nothing else of the host's reads, and
the fragments of all of them. The two are brought together in `SchemaAgreement`, for the checks
that have the form of their pattern, and in `SchemaLimits`, for those whose limit is a length.
-/

namespace Nibrunner

open Patterns

/-! ### The checks -/

def maxPortNameLength : ℕ := 16

def isPortName (value : String) : Bool :=
  match value.toList with
  | [] => false
  | first :: rest =>
    first.isLower && (value ≠ "" && value.utf8ByteSize ≤ maxPortNameLength &&
      rest.all fun c => c.isLower || c.isDigit || c = '-')

def sha256HexLength : ℕ := 64

def isSha256Hex (value : String) : Bool :=
  value.utf8ByteSize = sha256HexLength &&
    value.toList.all fun c => c.isDigit || ('a' ≤ c && c ≤ 'f')

def maxOciRepositoryLength : ℕ := 255

/-- A lower-case letter or a digit. -/
def isAlphanumeric (c : Char) : Bool := c.isLower || c.isDigit

/-- The host of a registry, without the port it may have; nothing where what follows the colon is
no port. -/
def registryHost? (registry : List Char) : Option (List Char) :=
  match TextLines.splitOnce ':' registry with
  | some (host, port) =>
    if port ≠ [] ∧ (String.ofList port).utf8ByteSize ≤ 5 ∧ port.all Char.isDigit = true then
      some host
    else none
  | none => some registry

def isRegistryHost (host : List Char) : Bool :=
  (host = "localhost".toList || host.contains '.') &&
    (host.splitOnP fun c => c = '.' || c = '-').all fun part =>
      part ≠ [] && part.all isAlphanumeric

/-- One component of the path of a repository. -/
def isRepositoryPart (part : List Char) : Bool :=
  part.head?.any isAlphanumeric && part.getLast?.any isAlphanumeric &&
    part.all fun c => isAlphanumeric c || c = '.' || c = '_' || c = '-'

def isOciRepository (value : String) : Bool :=
  match TextLines.splitOnce '/' value.toList with
  | none => false
  | some (registry, repository) =>
    match registryHost? registry with
    | none => false
    | some host =>
      value.utf8ByteSize ≤ maxOciRepositoryLength && isRegistryHost host &&
        (repository.splitOn '/').all isRepositoryPart

def maxIpv4Length : ℕ := 15

def isIpv4 (value : String) : Bool :=
  let octets := value.toList.splitOn '.'
  value.utf8ByteSize ≤ maxIpv4Length && octets.length = 4 &&
    octets.all (fun octet =>
      octet ≠ [] && (String.ofList octet).utf8ByteSize ≤ 3 && (parseU8 octet).isSome) &&
    octets.all fun octet => octet = ['0'] || octet.head? ≠ some '0'

structure Ipv4Address where
  text : String
  valid : isIpv4 text = true
deriving DecidableEq

namespace Ipv4Address

def parse? (value : String) : Option Ipv4Address :=
  if h : isIpv4 value = true then some ⟨value, h⟩ else none

/-- An octet as the address type of the standard library reads it: digits, three at most, with no
zero before others, and less than 256. -/
def isAddrOctet (octet : List Char) : Bool :=
  octet ≠ [] && octet.length ≤ 3 && octet.all Char.isDigit &&
    (octet = ['0'] || octet.head? ≠ some '0') && Nat.ofDigitChars 10 octet 0 < 256

/-- The address as four octets, as the standard library parses it; nothing where it does not, which
is where `expect` panics. -/
def addr (address : Ipv4Address) : Option (List ℕ) :=
  let octets := address.text.toList.splitOn '.'
  if address.text.utf8ByteSize ≤ 15 ∧ octets.length = 4 ∧ octets.all isAddrOctet = true then
    some (octets.map fun octet => Nat.ofDigitChars 10 octet 0)
  else none

end Ipv4Address

def maxObjectKeyLength : ℕ := 1024

def isObjectKey (value : String) : Bool :=
  value ≠ "" && value.utf8ByteSize ≤ maxObjectKeyLength

def initPath : String := "/sbin/init"

def isExecutablePath (path : String) : Bool := isGuestPath path && path ≠ "/" && path ≠ initPath

/-- The arguments of a document; an error is its text. -/
def TenantArguments.tryFrom (value : List String) : Except String TenantArguments :=
  if hmany : maxArguments < value.length then .error "too many arguments"
  else if hlong : ∃ argument ∈ value, maxArgumentLength < argument.utf8ByteSize then
    .error "an argument is too long"
  else
    .ok ⟨value, Nat.le_of_not_lt hmany, fun argument hmem =>
      Nat.le_of_not_lt fun hlt => hlong ⟨argument, hmem, hlt⟩⟩

/-! ### The fragments -/

namespace Schema

open Pattern

def digits : CharClass := ⟨false, [('0', '9')]⟩
def lowers : CharClass := ⟨false, [('a', 'z')]⟩
def alphanumerics : CharClass := ⟨false, [('a', 'z'), ('0', '9')]⟩
def alphanumericsOrDash : CharClass := ⟨false, [('a', 'z'), ('0', '9'), ('-', '-')]⟩
def hexDigits : CharClass := ⟨false, [('0', '9'), ('a', 'f')]⟩
def identifierFirst : CharClass := ⟨false, [('A', 'Z'), ('a', 'z'), ('0', '9')]⟩
def identifierRest : CharClass :=
  ⟨false, [('A', 'Z'), ('a', 'z'), ('0', '9'), ('_', '_'), ('-', '-')]⟩
def hostSeparators : CharClass := ⟨false, [('.', '.'), ('-', '-')]⟩
def repositoryInside : CharClass :=
  ⟨false, [('a', 'z'), ('0', '9'), ('.', '.'), ('_', '_'), ('-', '-')]⟩
def signs : CharClass := ⟨false, [('+', '+'), ('-', '-')]⟩

def portNamePattern : Pattern :=
  anchored (seq (oneOf lowers) (times (oneOf alphanumericsOrDash) 0 (some 15)))

def identifierPattern : Pattern :=
  anchored (seq (oneOf identifierFirst) (times (oneOf identifierRest) 0 (some 62)))

def sha256HexPattern : Pattern :=
  anchored (times (oneOf hexDigits) 64 (some 64))

/-- So many digits. -/
def digitsOf (n : ℕ) : Pattern := times (oneOf digits) n (some n)

/-- Two groups of two digits with a colon between. -/
def hoursAndMinutes : Pattern := seq (digitsOf 2) (seq (char ':') (digitsOf 2))

def timestampPattern : Pattern :=
  anchored
    (seq (digitsOf 4) <| seq (char '-') <| seq (digitsOf 2) <| seq (char '-') <| seq (digitsOf 2) <|
      seq (char 'T') <| seq (digitsOf 2) <| seq (char ':') <| seq (digitsOf 2) <| seq (char ':') <|
      seq (digitsOf 2) <|
      seq (times (seq (char '.') (times (oneOf digits) 1 (some 9))) 0 (some 1)) <|
      alt (char 'Z') (seq (oneOf signs) hoursAndMinutes))

/-- What begins and ends with a character of one class and has some of another between. -/
def labelPattern (edge inner : CharClass) (most : Option ℕ) : Pattern :=
  seq (oneOf edge) (times (seq (times (oneOf inner) 0 most) (oneOf edge)) 0 (some 1))

def dnsLabelPattern : Pattern :=
  anchored (labelPattern alphanumerics alphanumericsOrDash (some 61))

def hostnamePattern : Pattern :=
  anchored (seq (labelPattern alphanumerics alphanumericsOrDash (some 61))
    (times (seq (char '.') (labelPattern alphanumerics alphanumericsOrDash (some 61))) 1 none))

/-- Characters of a class, one at least. -/
def someOf (k : CharClass) : Pattern := times (oneOf k) 1 none

def registryHostPattern : Pattern :=
  alt (literal 'l' "ocalhost".toList)
    (seq (someOf alphanumerics)
      (seq (times (seq (oneOf hostSeparators) (someOf alphanumerics)) 0 none) (seq (char '.')
        (seq (someOf alphanumerics) (times (seq (char '-') (someOf alphanumerics)) 0 none)))))

def registryPortPattern : Pattern :=
  times (seq (char ':') (times (oneOf digits) 1 (some 5))) 0 (some 1)

def ociRepositoryPattern : Pattern :=
  anchored (seq registryHostPattern (seq registryPortPattern
    (times (seq (char '/') (labelPattern alphanumerics repositoryInside none)) 1 none)))

def ipv4Octet : Pattern :=
  alt (seq (char '2') (seq (char '5') (oneOf ⟨false, [('0', '5')]⟩)))
    (alt (seq (char '2') (seq (oneOf ⟨false, [('0', '4')]⟩) (oneOf digits)))
      (alt (seq (char '1') (digitsOf 2))
        (alt (seq (oneOf ⟨false, [('1', '9')]⟩) (oneOf digits)) (oneOf digits))))

def ipv4Pattern : Pattern :=
  anchored (seq (times (seq ipv4Octet (char '.')) 3 (some 3)) ipv4Octet)

/-- The characters of a segment of a guest path: no slash, no backslash, no quote of either kind
and no control character. -/
def segmentCharacters : CharClass where
  negated := true
  ranges := [('/', '/'), ('\\', '\\'), (Char.ofNat 0x22, Char.ofNat 0x22),
    (Char.ofNat 0x27, Char.ofNat 0x27), (Char.ofNat 0, Char.ofNat 0x1f)]

def guestPathPattern : Pattern :=
  alt (anchored (char '/'))
    (anchored (times (seq (char '/')
      (seq (notAhead (seq (char '.') (seq (times (char '.') 0 (some 1)) (alt (char '/') stop))))
        (someOf segmentCharacters))) 1 none))

example :
    [portNamePattern, identifierPattern, sha256HexPattern, timestampPattern, dnsLabelPattern,
      hostnamePattern, ociRepositoryPattern, ipv4Pattern, guestPathPattern].map Pattern.text =
    ["^[a-z][a-z0-9-]\x7b0,15\x7d$",
      "^[A-Za-z0-9][A-Za-z0-9_-]\x7b0,62\x7d$",
      "^[0-9a-f]\x7b64\x7d$",
      "^[0-9]\x7b4\x7d-[0-9]\x7b2\x7d-[0-9]\x7b2\x7dT[0-9]\x7b2\x7d:[0-9]\x7b2\x7d" ++
        ":[0-9]\x7b2\x7d(\\.[0-9]\x7b1,9\x7d)?(Z|[+-][0-9]\x7b2\x7d:[0-9]\x7b2\x7d)$",
      "^[a-z0-9]([a-z0-9-]\x7b0,61\x7d[a-z0-9])?$",
      "^[a-z0-9]([a-z0-9-]\x7b0,61\x7d[a-z0-9])?(\\.[a-z0-9]([a-z0-9-]\x7b0,61\x7d[a-z0-9])?)+$",
      "^(localhost|[a-z0-9]+([.-][a-z0-9]+)*\\.[a-z0-9]+(-[a-z0-9]+)*)(:[0-9]\x7b1,5\x7d)?" ++
        "(/[a-z0-9]([a-z0-9._-]*[a-z0-9])?)+$",
      "^((25[0-5]|2[0-4][0-9]|1[0-9]\x7b2\x7d|[1-9][0-9]|[0-9])\\.)\x7b3\x7d" ++
        "(25[0-5]|2[0-4][0-9]|1[0-9]\x7b2\x7d|[1-9][0-9]|[0-9])$",
      "^/$|^(/(?!\\.\\.?(/|$))[^/\\\\\"'\\x00-\\x1f]+)+$"] := by
  decide +kernel

end Schema

open Schema

def portNameSchema : TextSchema where pattern := some portNamePattern
def identifierSchema : TextSchema where pattern := some identifierPattern
def sha256DigestSchema : TextSchema where pattern := some sha256HexPattern
def timestampSchema : TextSchema where pattern := some timestampPattern
def dnsLabelSchema : TextSchema where pattern := some dnsLabelPattern

def hostnameSchema : TextSchema where
  pattern := some hostnamePattern
  maxLength := some maxHostnameLength

def ociRepositorySchema : TextSchema where
  pattern := some ociRepositoryPattern
  maxLength := some maxOciRepositoryLength

def ipv4AddressSchema : TextSchema where pattern := some ipv4Pattern

def objectKeySchema : TextSchema where
  minLength := 1
  maxLength := some maxObjectKeyLength

def guestPathSchema : TextSchema where
  pattern := some guestPathPattern
  maxLength := some maxGuestPathLength

def executablePathSchema : TextSchema where
  pattern := some guestPathPattern
  maxLength := some maxGuestPathLength
  excluded := ["/", initPath]

/-- The schema of one argument of a tenant. -/
def tenantArgumentSchema : TextSchema where
  maxLength := some maxArgumentLength

/-- The schema of all of them. -/
def TenantArguments.Accepts (value : List String) : Prop :=
  value.length ≤ maxArguments ∧ ∀ argument ∈ value, tenantArgumentSchema.Accepts argument

end Nibrunner
