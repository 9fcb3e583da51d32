import Mathlib.Data.BitVec
import Mathlib.Data.List.Sort
import Nibrunner.ForStd.PacketFilter
import Nibrunner.Net.Slot

/-!
# The firewall

The ruleset of a host is a function of the instances it forwards to and of the ranges it denies:
two tables, of chains that are ordered lists of rules. `renderRuleset` writes it out as it is
handed to `nft`; a rule is also read here for what it does to a packet, each match and each
statement by its own case, so that the text and the meaning are two readings of the same rules.

An address family is a parameter of the rules. A range is its text and the addresses in it; the
ranges the host names itself are given by their bits.
-/

namespace Nibrunner

open PacketFilter

/-! ### Addresses -/

abbrev Ipv4 := BitVec 32

abbrev Ipv6 := BitVec 128

namespace Ipv4

def ofOctets (a b c d : ℕ) : Ipv4 :=
  BitVec.ofNat 32 (((a * 256 + b) * 256 + c) * 256 + d)

def text (address : Ipv4) : String :=
  s!"{address.toNat / 2 ^ 24}.{address.toNat / 2 ^ 16 % 256}.{address.toNat / 2 ^ 8 % 256}." ++
    s!"{address.toNat % 256}"

end Ipv4

/-- Some addresses, as a rule names them. -/
structure AddressRange (Address : Type) where
  text : String
  contains : Address → Bool

namespace AddressRange

/-- The addresses that share their first bits with one. -/
def cidr {w : ℕ} (text : String) (address : BitVec w) (prefixLength : ℕ) :
    AddressRange (BitVec w) where
  text := text
  contains other := other >>> (w - prefixLength) == address >>> (w - prefixLength)

def cidrV4 (a b c d prefixLength : ℕ) : AddressRange Ipv4 :=
  cidr s!"{a}.{b}.{c}.{d}/{prefixLength}" (Ipv4.ofOctets a b c d) prefixLength

/-- One address. -/
def single {Address : Type} [DecidableEq Address] (text : String) (address : Address) :
    AddressRange Address where
  text := text
  contains other := other = address

def ipv4 (address : Ipv4) : AddressRange Ipv4 := single address.text address

end AddressRange

open AddressRange

def guestNetworkCidr : AddressRange Ipv4 := cidrV4 10 201 0 0 16

def instanceMetadataAddressV4 : AddressRange Ipv4 := ipv4 (Ipv4.ofOctets 169 254 169 254)

def instanceMetadataAddressV6 : AddressRange Ipv6 :=
  single "fd00:ec2::254" (0xfd000ec2000000000000000000000254#128)

def privateDestinationsV4 : List (AddressRange Ipv4) :=
  [cidrV4 10 0 0 0 8, cidrV4 172 16 0 0 12, cidrV4 192 168 0 0 16, cidrV4 169 254 0 0 16,
    cidrV4 127 0 0 0 8, cidrV4 100 64 0 0 10]

def privateDestinationsV6 : List (AddressRange Ipv6) :=
  [cidr "::1/128" 1#128 128, cidr "fe80::/10" (0xfe800000000000000000000000000000#128) 10,
    cidr "fc00::/7" (0xfc000000000000000000000000000000#128) 7]

def loopback : AddressRange Ipv4 := cidrV4 127 0 0 0 8

/-! ### Packets -/

inductive Transport where
  | tcp
  | udp
  | other (protocol : ℕ)
deriving DecidableEq

inductive ConntrackState where
  | new
  | established
  | related
  | invalid
  | untracked
deriving DecidableEq

inductive ConntrackDirection where
  | original
  | reply
deriving DecidableEq

/-- What a rule can see of a packet. -/
structure Packet (Address : Type) where
  iifname : String
  oifname : String
  saddr : Address
  daddr : Address
  l4proto : Transport
  dport : ℕ
  ctState : ConntrackState
  ctDirection : ConntrackDirection
  /-- The address of the interface it leaves by. -/
  egressAddress : Address
deriving DecidableEq

/-- A tap of an app, by the name `nft` matches with a wildcard. -/
def isTap (name : String) : Bool := tapNamePrefix.toList.isPrefixOf name.toList

namespace Packet

variable {Address : Type} (p : Packet Address)

/-- Established or related. -/
def Tracked : Prop := p.ctState = .established ∨ p.ctState = .related

instance : Decidable p.Tracked := inferInstanceAs (Decidable (_ ∨ _))

/-- A packet with ports, of either transport. -/
def Raw : Prop := p.l4proto = .tcp ∨ p.l4proto = .udp

instance : Decidable p.Raw := inferInstanceAs (Decidable (_ ∨ _))

end Packet

/-! ### Rules -/

inductive Match (Address : Type) where
  | iifname
  | iifnameNot
  | oifname
  | oifnameNot
  | saddr (range : AddressRange Address)
  | daddr (range : AddressRange Address)
  | daddrIn (ranges : List (AddressRange Address))
  | l4protoTcp
  | tcpDport (port : ℕ)
  | rawDport (port : ℕ)
  | ctStateTracked
  | ctDirectionOriginal

inductive Verdict (Address : Type) where
  | accept
  | reject (tcpReset : Bool) (comment : String)
  | dnat (address : Address) (port : ℕ)
  | snat (address : Address)
  | masquerade

/-- The words of an address family. -/
structure Family (Address : Type) where
  keyword : String
  addressText : Address → String

def familyV4 : Family Ipv4 := ⟨"ip", Ipv4.text⟩

/-- No rule names an address of this family but by a range. -/
def familyV6 : Family Ipv6 := ⟨"ip6", fun _ => ""⟩

def tapMatch : String := "\"" ++ tapNamePrefix ++ "*\""

/-- A set, in words. -/
def setText (values : List String) : String := "\x7b " ++ ", ".intercalate values ++ " \x7d"

namespace Match

variable {Address : Type}

def text (family : Family Address) : Match Address → String
  | iifname => "iifname " ++ tapMatch
  | iifnameNot => "iifname != " ++ tapMatch
  | oifname => "oifname " ++ tapMatch
  | oifnameNot => "oifname != " ++ tapMatch
  | saddr range => family.keyword ++ " saddr " ++ range.text
  | daddr range => family.keyword ++ " daddr " ++ range.text
  | daddrIn ranges => family.keyword ++ " daddr " ++ setText (ranges.map (·.text))
  | l4protoTcp => "meta l4proto tcp"
  | tcpDport port => "tcp dport " ++ toString port
  | rawDport port => "meta l4proto \x7b tcp, udp \x7d th dport " ++ toString port
  | ctStateTracked => "ct state established,related"
  | ctDirectionOriginal => "ct direction original"

def holds (p : Packet Address) : Match Address → Bool
  | iifname => isTap p.iifname
  | iifnameNot => !isTap p.iifname
  | oifname => isTap p.oifname
  | oifnameNot => !isTap p.oifname
  | saddr range => range.contains p.saddr
  | daddr range => range.contains p.daddr
  | daddrIn ranges => ranges.any (·.contains p.daddr)
  | l4protoTcp => p.l4proto = .tcp
  | tcpDport port => p.l4proto = .tcp && p.dport = port
  | rawDport port => p.Raw && p.dport = port
  | ctStateTracked => p.Tracked
  | ctDirectionOriginal => p.ctDirection = .original

end Match

namespace Verdict

variable {Address : Type}

def text (family : Family Address) : Verdict Address → String
  | accept => "accept"
  | reject tcpReset comment =>
    "reject" ++ (if tcpReset then " with tcp reset" else "") ++ " comment \"" ++ comment ++ "\""
  | dnat address port => "dnat to " ++ family.addressText address ++ ":" ++ toString port
  | snat address => "snat to " ++ family.addressText address
  | masquerade => "masquerade"

/-- What a verdict does to a packet in a hook: an accept ends its own chain only. -/
def effect : Verdict Address → Packet Address → Option (Packet Address)
  | accept, p => some p
  | reject .., _ => none
  | dnat address port, p => some { p with daddr := address, dport := port }
  | snat address, p => some { p with saddr := address }
  | masquerade, p => some { p with saddr := p.egressAddress }

end Verdict

/-- A line of a chain: its matches, and what it does where they all hold. -/
structure NftRule (Address : Type) where
  ms : List (Match Address)
  action : Action String (Verdict Address)

namespace NftRule

variable {Address : Type}

def text (family : Family Address) (r : NftRule Address) : String :=
  let action := match r.action with
    | .count counter => "counter name " ++ counter
    | .decide verdict => verdict.text family
  " ".intercalate (r.ms.map (·.text family) ++ [action])

def rule (r : NftRule Address) : Rule (Packet Address) String (Verdict Address) where
  applies p := r.ms.all (·.holds p)
  action := r.action

/-- A rule that decides. -/
def deciding (ms : List (Match Address)) (verdict : Verdict Address) : NftRule Address :=
  ⟨ms, .decide verdict⟩

def counting (ms : List (Match Address)) (counter : String) : NftRule Address :=
  ⟨ms, .count counter⟩

end NftRule

/-! ### Chains and tables -/

inductive Hook where
  | prerouting
  | input
  | forward
  | output
  | postrouting
deriving DecidableEq

def Hook.text : Hook → String
  | prerouting => "prerouting"
  | input => "input"
  | forward => "forward"
  | output => "output"
  | postrouting => "postrouting"

/-- Where a chain stands among those of its hook, in words and as a number. -/
structure Priority where
  text : String
  value : ℤ

def filterPriority : Priority := ⟨"filter", 0⟩

def trafficChainPriority : Priority := ⟨"filter + 10", 10⟩

def dstnatPriority : Priority := ⟨"dstnat", -100⟩

def outputNatPriority : Priority := ⟨"-100", -100⟩

def srcnatPriority : Priority := ⟨"srcnat", 100⟩

structure NftChain (Address : Type) where
  name : String
  kind : String
  hook : Hook
  priority : Priority
  rules : List (NftRule Address)

def chainIndent : String := "  "

def ruleIndent : String := "    "

namespace NftChain

variable {Address : Type}

def lines (family : Family Address) (c : NftChain Address) : List String :=
  let hook := s!"type {c.kind} hook {c.hook.text} priority {c.priority.text}; policy accept;"
  [chainIndent ++ "chain " ++ c.name ++ " \x7b"] ++
    (hook :: c.rules.map (·.text family)).map (ruleIndent ++ ·) ++ [chainIndent ++ "\x7d"]

end NftChain

/-- The chains of one hook, the lowest priority first. -/
def chainsOn {Address : Type} (chains : List (NftChain Address)) (hook : Hook) :
    List (List (Rule (Packet Address) String (Verdict Address))) :=
  ((chains.filter fun c => c.hook = hook).mergeSort fun a b =>
    decide (a.priority.value ≤ b.priority.value)).map fun c => c.rules.map (·.rule)

/-- A packet on a hook: what counts it, and the packet that is let on. -/
def onHook {Address : Type} (chains : List (NftChain Address)) (hook : Hook)
    (p : Packet Address) : List String × Option (Packet Address) :=
  PacketFilter.traverse Verdict.effect (chainsOn chains hook) p

def nftablesTable : String := "nibrun"

def tableLines (family : String) (body : List String) : List String :=
  ["table " ++ family ++ " " ++ nftablesTable,
    "delete table " ++ family ++ " " ++ nftablesTable, "",
    "table " ++ family ++ " " ++ nftablesTable ++ " \x7b"] ++ body ++ ["\x7d"]

/-! ### The ruleset of a host -/

/-- One host port carried to one guest port. -/
structure ForwardedPort where
  hostPort : ℕ
  guestPort : ℕ
  /-- A raw port carries whatever arrives; the HTTP port is the proxy's and carries tcp. -/
  raw : Bool
deriving DecidableEq

structure ForwardedInstance where
  appId : AppId
  ports : List ForwardedPort
  hostIpv4 : Ipv4
  guestIpv4 : Ipv4
deriving DecidableEq

structure FirewallState where
  instances : List ForwardedInstance
  deniedEgressAddressesV4 : List (AddressRange Ipv4)
  deniedEgressAddressesV6 : List (AddressRange Ipv6)

def appReceivedCounterPrefix : String := "rx_"

def appSentCounterPrefix : String := "tx_"

def appReceivedCounterName (appId : AppId) : String := appReceivedCounterPrefix ++ appId.text

def appSentCounterName (appId : AppId) : String := appSentCounterPrefix ++ appId.text

/-- What a port is matched by: whatever arrives for a raw one, tcp for the proxy's. -/
def ForwardedPort.dportMatch {Address : Type} (port : ForwardedPort) : Match Address :=
  if port.raw then .rawDport port.hostPort else .tcpDport port.hostPort

/-- Ahead of the established accept, so that a flow opened before an address was denied is cut on
its next packet. -/
def deniedEgressRules {Address : Type} (ranges : List (AddressRange Address)) :
    List (NftRule Address) :=
  ranges.flatMap fun range =>
    [.deciding [.iifname, .daddr range, .l4protoTcp] (.reject true "denied egress"),
      .deciding [.iifname, .daddr range] (.reject false "denied egress")]

/-- Refused before the established accept: conntrack outlives a ruleset. -/
def httpThroughProxyRules (instances : List ForwardedInstance) : List (NftRule Ipv4) :=
  instances.flatMap fun instance_ =>
    (instance_.ports.filter fun port => !port.raw).map fun port =>
      .deciding [.oifname, .daddr (ipv4 instance_.guestIpv4), .tcpDport port.guestPort,
        .ctDirectionOriginal] (.reject true "HTTP through proxy only")

def forwardChainV4 (state : FirewallState) : NftChain Ipv4 where
  name := "forward"
  kind := "filter"
  hook := .forward
  priority := filterPriority
  rules :=
    deniedEgressRules state.deniedEgressAddressesV4 ++ httpThroughProxyRules state.instances ++
      [.deciding [.ctStateTracked] .accept,
        .deciding [.iifname, .daddr instanceMetadataAddressV4]
          (.reject false "instance metadata endpoint"),
        .deciding [.iifname, .oifname] (.reject false "guest to guest"),
        .deciding [.iifname, .daddr guestNetworkCidr] (.reject false "guest to guest"),
        .deciding [.iifname, .daddrIn privateDestinationsV4]
          (.reject false "private destinations")]

def forwardChainV6 (state : FirewallState) : NftChain Ipv6 where
  name := "forward"
  kind := "filter"
  hook := .forward
  priority := filterPriority
  rules :=
    deniedEgressRules state.deniedEgressAddressesV6 ++
      [.deciding [.ctStateTracked] .accept,
        .deciding [.iifname, .daddr instanceMetadataAddressV6]
          (.reject false "instance metadata endpoint"),
        .deciding [.iifname, .oifname] (.reject false "guest to guest"),
        .deciding [.iifname, .daddrIn privateDestinationsV6]
          (.reject false "private destinations")]

/-- The same in both families. -/
def inputChain {Address : Type} : NftChain Address where
  name := "input"
  kind := "filter"
  hook := .input
  priority := filterPriority
  rules :=
    [.deciding [.iifname, .ctStateTracked] .accept,
      .deciding [.iifname] (.reject false "guest to host")]

def preroutingChain (state : FirewallState) : NftChain Ipv4 where
  name := "prerouting"
  kind := "nat"
  hook := .prerouting
  priority := dstnatPriority
  rules := state.instances.flatMap fun instance_ =>
    (instance_.ports.filter (·.raw)).map fun port =>
      .deciding [.iifnameNot, port.dportMatch] (.dnat instance_.guestIpv4 port.guestPort)

def outputChain (state : FirewallState) : NftChain Ipv4 where
  name := "output"
  kind := "nat"
  hook := .output
  priority := outputNatPriority
  rules := state.instances.flatMap fun instance_ =>
    instance_.ports.map fun port =>
      .deciding [.daddr (ipv4 (Ipv4.ofOctets 127 0 0 1)), port.dportMatch]
        (.dnat instance_.guestIpv4 port.guestPort)

def postroutingChain (state : FirewallState) : NftChain Ipv4 where
  name := "postrouting"
  kind := "nat"
  hook := .postrouting
  priority := srcnatPriority
  rules :=
    state.instances.map (fun instance_ =>
      .deciding [.oifname, .saddr loopback, .daddr (ipv4 instance_.guestIpv4)]
        (.snat instance_.hostIpv4)) ++
      [.deciding [.saddr guestNetworkCidr, .oifnameNot] .masquerade]

def natChainsV4 (state : FirewallState) : List (NftChain Ipv4) :=
  [preroutingChain state, outputChain state, postroutingChain state]

def trafficOutputChain (state : FirewallState) : NftChain Ipv4 where
  name := "traffic_output"
  kind := "filter"
  hook := .output
  priority := filterPriority
  rules := state.instances.map fun instance_ =>
    .counting [.saddr loopback, .daddr (ipv4 instance_.guestIpv4)]
      (appReceivedCounterName instance_.appId)

/-- What a guest answers the proxy with is addressed to this host. -/
def trafficInputChain (state : FirewallState) : NftChain Ipv4 where
  name := "traffic_input"
  kind := "filter"
  hook := .input
  priority := trafficChainPriority
  rules := state.instances.map fun instance_ =>
    .counting [.iifname, .saddr (ipv4 instance_.guestIpv4)] (appSentCounterName instance_.appId)

/-- Behind the forward chain: a packet that one rejects never arrives here. -/
def trafficForwardChain (state : FirewallState) : NftChain Ipv4 where
  name := "traffic_forward"
  kind := "filter"
  hook := .forward
  priority := trafficChainPriority
  rules := state.instances.flatMap fun instance_ =>
    [.counting [.iifnameNot, .oifname, .daddr (ipv4 instance_.guestIpv4)]
        (appReceivedCounterName instance_.appId),
      .counting [.iifname, .oifnameNot, .saddr (ipv4 instance_.guestIpv4)]
        (appSentCounterName instance_.appId)]

def trafficChainsV4 (state : FirewallState) : List (NftChain Ipv4) :=
  if state.instances.isEmpty then []
  else [trafficOutputChain state, trafficInputChain state, trafficForwardChain state]

def chainsV4 (state : FirewallState) : List (NftChain Ipv4) :=
  [forwardChainV4 state, inputChain] ++ natChainsV4 state ++ trafficChainsV4 state

def chainsV6 (state : FirewallState) : List (NftChain Ipv6) := [forwardChainV6 state, inputChain]

def counterObjects (state : FirewallState) : List String :=
  (state.instances.flatMap fun instance_ =>
    [appReceivedCounterName instance_.appId, appSentCounterName instance_.appId]).flatMap
    fun name =>
      [chainIndent ++ "counter " ++ name ++ " \x7b", chainIndent ++ "\x7d", ""]

/-- The text of chains, an empty line between each two. -/
def chainsLines {Address : Type} (family : Family Address) (chains : List (NftChain Address)) :
    List String :=
  [""].intercalate (chains.map (·.lines family))

/-- The ruleset as it is handed to `nft`. -/
def renderRuleset (state : FirewallState) : String :=
  let v4 := counterObjects state ++
    chainsLines familyV4 ([forwardChainV4 state, inputChain] ++ natChainsV4 state) ++ [""] ++
    chainsLines familyV4 (trafficChainsV4 state)
  let v6 := chainsLines familyV6 (chainsV6 state)
  "\n".intercalate (tableLines "ip" v4 ++ [""] ++ tableLines "ip6" v6) ++ "\n"

end Nibrunner
