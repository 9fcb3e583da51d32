import Mathlib.Data.List.Nodup
import Mathlib.Data.List.Pairwise
import Nibrunner.Net.Firewall

/-!
# What the firewall keeps apart

A packet is followed through every chain of its hook. What refuses it is found by one argument:
the rule that rejects it stands in the chain, and no rule up to it accepts it.

* `FirewallState.WellFormed`: the instances are told apart by their apps, addresses and ports;
* `FirewallState.Isolates`: what holds of every packet;
* `FirewallState.WellFormed.isolates`: a well-formed state isolates.
-/

namespace Nibrunner

open PacketFilter AddressRange

namespace FirewallState

/-- What the host hands the firewall: apps with addresses of their own in the guest network, and
host ports of their own. -/
structure WellFormed (state : FirewallState) : Prop where
  apps : (state.instances.map (·.appId)).Nodup
  addresses : (state.instances.map (·.guestIpv4)).Nodup
  inside : ∀ instance_ ∈ state.instances, guestNetworkCidr.contains instance_.guestIpv4 = true
  hostPorts : (state.instances.flatMap fun instance_ => instance_.ports.map (·.hostPort)).Nodup

/-- A packet of the guest network is refused on a hook. -/
def RefusesV4 (state : FirewallState) (hook : Hook) (p : Packet Ipv4) : Prop :=
  (onHook (chainsV4 state) hook p).2 = none

def RefusesV6 (state : FirewallState) (hook : Hook) (p : Packet Ipv6) : Prop :=
  (onHook (chainsV6 state) hook p).2 = none

/-- What prerouting hands on for a packet to a port of an instance. -/
def forwardedTo (p : Packet Ipv4) (instance_ : ForwardedInstance) (port : ForwardedPort) :
    Packet Ipv4 :=
  { p with daddr := instance_.guestIpv4, dport := port.guestPort }

/-- A guest reaches out of its own accord, to another guest or to what is private. -/
def ReachesInV4 (p : Packet Ipv4) : Prop :=
  isTap p.oifname = true ∨ guestNetworkCidr.contains p.daddr = true ∨
    (∃ range ∈ privateDestinationsV4, range.contains p.daddr = true) ∨
    instanceMetadataAddressV4.contains p.daddr = true

def ReachesInV6 (p : Packet Ipv6) : Prop :=
  isTap p.oifname = true ∨ (∃ range ∈ privateDestinationsV6, range.contains p.daddr = true) ∨
    instanceMetadataAddressV6.contains p.daddr = true

/-- What the ruleset of a state does to every packet. -/
structure Isolates (state : FirewallState) : Prop where
  /-- A denied range is refused to a guest whatever the state of the connection. -/
  deniedEgressV4 : ∀ p, isTap p.iifname = true → ∀ range ∈ state.deniedEgressAddressesV4,
    range.contains p.daddr = true → state.RefusesV4 .forward p
  deniedEgressV6 : ∀ p, isTap p.iifname = true → ∀ range ∈ state.deniedEgressAddressesV6,
    range.contains p.daddr = true → state.RefusesV6 .forward p
  /-- A guest opens no connection to another guest or to what is private. -/
  guestToGuestV4 : ∀ p, isTap p.iifname = true → ¬p.Tracked → ReachesInV4 p →
    state.RefusesV4 .forward p
  guestToGuestV6 : ∀ p, isTap p.iifname = true → ¬p.Tracked → ReachesInV6 p →
    state.RefusesV6 .forward p
  /-- HTTP reaches a guest through the proxy only, on connections that are up as well. -/
  httpThroughProxy : ∀ p, ∀ instance_ ∈ state.instances, ∀ port ∈ instance_.ports,
    port.raw = false → isTap p.oifname = true → p.daddr = instance_.guestIpv4 →
    p.l4proto = .tcp → p.dport = port.guestPort → p.ctDirection = .original →
    state.RefusesV4 .forward p
  /-- A guest reaches the host only on connections that are up. -/
  guestToHostV4 : ∀ p, isTap p.iifname = true → ¬p.Tracked → state.RefusesV4 .input p
  guestToHostV6 : ∀ p, isTap p.iifname = true → ¬p.Tracked → state.RefusesV6 .input p
  /-- Prerouting rewrites what arrives from outside for the host port of a raw port, to the
  instance it is the port of, and nothing else. -/
  prerouting : ∀ p, ∃ q, onHook (chainsV4 state) .prerouting p = ([], some q) ∧
    (q = p ∨ isTap p.iifname = false ∧ p.Raw ∧ ∃ instance_ ∈ state.instances,
      ∃ port ∈ instance_.ports, port.raw = true ∧ p.dport = port.hostPort ∧
        q = forwardedTo p instance_ port)
  preroutingTo : ∀ p, isTap p.iifname = false → p.Raw → ∀ instance_ ∈ state.instances,
    ∀ port ∈ instance_.ports, port.raw = true → p.dport = port.hostPort →
    onHook (chainsV4 state) .prerouting p = ([], some (forwardedTo p instance_ port))
  /-- A received counter counts what is let on to its own app's address. -/
  received : ∀ hook p, ∀ instance_ ∈ state.instances,
    appReceivedCounterName instance_.appId ∈ (onHook (chainsV4 state) hook p).1 →
    ∃ q, (onHook (chainsV4 state) hook p).2 = some q ∧ q.daddr = instance_.guestIpv4
  /-- A sent counter counts what is let out from its own app's address, over a tap. -/
  sent : ∀ hook p, ∀ instance_ ∈ state.instances,
    appSentCounterName instance_.appId ∈ (onHook (chainsV4 state) hook p).1 →
    isTap p.iifname = true ∧ p.saddr = instance_.guestIpv4 ∧
      ∃ q, (onHook (chainsV4 state) hook p).2 = some q
  /-- A packet is counted once on a hook, if at all. -/
  countedOnce : ∀ hook p, (onHook (chainsV4 state) hook p).1.length ≤ 1

/-! ### Which chains a hook runs -/

section Hooks

variable {Address : Type} {chains : List (NftChain Address)} {hook : Hook}

/-- The rules of a chain, as they are read. -/
def rulesOf (c : NftChain Address) : List (Rule (Packet Address) String (Verdict Address)) :=
  c.rules.map (·.rule)

theorem chainsOn_eq (sorted : List (NftChain Address))
    (hfilter : chains.filter (fun c => c.hook = hook) = sorted)
    (hsorted : sorted.Pairwise fun a b => a.priority.value ≤ b.priority.value) :
    chainsOn chains hook = sorted.map rulesOf := by
  rw [chainsOn, hfilter, List.mergeSort_of_pairwise (by simpa using hsorted)]
  rfl

end Hooks

variable (state : FirewallState) (p : Packet Ipv4)

/-- The chains of a state, whether or not there is traffic to count. -/
theorem onHook_chainsV4 {hook : Hook} {c traffic : NftChain Ipv4}
    (hboth : ([forwardChainV4 state, inputChain] ++ natChainsV4 state ++
      [trafficOutputChain state, trafficInputChain state, trafficForwardChain state]).filter
        (fun c => c.hook = hook) = [c, traffic])
    (hone : ([forwardChainV4 state, inputChain] ++ natChainsV4 state).filter
      (fun c => c.hook = hook) = [c])
    (hle : c.priority.value ≤ traffic.priority.value)
    (hnone : state.instances = [] → traffic.rules = []) :
    onHook (chainsV4 state) hook p =
      PacketFilter.traverse Verdict.effect [rulesOf c, rulesOf traffic] p := by
  rw [onHook, chainsV4, trafficChainsV4]
  by_cases h : state.instances = []
  · rw [if_pos (List.isEmpty_iff.mpr h), List.append_nil,
      chainsOn_eq _ hone (List.pairwise_singleton _ _)]
    have hempty : rulesOf traffic = [] := by rw [rulesOf, hnone h, List.map_nil]
    rw [hempty]
    simp only [List.map_cons, List.map_nil, PacketFilter.traverse]
    split <;> rfl
  · have hsorted : [c, traffic].Pairwise fun a b => a.priority.value ≤ b.priority.value := by
      simpa using hle
    rw [if_neg (by simpa using h), chainsOn_eq _ hboth hsorted]
    rfl

theorem onHook_forward :
    onHook (chainsV4 state) .forward p = PacketFilter.traverse Verdict.effect
      [rulesOf (forwardChainV4 state), rulesOf (trafficForwardChain state)] p :=
  onHook_chainsV4 state p rfl rfl (by decide : filterPriority.value ≤ trafficChainPriority.value)
    fun h => by simp [trafficForwardChain, h]

theorem onHook_input :
    onHook (chainsV4 state) .input p = PacketFilter.traverse Verdict.effect
      [rulesOf inputChain, rulesOf (trafficInputChain state)] p :=
  onHook_chainsV4 state p rfl rfl (by decide : filterPriority.value ≤ trafficChainPriority.value)
    fun h => by simp [trafficInputChain, h]

theorem onHook_output :
    onHook (chainsV4 state) .output p = PacketFilter.traverse Verdict.effect
      [rulesOf (outputChain state), rulesOf (trafficOutputChain state)] p :=
  onHook_chainsV4 state p rfl rfl (by decide : outputNatPriority.value ≤ filterPriority.value)
    fun h => by simp [trafficOutputChain, h]

/-- The hooks no traffic is counted on. -/
theorem onHook_of_filter {hook : Hook} {c : NftChain Ipv4}
    (h : ∀ traffic, traffic = [] ∨
      traffic = [trafficOutputChain state, trafficInputChain state, trafficForwardChain state] →
      ([forwardChainV4 state, inputChain] ++ natChainsV4 state ++ traffic).filter
        (fun c => c.hook = hook) = [c]) :
    onHook (chainsV4 state) hook p = PacketFilter.traverse Verdict.effect [rulesOf c] p := by
  have htraffic : trafficChainsV4 state = [] ∨ trafficChainsV4 state =
      [trafficOutputChain state, trafficInputChain state, trafficForwardChain state] := by
    rw [trafficChainsV4]
    split
    · exact .inl rfl
    · exact .inr rfl
  rw [onHook, chainsV4, chainsOn_eq _ (h _ htraffic) (List.pairwise_singleton _ _)]
  rfl

theorem onHook_prerouting :
    onHook (chainsV4 state) .prerouting p =
      PacketFilter.traverse Verdict.effect [rulesOf (preroutingChain state)] p :=
  onHook_of_filter state p fun _ h => by rcases h with rfl | rfl <;> rfl

theorem onHook_postrouting :
    onHook (chainsV4 state) .postrouting p =
      PacketFilter.traverse Verdict.effect [rulesOf (postroutingChain state)] p :=
  onHook_of_filter state p fun _ h => by rcases h with rfl | rfl <;> rfl

theorem onHook_forwardV6 (p : Packet Ipv6) :
    onHook (chainsV6 state) .forward p =
      PacketFilter.traverse Verdict.effect [rulesOf (forwardChainV6 state)] p := by
  rw [onHook, chainsOn_eq [forwardChainV6 state] rfl (List.pairwise_singleton _ _)]
  rfl

theorem onHook_inputV6 (p : Packet Ipv6) :
    onHook (chainsV6 state) .input p =
      PacketFilter.traverse Verdict.effect [rulesOf inputChain] p := by
  rw [onHook, chainsOn_eq [inputChain] rfl (List.pairwise_singleton _ _)]
  rfl

/-! ### Refusals -/

section Refusals

variable {Address : Type} {p : Packet Address} {ms : List (Match Address)}
  {verdict v : Verdict Address}

/-- A rejection, with a reset or without. -/
def Rejects (v : Verdict Address) : Prop := ∃ tcpReset comment, v = .reject tcpReset comment

theorem verdict?_deciding :
    (NftRule.deciding ms verdict).rule.verdict? p = some v ↔
      (∀ m ∈ ms, m.holds p = true) ∧ verdict = v := by
  rw [Rule.verdict?_eq_some]
  simp [NftRule.deciding, NftRule.rule]

/-- Every verdict these rules have of the packet is a rejection. -/
def OnlyReject (rules : List (NftRule Address)) (p : Packet Address) : Prop :=
  ∀ r ∈ rules, ∀ v, r.rule.verdict? p = some v → Rejects v

theorem OnlyReject.append {rules rules' : List (NftRule Address)} (h : OnlyReject rules p)
    (h' : OnlyReject rules' p) : OnlyReject (rules ++ rules') p := by
  intro r hr
  rcases List.mem_append.mp hr with hr | hr
  · exact h r hr
  · exact h' r hr

theorem onlyReject_nil : OnlyReject ([] : List (NftRule Address)) p :=
  fun _ h => absurd h List.not_mem_nil

theorem OnlyReject.cons_reject {rules : List (NftRule Address)} {tcpReset : Bool}
    {comment : String} (h : OnlyReject rules p) :
    OnlyReject (.deciding ms (.reject tcpReset comment) :: rules) p := by
  intro r hr v hv
  rcases List.mem_cons.mp hr with rfl | hr
  · exact ⟨tcpReset, comment, (verdict?_deciding.mp hv).2.symm⟩
  · exact h r hr v hv

/-- A rule with a match that does not hold decides nothing. -/
theorem OnlyReject.cons_of_not_holds {rules : List (NftRule Address)} {m : Match Address}
    (h : OnlyReject rules p) (hm : m ∈ ms) (hp : m.holds p = false) :
    OnlyReject (.deciding ms verdict :: rules) p := by
  intro r hr v hv
  rcases List.mem_cons.mp hr with rfl | hr
  · have hholds := (verdict?_deciding.mp hv).1 m hm
    rw [hp] at hholds
    cases hholds
  · exact h r hr v hv

/-- **A refusal.** Rules that only reject, and one of them that applies, at the head of the first
chain of a hook: the packet is refused. -/
theorem refused_of_mem {c : NftChain Address} {rest : List (NftRule Address)}
    (rejecting : List (NftRule Address)) (ms : List (Match Address)) (verdict : Verdict Address)
    {chains : List (List (Rule (Packet Address) String (Verdict Address)))}
    (hrules : c.rules = rejecting ++ rest) (honly : OnlyReject rejecting p)
    (hmem : .deciding ms verdict ∈ rejecting) (hms : ∀ m ∈ ms, m.holds p = true) :
    (PacketFilter.traverse Verdict.effect (rulesOf c :: chains) p).2 = none := by
  obtain ⟨before, after, rfl⟩ := List.append_of_mem hmem
  have hverdict : (NftRule.deciding ms verdict).rule.verdict? p = some verdict :=
    verdict?_deciding.mpr ⟨hms, rfl⟩
  obtain ⟨v, hv, tcpReset, comment, rfl⟩ := exists_verdict?_of_mem (V := Rejects)
    (before.map (·.rule)) ((after ++ rest).map (·.rule)) hverdict
    (honly _ hmem _ hverdict) (by
      intro r hr v hv
      obtain ⟨line, hline, rfl⟩ := List.mem_map.mp hr
      exact honly line (List.mem_append_left _ hline) v hv)
  have heq : rulesOf c = before.map (·.rule) ++
      (NftRule.deciding ms verdict).rule :: (after ++ rest).map (·.rule) := by
    rw [rulesOf, hrules]
    simp
  rw [heq, traverse_cons_of_ends hv rfl]

end Refusals

variable {state p}

theorem onlyReject_deniedEgressRules {Address : Type} {p : Packet Address}
    (ranges : List (AddressRange Address)) : OnlyReject (deniedEgressRules ranges) p := by
  induction ranges with
  | nil => exact onlyReject_nil
  | cons range ranges ih => exact ih.cons_reject.cons_reject

theorem onlyReject_httpThroughProxyRules (instances : List ForwardedInstance) :
    OnlyReject (httpThroughProxyRules instances) p := by
  intro r hr v hv
  obtain ⟨instance_, -, hr⟩ := List.mem_flatMap.mp hr
  obtain ⟨port, -, rfl⟩ := List.mem_map.mp hr
  exact ⟨true, _, (verdict?_deciding.mp hv).2.symm⟩

/-- The last rules of a forward chain only reject what belongs to no connection. -/
theorem onlyReject_forwardChainV4 (h : ¬p.Tracked) :
    OnlyReject (forwardChainV4 state).rules p := by
  have htracked : Match.holds p .ctStateTracked = false := decide_eq_false h
  refine ((onlyReject_deniedEgressRules _).append
    (onlyReject_httpThroughProxyRules _)).append ?_
  exact onlyReject_nil.cons_reject.cons_reject.cons_reject.cons_reject.cons_of_not_holds
    List.mem_cons_self htracked

theorem onlyReject_forwardChainV6 {p : Packet Ipv6} (h : ¬p.Tracked) :
    OnlyReject (forwardChainV6 state).rules p := by
  have htracked : Match.holds p .ctStateTracked = false := decide_eq_false h
  refine (onlyReject_deniedEgressRules _).append ?_
  exact onlyReject_nil.cons_reject.cons_reject.cons_reject.cons_of_not_holds
    List.mem_cons_self htracked

theorem onlyReject_inputChain {Address : Type} {p : Packet Address} (h : ¬p.Tracked) :
    OnlyReject inputChain.rules p := by
  have htracked : Match.holds p .ctStateTracked = false := decide_eq_false h
  exact onlyReject_nil.cons_reject.cons_of_not_holds
    (List.mem_cons_of_mem _ List.mem_cons_self) htracked

/-! ### Rewritten ports -/

/-- A rule of prerouting that decides is that of a raw port the packet is addressed to. -/
theorem verdict?_prerouting {r : NftRule Ipv4} (hr : r ∈ (preroutingChain state).rules)
    {v : Verdict Ipv4} (hv : r.rule.verdict? p = some v) :
    isTap p.iifname = false ∧ p.Raw ∧ ∃ instance_ ∈ state.instances, ∃ port ∈ instance_.ports,
      port.raw = true ∧ p.dport = port.hostPort ∧
        v = .dnat instance_.guestIpv4 port.guestPort := by
  obtain ⟨instance_, hinstance, hr⟩ := List.mem_flatMap.mp hr
  obtain ⟨port, hport, rfl⟩ := List.mem_map.mp hr
  obtain ⟨hport, hraw⟩ := List.mem_filter.mp hport
  obtain ⟨hholds, hverdict⟩ := verdict?_deciding.mp hv
  simp only [List.mem_cons, List.not_mem_nil, or_false, forall_eq_or_imp, forall_eq,
    ForwardedPort.dportMatch, hraw, if_true, Match.holds, Bool.not_eq_true', Bool.and_eq_true,
    decide_eq_true_eq] at hholds
  exact ⟨hholds.1, hholds.2.1, instance_, hinstance, port, hport, hraw, hholds.2.2,
    hverdict.symm⟩

theorem counter?_deciding {Address : Type} {p : Packet Address} {ms : List (Match Address)}
    {verdict : Verdict Address} : (NftRule.deciding ms verdict).rule.counter? p = none := by
  rw [Rule.counter?]
  split
  · rename_i haction
    cases haction
  · rfl

/-- A chain whose lines all decide counts nothing. -/
theorem counted_rulesOf {Address : Type} {c : NftChain Address}
    (h : ∀ r ∈ c.rules, ∃ ms verdict, r = .deciding ms verdict) (p : Packet Address) :
    counted (rulesOf c) p = [] := by
  refine counted_eq_nil (fun r hr p => ?_) p
  obtain ⟨line, hline, rfl⟩ := List.mem_map.mp hr
  obtain ⟨ms, verdict, rfl⟩ := h line hline
  exact counter?_deciding

theorem deciding_prerouting :
    ∀ r ∈ (preroutingChain state).rules, ∃ ms verdict, r = .deciding ms verdict := by
  intro r hr
  obtain ⟨instance_, -, hr⟩ := List.mem_flatMap.mp hr
  obtain ⟨port, -, rfl⟩ := List.mem_map.mp hr
  exact ⟨_, _, rfl⟩

theorem prerouting_rewrites (state : FirewallState) (p : Packet Ipv4) :
    ∃ q, onHook (chainsV4 state) .prerouting p = ([], some q) ∧
      (q = p ∨ isTap p.iifname = false ∧ p.Raw ∧ ∃ instance_ ∈ state.instances,
        ∃ port ∈ instance_.ports, port.raw = true ∧ p.dport = port.hostPort ∧
          q = forwardedTo p instance_ port) := by
  rw [onHook_prerouting, PacketFilter.traverse, counted_rulesOf deciding_prerouting]
  cases hverdict : verdict? (rulesOf (preroutingChain state)) p with
  | none => exact ⟨p, rfl, .inl rfl⟩
  | some v =>
    obtain ⟨r, hr, hv⟩ := exists_mem_of_verdict? hverdict
    obtain ⟨line, hline, rfl⟩ := List.mem_map.mp hr
    obtain ⟨htap, hraw, instance_, hinstance, port, hport, hkind, hdport, rfl⟩ :=
      verdict?_prerouting hline hv
    exact ⟨forwardedTo p instance_ port, rfl,
      .inr ⟨htap, hraw, instance_, hinstance, port, hport, hkind, hdport, rfl⟩⟩

/-- A host port is that of one port of one instance. -/
theorem WellFormed.port_unique (h : state.WellFormed) {a b : ForwardedInstance}
    (ha : a ∈ state.instances) (hb : b ∈ state.instances) {x y : ForwardedPort}
    (hx : x ∈ a.ports) (hy : y ∈ b.ports) (heq : x.hostPort = y.hostPort) : a = b ∧ x = y := by
  obtain ⟨hports, hapart⟩ := List.nodup_flatMap.mp h.hostPorts
  have hab : a = b := by
    by_contra hne
    have : Std.Symm (Function.onFun List.Disjoint fun instance_ : ForwardedInstance =>
        instance_.ports.map (·.hostPort)) := ⟨fun _ _ h => h.symm⟩
    have hdisjoint := hapart.forall ha hb hne
    exact hdisjoint (List.mem_map_of_mem hx) (heq ▸ List.mem_map_of_mem hy)
  subst hab
  exact ⟨rfl, List.inj_on_of_nodup_map (hports a ha) hx hy heq⟩

theorem WellFormed.prerouting_to (h : state.WellFormed) (htap : isTap p.iifname = false)
    (hraw : p.Raw) {instance_ : ForwardedInstance} (hinstance : instance_ ∈ state.instances)
    {port : ForwardedPort} (hport : port ∈ instance_.ports) (hkind : port.raw = true)
    (hdport : p.dport = port.hostPort) :
    onHook (chainsV4 state) .prerouting p = ([], some (forwardedTo p instance_ port)) := by
  have hmem : .deciding [.iifnameNot, port.dportMatch] (.dnat instance_.guestIpv4 port.guestPort) ∈
      (preroutingChain state).rules :=
    List.mem_flatMap.mpr ⟨instance_, hinstance,
      List.mem_map.mpr ⟨port, List.mem_filter.mpr ⟨hport, hkind⟩, rfl⟩⟩
  have hholds : ∀ m ∈ [Match.iifnameNot, port.dportMatch], m.holds p = true := by
    simp [ForwardedPort.dportMatch, hkind, Match.holds, htap, hraw, hdport]
  obtain ⟨before, after, hrules⟩ := List.append_of_mem hmem
  -- the first rule for this host port decides, and another one for it would be the same port's
  obtain ⟨v, hv, rfl⟩ := exists_verdict?_of_mem
    (V := (· = Verdict.dnat instance_.guestIpv4 port.guestPort))
    (before.map (·.rule)) (after.map (·.rule))
    (verdict?_deciding.mpr ⟨hholds, rfl⟩) rfl (by
      intro r hr v hv
      obtain ⟨line, hline, rfl⟩ := List.mem_map.mp hr
      obtain ⟨-, -, other, hother, otherPort, hotherPort, -, hsame, rfl⟩ :=
        verdict?_prerouting (hrules ▸ List.mem_append_left _ hline) hv
      obtain ⟨rfl, rfl⟩ :=
        h.port_unique hother hinstance hotherPort hport (hsame.symm.trans hdport)
      rfl)
  have hverdict : verdict? (rulesOf (preroutingChain state)) p =
      some (.dnat instance_.guestIpv4 port.guestPort) := by
    rw [rulesOf, hrules, List.map_append, List.map_cons]
    exact hv
  rw [onHook_prerouting, PacketFilter.traverse, counted_rulesOf deciding_prerouting, hverdict]
  rfl

/-! ### Counters -/

theorem counter?_counting {Address : Type} {p : Packet Address} {ms : List (Match Address)}
    {counter name : String} : (NftRule.counting ms counter).rule.counter? p = some name ↔
      (∀ m ∈ ms, m.holds p = true) ∧ counter = name := by
  rw [Rule.counter?_eq_some]
  simp [NftRule.counting, NftRule.rule]

theorem counter?_counting_eq_none {Address : Type} {p : Packet Address} {ms : List (Match Address)}
    {counter : String} {m : Match Address} (hm : m ∈ ms) (hp : m.holds p = false) :
    (NftRule.counting ms counter).rule.counter? p = none := by
  cases h : (NftRule.counting ms counter).rule.counter? p with
  | none => rfl
  | some name =>
    have hholds := (counter?_counting.mp h).1 m hm
    rw [hp] at hholds
    cases hholds

/-- A chain whose lines all count decides nothing. -/
theorem verdict?_rulesOf {Address : Type} {c : NftChain Address}
    (h : ∀ r ∈ c.rules, ∃ ms counter, r = .counting ms counter) (p : Packet Address) :
    verdict? (rulesOf c) p = none := by
  refine verdict?_eq_none.mpr fun r hr => ?_
  obtain ⟨line, hline, rfl⟩ := List.mem_map.mp hr
  obtain ⟨ms, counter, rfl⟩ := h line hline
  rw [Rule.verdict?]
  split
  · rename_i haction
    cases haction
  · rfl

section Names

theorem appReceivedCounterName_injective {a b : AppId}
    (h : appReceivedCounterName a = appReceivedCounterName b) : a = b := by
  have htext := (String.append_right_inj _).mp h
  cases a
  cases b
  exact congrArg Id.mk htext

theorem appSentCounterName_injective {a b : AppId}
    (h : appSentCounterName a = appSentCounterName b) : a = b := by
  have htext := (String.append_right_inj _).mp h
  cases a
  cases b
  exact congrArg Id.mk htext

theorem appReceivedCounterName_ne_appSentCounterName (a b : AppId) :
    appReceivedCounterName a ≠ appSentCounterName b := by
  intro h
  have hchars := congrArg String.toList h
  simp [appReceivedCounterName, appSentCounterName, appReceivedCounterPrefix,
    appSentCounterPrefix] at hchars

end Names

theorem WellFormed.instance_unique (h : state.WellFormed) {a b : ForwardedInstance}
    (ha : a ∈ state.instances) (hb : b ∈ state.instances) (heq : a.appId = b.appId) : a = b :=
  List.inj_on_of_nodup_map h.apps ha hb heq

theorem contains_ipv4 {a b : Ipv4} : (ipv4 a).contains b = true ↔ b = a := by
  simp [ipv4, single]

/-- What some lines count of a packet. -/
def countedBy (lines : List (NftRule Ipv4)) (q : Packet Ipv4) : List String :=
  lines.filterMap fun r => r.rule.counter? q

theorem mem_countedBy {lines : List (NftRule Ipv4)} {q : Packet Ipv4} {name : String} :
    name ∈ countedBy lines q ↔ ∃ r ∈ lines, r.rule.counter? q = some name := by
  simp [countedBy]

/-- Lines that count for one instance: of a packet to its address, or from it over a tap, once;
and of one packet for one address only. -/
structure CountsOwn (lines : ForwardedInstance → List (NftRule Ipv4)) : Prop where
  own : ∀ instance_ q, ∀ name ∈ countedBy (lines instance_) q,
    (name = appReceivedCounterName instance_.appId ∧ q.daddr = instance_.guestIpv4) ∨
      (name = appSentCounterName instance_.appId ∧ isTap q.iifname = true ∧
        q.saddr = instance_.guestIpv4)
  once : ∀ instance_ q, (countedBy (lines instance_) q).length ≤ 1
  address : ∀ q, ∃ address, ∀ instance_, countedBy (lines instance_) q ≠ [] →
    instance_.guestIpv4 = address

/-- At most one of some lists with distinct keys is there, and it has at most one element. -/
theorem length_flatMap_le_one {α β γ : Type} {l : List α} {key : α → β} {f : α → List γ} {b : β}
    (hl : (l.map key).Nodup) (honce : ∀ a, (f a).length ≤ 1) (hkey : ∀ a, f a ≠ [] → key a = b) :
    (l.flatMap f).length ≤ 1 := by
  induction l with
  | nil => simp
  | cons a l ih =>
    rw [List.map_cons, List.nodup_cons] at hl
    rw [List.flatMap_cons, List.length_append]
    by_cases ha : f a = []
    · rw [ha, List.length_nil, Nat.zero_add]
      exact ih hl.2
    · have hrest : l.flatMap f = [] := by
        rw [List.flatMap_eq_nil_iff]
        intro a' ha'
        by_contra hne
        exact hl.1 (hkey a ha ▸ hkey a' hne ▸ List.mem_map_of_mem ha')
      rw [hrest]
      exact honce a

section Lines

variable {instance_ : ForwardedInstance} {q : Packet Ipv4} {name : String}

def trafficOutputLines (instance_ : ForwardedInstance) : List (NftRule Ipv4) :=
  [.counting [.saddr loopback, .daddr (ipv4 instance_.guestIpv4)]
    (appReceivedCounterName instance_.appId)]

def trafficInputLines (instance_ : ForwardedInstance) : List (NftRule Ipv4) :=
  [.counting [.iifname, .saddr (ipv4 instance_.guestIpv4)] (appSentCounterName instance_.appId)]

def trafficForwardLines (instance_ : ForwardedInstance) : List (NftRule Ipv4) :=
  [.counting [.iifnameNot, .oifname, .daddr (ipv4 instance_.guestIpv4)]
      (appReceivedCounterName instance_.appId),
    .counting [.iifname, .oifnameNot, .saddr (ipv4 instance_.guestIpv4)]
      (appSentCounterName instance_.appId)]

theorem mem_trafficOutput (h : name ∈ countedBy (trafficOutputLines instance_) q) :
    name = appReceivedCounterName instance_.appId ∧ q.daddr = instance_.guestIpv4 := by
  obtain ⟨r, hr, hname⟩ := mem_countedBy.mp h
  rw [List.mem_singleton.mp hr, counter?_counting] at hname
  obtain ⟨hholds, rfl⟩ := hname
  simp only [List.mem_cons, List.not_mem_nil, or_false, forall_eq_or_imp, forall_eq,
    Match.holds, contains_ipv4] at hholds
  exact ⟨rfl, hholds.2⟩

theorem mem_trafficInput (h : name ∈ countedBy (trafficInputLines instance_) q) :
    name = appSentCounterName instance_.appId ∧ isTap q.iifname = true ∧
      q.saddr = instance_.guestIpv4 := by
  obtain ⟨r, hr, hname⟩ := mem_countedBy.mp h
  rw [List.mem_singleton.mp hr, counter?_counting] at hname
  obtain ⟨hholds, rfl⟩ := hname
  simp only [List.mem_cons, List.not_mem_nil, or_false, forall_eq_or_imp, forall_eq,
    Match.holds, contains_ipv4] at hholds
  exact ⟨rfl, hholds⟩

theorem mem_trafficForward (h : name ∈ countedBy (trafficForwardLines instance_) q) :
    (name = appReceivedCounterName instance_.appId ∧ isTap q.iifname = false ∧
        q.daddr = instance_.guestIpv4) ∨
      (name = appSentCounterName instance_.appId ∧ isTap q.iifname = true ∧
        q.saddr = instance_.guestIpv4) := by
  obtain ⟨r, hr, hname⟩ := mem_countedBy.mp h
  simp only [trafficForwardLines, List.mem_cons, List.not_mem_nil, or_false] at hr
  rcases hr with rfl | rfl
  · obtain ⟨hholds, rfl⟩ := counter?_counting.mp hname
    simp only [List.mem_cons, List.not_mem_nil, or_false, forall_eq_or_imp, forall_eq,
      Match.holds, contains_ipv4, Bool.not_eq_true'] at hholds
    exact .inl ⟨rfl, hholds.1, hholds.2.2⟩
  · obtain ⟨hholds, rfl⟩ := counter?_counting.mp hname
    simp only [List.mem_cons, List.not_mem_nil, or_false, forall_eq_or_imp, forall_eq,
      Match.holds, contains_ipv4, Bool.not_eq_true'] at hholds
    exact .inr ⟨rfl, hholds.1, hholds.2.2⟩

theorem countsOwn_output : CountsOwn trafficOutputLines where
  own instance_ q name h := .inl (mem_trafficOutput h)
  once instance_ q := List.length_filterMap_le _ _
  address q := by
    refine ⟨q.daddr, fun instance_ h => ?_⟩
    obtain ⟨name, hname⟩ := List.exists_mem_of_ne_nil _ h
    exact (mem_trafficOutput hname).2.symm

theorem countsOwn_input : CountsOwn trafficInputLines where
  own instance_ q name h := .inr (mem_trafficInput h)
  once instance_ q := List.length_filterMap_le _ _
  address q := by
    refine ⟨q.saddr, fun instance_ h => ?_⟩
    obtain ⟨name, hname⟩ := List.exists_mem_of_ne_nil _ h
    exact (mem_trafficInput hname).2.2.symm

theorem countsOwn_forward : CountsOwn trafficForwardLines where
  own instance_ q name h := by
    rcases mem_trafficForward h with ⟨hname, -, hdaddr⟩ | hsent
    · exact .inl ⟨hname, hdaddr⟩
    · exact .inr hsent
  once instance_ q := by
    -- one of the two asks for a tap it came in by, the other for none
    by_cases htap : isTap q.iifname = true
    · have hreceived : (NftRule.counting [.iifnameNot, .oifname,
          .daddr (ipv4 instance_.guestIpv4)]
          (appReceivedCounterName instance_.appId)).rule.counter? q = none :=
        counter?_counting_eq_none List.mem_cons_self (by rw [Match.holds, htap]; rfl)
      simp only [countedBy, trafficForwardLines, List.filterMap_cons, hreceived,
        List.filterMap_nil]
      split <;> simp
    · have hsent : (NftRule.counting [.iifname, .oifnameNot, .saddr (ipv4 instance_.guestIpv4)]
          (appSentCounterName instance_.appId)).rule.counter? q = none :=
        counter?_counting_eq_none List.mem_cons_self (by simpa [Match.holds] using htap)
      simp only [countedBy, trafficForwardLines, List.filterMap_cons, hsent, List.filterMap_nil]
      split <;> simp
  address q := by
    refine ⟨if isTap q.iifname then q.saddr else q.daddr, fun instance_ h => ?_⟩
    obtain ⟨name, hname⟩ := List.exists_mem_of_ne_nil _ h
    rcases mem_trafficForward hname with ⟨-, htap, hdaddr⟩ | ⟨-, htap, hsaddr⟩
    · rw [htap]
      exact hdaddr.symm
    · rw [htap]
      exact hsaddr.symm

end Lines

/-- A verdict that leaves alone where a packet comes from. -/
def KeepsSource (v : Verdict Ipv4) : Prop :=
  ∀ p q, v.effect p = some q → q.iifname = p.iifname ∧ q.saddr = p.saddr

theorem keepsSource_accept : KeepsSource .accept := by
  rintro p q ⟨⟩
  exact ⟨rfl, rfl⟩

theorem keepsSource_reject (tcpReset : Bool) (comment : String) :
    KeepsSource (.reject tcpReset comment) := by
  rintro p q ⟨⟩

theorem keepsSource_dnat (address : Ipv4) (port : ℕ) : KeepsSource (.dnat address port) := by
  rintro p q ⟨⟩
  exact ⟨rfl, rfl⟩

/-- **A hook with a chain that decides and one that counts.** What the first refuses is not
counted; what it lets on is counted as it leaves it, for the instances it is of. -/
theorem traverse_counting {c traffic : NftChain Ipv4}
    {lines : ForwardedInstance → List (NftRule Ipv4)}
    (hc : ∀ r ∈ c.rules, ∃ ms verdict, r = .deciding ms verdict ∧ KeepsSource verdict)
    (htraffic : traffic.rules = state.instances.flatMap lines)
    (hlines : ∀ instance_, ∀ r ∈ lines instance_, ∃ ms counter, r = .counting ms counter)
    (p : Packet Ipv4) :
    PacketFilter.traverse Verdict.effect [rulesOf c, rulesOf traffic] p = ([], none) ∨
      ∃ q, q.iifname = p.iifname ∧ q.saddr = p.saddr ∧
        PacketFilter.traverse Verdict.effect [rulesOf c, rulesOf traffic] p =
          (state.instances.flatMap fun instance_ => countedBy (lines instance_) q, some q) := by
  have hdeciding : ∀ r ∈ c.rules, ∃ ms verdict, r = .deciding ms verdict := by
    intro r hr
    obtain ⟨ms, verdict, rfl, -⟩ := hc r hr
    exact ⟨ms, verdict, rfl⟩
  have hcounting : ∀ r ∈ traffic.rules, ∃ ms counter, r = .counting ms counter := by
    intro r hr
    rw [htraffic] at hr
    obtain ⟨instance_, -, hr⟩ := List.mem_flatMap.mp hr
    exact hlines instance_ r hr
  -- what the deciding chain refuses never comes to the counting one
  cases hpass : (verdict? (rulesOf c) p).elim (some p) (Verdict.effect · p) with
  | none =>
    left
    rw [PacketFilter.traverse, hpass, counted_rulesOf hdeciding]
  | some q =>
    right
    refine ⟨q, ?_⟩
    have hsource : q.iifname = p.iifname ∧ q.saddr = p.saddr := by
      cases hverdict : verdict? (rulesOf c) p with
      | none =>
        rw [hverdict] at hpass
        cases hpass
        exact ⟨rfl, rfl⟩
      | some v =>
        rw [hverdict] at hpass
        obtain ⟨r, hr, hv⟩ := exists_mem_of_verdict? hverdict
        obtain ⟨line, hline, rfl⟩ := List.mem_map.mp hr
        obtain ⟨ms, verdict, rfl, hkeeps⟩ := hc line hline
        rw [← (verdict?_deciding.mp hv).2] at hpass
        exact hkeeps p q hpass
    refine ⟨hsource.1, hsource.2, ?_⟩
    have hcounted : counted (rulesOf traffic) q =
        state.instances.flatMap fun instance_ => countedBy (lines instance_) q := by
      rw [counted_of_verdict?_eq_none (verdict?_rulesOf hcounting q), rulesOf, htraffic,
        List.filterMap_map, List.filterMap_flatMap]
      rfl
    rw [traverse_cons_of_passes hpass, counted_rulesOf hdeciding, PacketFilter.traverse,
      verdict?_rulesOf hcounting, hcounted]
    simp only [Option.elim_none, PacketFilter.traverse, List.append_nil, List.nil_append]

theorem deciding_forwardV4 : ∀ r ∈ (forwardChainV4 state).rules,
    ∃ ms verdict, r = .deciding ms verdict ∧ KeepsSource verdict := by
  intro r hr
  simp only [forwardChainV4, List.mem_append, List.mem_cons, List.not_mem_nil, or_false,
    deniedEgressRules, httpThroughProxyRules, List.mem_flatMap, List.mem_map] at hr
  rcases hr with
    (⟨range, -, rfl | rfl⟩ | ⟨instance_, -, port, -, rfl⟩) | rfl | rfl | rfl | rfl | rfl
  all_goals first
    | exact ⟨_, _, rfl, keepsSource_reject _ _⟩
    | exact ⟨_, _, rfl, keepsSource_accept⟩

theorem deciding_input : ∀ r ∈ (inputChain : NftChain Ipv4).rules,
    ∃ ms verdict, r = .deciding ms verdict ∧ KeepsSource verdict := by
  intro r hr
  simp only [inputChain, List.mem_cons, List.not_mem_nil, or_false] at hr
  rcases hr with rfl | rfl
  · exact ⟨_, _, rfl, keepsSource_accept⟩
  · exact ⟨_, _, rfl, keepsSource_reject _ _⟩

theorem deciding_output : ∀ r ∈ (outputChain state).rules,
    ∃ ms verdict, r = .deciding ms verdict ∧ KeepsSource verdict := by
  intro r hr
  obtain ⟨instance_, -, hr⟩ := List.mem_flatMap.mp hr
  obtain ⟨port, -, rfl⟩ := List.mem_map.mp hr
  exact ⟨_, _, rfl, keepsSource_dnat _ _⟩

theorem deciding_postrouting :
    ∀ r ∈ (postroutingChain state).rules, ∃ ms verdict, r = .deciding ms verdict := by
  intro r hr
  rcases List.mem_append.mp hr with hr | hr
  · obtain ⟨instance_, -, rfl⟩ := List.mem_map.mp hr
    exact ⟨_, _, rfl⟩
  · exact ⟨_, _, List.mem_singleton.mp hr⟩

/-- What a hook counts: nothing, or a packet it lets on, for the instances it is of. -/
theorem counted_onHook (state : FirewallState) (hook : Hook) (p : Packet Ipv4) :
    (onHook (chainsV4 state) hook p).1 = [] ∨
      ∃ lines q, CountsOwn lines ∧ q.iifname = p.iifname ∧ q.saddr = p.saddr ∧
        onHook (chainsV4 state) hook p =
          (state.instances.flatMap fun instance_ => countedBy (lines instance_) q, some q) := by
  -- three of the hooks have a counting chain behind the deciding one
  cases hook with
  | prerouting =>
    obtain ⟨q, hq, -⟩ := prerouting_rewrites state p
    exact .inl (congrArg Prod.fst hq)
  | input =>
    have htraffic : (trafficInputChain state).rules = state.instances.flatMap trafficInputLines :=
      List.map_eq_flatMap
    rw [onHook_input]
    rcases traverse_counting deciding_input htraffic (by simp [trafficInputLines]) p with
      h | ⟨q, hq⟩
    · exact .inl (congrArg Prod.fst h)
    · exact .inr ⟨_, q, countsOwn_input, hq⟩
  | forward =>
    have htraffic :
        (trafficForwardChain state).rules = state.instances.flatMap trafficForwardLines := rfl
    rw [onHook_forward]
    rcases traverse_counting deciding_forwardV4 htraffic (by simp [trafficForwardLines]) p with
      h | ⟨q, hq⟩
    · exact .inl (congrArg Prod.fst h)
    · exact .inr ⟨_, q, countsOwn_forward, hq⟩
  | output =>
    have htraffic :
        (trafficOutputChain state).rules = state.instances.flatMap trafficOutputLines :=
      List.map_eq_flatMap
    rw [onHook_output]
    rcases traverse_counting deciding_output htraffic (by simp [trafficOutputLines]) p with
      h | ⟨q, hq⟩
    · exact .inl (congrArg Prod.fst h)
    · exact .inr ⟨_, q, countsOwn_output, hq⟩
  | postrouting =>
    left
    rw [onHook_postrouting, PacketFilter.traverse, counted_rulesOf deciding_postrouting]
    split <;> rfl

/-- A counter that counts is the received or the sent one of an instance the packet is of. -/
theorem own_of_mem_onHook {hook : Hook} {name : String}
    (h : name ∈ (onHook (chainsV4 state) hook p).1) :
    ∃ q, (onHook (chainsV4 state) hook p).2 = some q ∧ ∃ instance_ ∈ state.instances,
      (name = appReceivedCounterName instance_.appId ∧ q.daddr = instance_.guestIpv4) ∨
        (name = appSentCounterName instance_.appId ∧ isTap p.iifname = true ∧
          p.saddr = instance_.guestIpv4) := by
  rcases counted_onHook state hook p with hnil | ⟨lines, q, hown, hiif, hsaddr, hq⟩
  · rw [hnil] at h
    exact absurd h List.not_mem_nil
  · rw [hq] at h ⊢
    obtain ⟨instance_, hinstance, hname⟩ := List.mem_flatMap.mp h
    refine ⟨q, rfl, instance_, hinstance, ?_⟩
    rw [← hiif, ← hsaddr]
    exact hown.own instance_ q name hname

/-! ### Isolation -/

/-- **Firewall isolation.** -/
theorem WellFormed.isolates (h : state.WellFormed) : state.Isolates where
  deniedEgressV4 p htap range hrange hdaddr := by
    rw [RefusesV4, onHook_forward]
    refine refused_of_mem (deniedEgressRules state.deniedEgressAddressesV4) _ _
      (List.append_assoc _ _ _) (onlyReject_deniedEgressRules _)
      (List.mem_flatMap.mpr ⟨range, hrange, List.mem_cons_of_mem _ List.mem_cons_self⟩) ?_
    simp [Match.holds, htap, hdaddr]
  deniedEgressV6 p htap range hrange hdaddr := by
    rw [RefusesV6, onHook_forwardV6]
    refine refused_of_mem (deniedEgressRules state.deniedEgressAddressesV6) _ _
      rfl (onlyReject_deniedEgressRules _)
      (List.mem_flatMap.mpr ⟨range, hrange, List.mem_cons_of_mem _ List.mem_cons_self⟩) ?_
    simp [Match.holds, htap, hdaddr]
  guestToGuestV4 p htap htracked hreaches := by
    rw [RefusesV4, onHook_forward]
    -- no rule of the chain accepts such a packet, so one that rejects it is enough
    have honly : OnlyReject (forwardChainV4 state).rules p :=
      onlyReject_forwardChainV4 htracked
    have hrules := (List.append_nil (forwardChainV4 state).rules).symm
    rcases hreaches with hoif | hguest | ⟨range, hrange, hdaddr⟩ | hmetadata
    · refine refused_of_mem _ [.iifname, .oifname]
        (.reject false "guest to guest") hrules honly (by simp [forwardChainV4]) ?_
      simp [Match.holds, htap, hoif]
    · refine refused_of_mem _ [.iifname, .daddr guestNetworkCidr]
        (.reject false "guest to guest") hrules honly (by simp [forwardChainV4]) ?_
      simp [Match.holds, htap, hguest]
    · refine refused_of_mem _ [.iifname, .daddrIn privateDestinationsV4]
        (.reject false "private destinations") hrules honly (by simp [forwardChainV4]) ?_
      simp only [List.mem_cons, List.not_mem_nil, or_false, forall_eq_or_imp, forall_eq,
        Match.holds, List.any_eq_true]
      exact ⟨htap, range, hrange, hdaddr⟩
    · refine refused_of_mem _ [.iifname, .daddr instanceMetadataAddressV4]
        (.reject false "instance metadata endpoint") hrules honly (by simp [forwardChainV4]) ?_
      simp [Match.holds, htap, hmetadata]
  guestToGuestV6 p htap htracked hreaches := by
    rw [RefusesV6, onHook_forwardV6]
    have honly : OnlyReject (forwardChainV6 state).rules p :=
      onlyReject_forwardChainV6 htracked
    have hrules := (List.append_nil (forwardChainV6 state).rules).symm
    rcases hreaches with hoif | ⟨range, hrange, hdaddr⟩ | hmetadata
    · refine refused_of_mem _ [.iifname, .oifname]
        (.reject false "guest to guest") hrules honly (by simp [forwardChainV6]) ?_
      simp [Match.holds, htap, hoif]
    · refine refused_of_mem _ [.iifname, .daddrIn privateDestinationsV6]
        (.reject false "private destinations") hrules honly (by simp [forwardChainV6]) ?_
      simp only [List.mem_cons, List.not_mem_nil, or_false, forall_eq_or_imp, forall_eq,
        Match.holds, List.any_eq_true]
      exact ⟨htap, range, hrange, hdaddr⟩
    · refine refused_of_mem _ [.iifname, .daddr instanceMetadataAddressV6]
        (.reject false "instance metadata endpoint") hrules honly (by simp [forwardChainV6]) ?_
      simp [Match.holds, htap, hmetadata]
  httpThroughProxy p instance_ hinstance port hport hkind hoif hdaddr htcp hdport hct := by
    rw [RefusesV4, onHook_forward]
    have hmem : .deciding [.oifname, .daddr (ipv4 instance_.guestIpv4), .tcpDport port.guestPort,
        .ctDirectionOriginal] (.reject true "HTTP through proxy only") ∈
          httpThroughProxyRules state.instances :=
      List.mem_flatMap.mpr ⟨instance_, hinstance, List.mem_map.mpr
        ⟨port, List.mem_filter.mpr ⟨hport, by rw [hkind]; rfl⟩, rfl⟩⟩
    refine refused_of_mem (deniedEgressRules state.deniedEgressAddressesV4 ++
        httpThroughProxyRules state.instances) _ _ rfl
      ((onlyReject_deniedEgressRules _).append (onlyReject_httpThroughProxyRules _))
      (List.mem_append_right _ hmem) ?_
    simp [Match.holds, hoif, contains_ipv4, hdaddr, htcp, hdport, hct]
  guestToHostV4 p htap htracked := by
    rw [RefusesV4, onHook_input]
    refine refused_of_mem _ [.iifname] (.reject false "guest to host")
      (List.append_nil _).symm (onlyReject_inputChain htracked) (by simp [inputChain]) ?_
    simp [Match.holds, htap]
  guestToHostV6 p htap htracked := by
    rw [RefusesV6, onHook_inputV6]
    refine refused_of_mem _ [.iifname] (.reject false "guest to host")
      (List.append_nil _).symm (onlyReject_inputChain htracked) (by simp [inputChain]) ?_
    simp [Match.holds, htap]
  prerouting := prerouting_rewrites state
  preroutingTo p htap hraw instance_ hinstance port hport hkind hdport :=
    h.prerouting_to htap hraw hinstance hport hkind hdport
  received hook p instance_ hinstance hname := by
    -- a counter's name gives away its app, and whether it counts what is received
    obtain ⟨q, hq, other, hother, ⟨heq, hdaddr⟩ | ⟨heq, -⟩⟩ := own_of_mem_onHook hname
    · cases h.instance_unique hother hinstance (appReceivedCounterName_injective heq).symm
      exact ⟨q, hq, hdaddr⟩
    · exact absurd heq (appReceivedCounterName_ne_appSentCounterName _ _)
  sent hook p instance_ hinstance hname := by
    obtain ⟨q, hq, other, hother, ⟨heq, -⟩ | ⟨heq, htap, hsaddr⟩⟩ := own_of_mem_onHook hname
    · exact absurd heq.symm (appReceivedCounterName_ne_appSentCounterName _ _)
    · cases h.instance_unique hother hinstance (appSentCounterName_injective heq).symm
      exact ⟨htap, hsaddr, q, hq⟩
  countedOnce hook p := by
    rcases counted_onHook state hook p with hnil | ⟨lines, q, hown, -, -, hq⟩
    · rw [hnil]
      exact Nat.zero_le _
    · rw [hq]
      obtain ⟨address, haddress⟩ := hown.address q
      exact length_flatMap_le_one h.addresses (fun instance_ => hown.once instance_ q) haddress

/-- An app with its HTTP port and a raw one, and a range it is denied. -/
def sshState : FirewallState where
  instances :=
    [{ appId := ⟨"0198f3aa-1c2d-7e4b-9f11-a0b1c2d3e4f5"⟩
       ports := [⟨21000, 3000, false⟩, ⟨21001, 22, true⟩]
       hostIpv4 := Ipv4.ofOctets 10 201 0 1
       guestIpv4 := Ipv4.ofOctets 10 201 0 2 }]
  deniedEgressAddressesV4 := [cidrV4 203 0 113 0 24]
  deniedEgressAddressesV6 := []

theorem isolates_sshState : sshState.Isolates :=
  WellFormed.isolates
    { apps := by decide
      addresses := by decide
      inside := by decide
      hostPorts := by decide }

end FirewallState

end Nibrunner
