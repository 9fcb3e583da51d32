import Mathlib.Data.List.Chain
import Nibrunner.ForStd.IdMap
import Nibrunner.Instance.Record

/-!
# The raw-port listeners

A port an app names beside its HTTP one is served, while the app is asleep, by two activators of
the host, one for streams and one for datagrams. Each is handed the whole list of bindings the
records name and is to end with one listener for each of them: it drops the listeners it no longer
wants and binds the ones it has not. Both passes are `serveWith`; the activators differ in what
they remember of a listener and so in when they keep one.

* `Listeners.follow_iff`: after every call of a run the listeners are those of the bindings
  exactly when no key keeps its guest port while its host port moves. The stream activator asks
  for no such condition (`StreamActivator.follow_serve`); the datagram activator does not look at
  the host port.
* `not_listeners_follow`: a host port moves when an app's ports are listed in another order.

A bind that fails leaves its binding without a listener until the next call.
-/

namespace Nibrunner

open Std

attribute [local instance] lexOrd

/-- One port a record named, and where it goes. -/
structure StreamBinding where
  appId : AppId
  name : String
  hostPort : ℕ
  guestPort : ℕ
deriving DecidableEq

/-- What a listener is kept under. -/
def StreamBinding.key (binding : StreamBinding) : AppId × String := (binding.appId, binding.name)

/-- Only what a record names: a slot reserves more host ports than a document may ask for. -/
def portBindings (records : List InstanceRecord) : List StreamBinding :=
  records.flatMap fun r => r.ports.map fun port =>
    { appId := r.appId, name := port.name, hostPort := port.hostPort, guestPort := port.guestPort }

/-- What the task behind a listener does: it holds the socket of a host port, wakes an app for
what arrives there and relays it to a port of the guest. -/
structure Relay where
  hostPort : ℕ
  appId : AppId
  guestPort : ℕ
deriving DecidableEq

/-- The task spawned for a binding. -/
def Relay.of (binding : StreamBinding) : Relay :=
  { hostPort := binding.hostPort, appId := binding.appId, guestPort := binding.guestPort }

/-- The bindings by their keys, the later of two with one key winning. -/
def wantedBindings (bindings : List StreamBinding) : ExtTreeMap (AppId × String) StreamBinding :=
  .indexBy StreamBinding.key bindings

section ServeWith

variable {L : Type} (keeps : StreamBinding → L → Bool) (listen : StreamBinding → L)
  (bound : StreamBinding → Bool)

/-- One pass over the wanted bindings: a listener there is left alone, and where there is none
the port is bound, if it can be. -/
def bindMissing (listeners : ExtTreeMap (AppId × String) L)
    (missing : List ((AppId × String) × StreamBinding)) : ExtTreeMap (AppId × String) L :=
  missing.foldl (fun listeners (key, binding) =>
    if listeners.contains key then listeners
    else if bound binding then listeners.insert key (listen binding) else listeners) listeners

/-- Keep what is still wanted, abort the rest, and bind what is missing. -/
def serveWith (listeners : ExtTreeMap (AppId × String) L) (bindings : List StreamBinding) :
    ExtTreeMap (AppId × String) L :=
  let wanted := wantedBindings bindings
  let kept := listeners.filter fun key listener =>
    wanted[key]?.any fun binding => keeps binding listener
  bindMissing listen bound kept wanted.toList

end ServeWith

/-- A listener of the stream activator, with the task it was spawned for. -/
structure StreamListener where
  hostPort : ℕ
  guestPort : ℕ
  task : Relay
  bound : task.hostPort = hostPort
  relays : task.guestPort = guestPort
deriving DecidableEq

/-- A listener of the datagram activator, with the task it was spawned for. -/
structure DatagramListener where
  guestPort : ℕ
  task : Relay
  relays : task.guestPort = guestPort
deriving DecidableEq

/-- The listener put in place for a binding. -/
def StreamListener.of (binding : StreamBinding) : StreamListener where
  hostPort := binding.hostPort
  guestPort := binding.guestPort
  task := .of binding
  bound := rfl
  relays := rfl

@[inherit_doc StreamListener.of]
def DatagramListener.of (binding : StreamBinding) : DatagramListener where
  guestPort := binding.guestPort
  task := .of binding
  relays := rfl

abbrev StreamActivator := ExtTreeMap (AppId × String) StreamListener

abbrev DatagramActivator := ExtTreeMap (AppId × String) DatagramListener

def StreamActivator.serve (bound : StreamBinding → Bool) (listeners : StreamActivator)
    (bindings : List StreamBinding) : StreamActivator :=
  serveWith
    (fun binding listener =>
      binding.hostPort == listener.hostPort && binding.guestPort == listener.guestPort)
    .of bound listeners bindings

def DatagramActivator.serve (bound : StreamBinding → Bool) (listeners : DatagramActivator)
    (bindings : List StreamBinding) : DatagramActivator :=
  serveWith (fun binding listener => binding.guestPort == listener.guestPort) .of bound
    listeners bindings

/-- Both activators of a host. -/
structure Listeners where
  streams : StreamActivator
  datagrams : DatagramActivator

namespace Listeners

/-- One call of each with the same bindings; which ports can be bound is the host's to say. -/
def serve (streamBound datagramBound : StreamBinding → Bool) (l : Listeners)
    (bindings : List StreamBinding) : Listeners where
  streams := StreamActivator.serve streamBound l.streams bindings
  datagrams := DatagramActivator.serve datagramBound l.datagrams bindings

/-- Nothing listens before the first call. -/
def empty : Listeners := ⟨∅, ∅⟩

/-- A run of calls in which every bind succeeds. -/
def afterCalls (calls : List (List StreamBinding)) : Listeners :=
  calls.foldl (serve (fun _ => true) fun _ => true) empty

end Listeners

/-- The listeners are those of the bindings: one for each, bound on its host port and relaying to
its guest port, and none under any other key. -/
structure Follow {L : Type} (task : L → Relay) (listeners : ExtTreeMap (AppId × String) L)
    (bindings : List StreamBinding) : Prop where
  served : ∀ b ∈ bindings, ∃ l, listeners[b.key]? = some l ∧ task l = .of b
  only : ∀ key l, listeners[key]? = some l → ∃ b ∈ bindings, b.key = key

/-- Both activators serve the bindings. -/
def Listeners.Follow (l : Listeners) (bindings : List StreamBinding) : Prop :=
  Nibrunner.Follow StreamListener.task l.streams bindings ∧
    Nibrunner.Follow DatagramListener.task l.datagrams bindings

/-- No key keeps its guest port while its host port moves. -/
def Unmoved (bindings next : List StreamBinding) : Prop :=
  ∀ b ∈ bindings, ∀ b' ∈ next, b.key = b'.key → b.guestPort = b'.guestPort →
    b.hostPort = b'.hostPort

/-! ### What a pass leaves -/

section ServeWith

variable {L : Type} {keeps : StreamBinding → L → Bool} {listen : StreamBinding → L}

theorem bindMissing_cons (listeners : ExtTreeMap (AppId × String) L) (key : AppId × String)
    (binding : StreamBinding) (missing : List ((AppId × String) × StreamBinding)) :
    bindMissing listen (fun _ => true) listeners ((key, binding) :: missing) =
      bindMissing listen (fun _ => true)
        (if listeners.contains key then listeners else listeners.insert key (listen binding))
        missing := rfl

/-- A key that is served already, or is not missing, is left alone. -/
theorem getElem?_bindMissing_of_left {missing : List ((AppId × String) × StreamBinding)}
    {listeners : ExtTreeMap (AppId × String) L} {key : AppId × String}
    (h : key ∈ listeners ∨ key ∉ missing.map Prod.fst) :
    (bindMissing listen (fun _ => true) listeners missing)[key]? = listeners[key]? := by
  induction missing generalizing listeners with
  | nil => rfl
  | cons head missing ih =>
    obtain ⟨other, binding⟩ := head
    rw [bindMissing_cons]
    by_cases hin : listeners.contains other = true
    · rw [if_pos hin]
      exact ih (h.imp_right fun hout hmem => hout (List.mem_cons_of_mem _ hmem))
    · have hne : other ≠ key := by
        rintro rfl
        rcases h with h | h
        · exact hin (ExtTreeMap.contains_iff_mem.mpr h)
        · exact h List.mem_cons_self
      rw [if_neg hin, ih, ExtTreeMap.getElem?_insert_ite, if_neg hne]
      rcases h with h | h
      · exact .inl (ExtTreeMap.mem_insert.mpr (.inr h))
      · exact .inr fun hmem => h (List.mem_cons_of_mem _ hmem)

/-- A key that is missing is bound. -/
theorem getElem?_bindMissing_of_mem {missing : List ((AppId × String) × StreamBinding)}
    (hd : (missing.map Prod.fst).Nodup) {listeners : ExtTreeMap (AppId × String) L}
    {key : AppId × String} {binding : StreamBinding} (hmem : (key, binding) ∈ missing)
    (hout : key ∉ listeners) :
    (bindMissing listen (fun _ => true) listeners missing)[key]? = some (listen binding) := by
  induction missing generalizing listeners with
  | nil => exact absurd hmem List.not_mem_nil
  | cons head missing ih =>
    obtain ⟨other, first⟩ := head
    rw [List.map_cons, List.nodup_cons] at hd
    rw [bindMissing_cons]
    rcases List.mem_cons.mp hmem with heq | hmem
    · obtain ⟨rfl, rfl⟩ := Prod.mk.inj heq
      have hnot : ¬listeners.contains key = true := fun h =>
        hout (ExtTreeMap.contains_iff_mem.mp h)
      rw [if_neg hnot, getElem?_bindMissing_of_left (.inr hd.1), ExtTreeMap.getElem?_insert_ite,
        if_pos rfl]
    · have hne : other ≠ key := by
        rintro rfl
        exact hd.1 (List.mem_map.mpr ⟨_, hmem, rfl⟩)
      refine ih hd.2 hmem ?_
      split
      · exact hout
      · rw [ExtTreeMap.mem_insert, LawfulEqOrd.compare_eq_iff_eq]
        rintro (h | h)
        · exact hne h
        · exact hout h

theorem getElem?_wantedBindings_of_mem {bindings : List StreamBinding}
    (hd : (bindings.map StreamBinding.key).Nodup) {b : StreamBinding} (hb : b ∈ bindings) :
    (wantedBindings bindings)[b.key]? = some b :=
  ExtTreeMap.getElem?_indexBy_of_mem hd hb

theorem nodup_keys_toList (bindings : List StreamBinding) :
    ((wantedBindings bindings).toList.map Prod.fst).Nodup := by
  rw [List.nodup_iff_pairwise_ne, List.pairwise_map]
  refine (wantedBindings bindings).distinct_keys_toList.imp fun h heq => h ?_
  rw [heq]
  exact ReflOrd.compare_self

/-- **What a call leaves under a wanted key**: the listener there was, where it is kept, and a new
one otherwise. -/
theorem getElem?_serveWith_of_mem {bindings : List StreamBinding}
    (hd : (bindings.map StreamBinding.key).Nodup) (listeners : ExtTreeMap (AppId × String) L)
    {b : StreamBinding} (hb : b ∈ bindings) :
    (serveWith keeps listen (fun _ => true) listeners bindings)[b.key]? =
      some (((listeners[b.key]?).filter (keeps b)).getD (listen b)) := by
  have hwanted := getElem?_wantedBindings_of_mem hd hb
  have hkept : (listeners.filter fun key listener =>
      (wantedBindings bindings)[key]?.any fun binding => keeps binding listener)[b.key]? =
        (listeners[b.key]?).filter (keeps b) := by
    rw [ExtTreeMap.getElem?_filter']
    simp [hwanted]
  cases hcase : (listeners[b.key]?).filter (keeps b) with
  | some l =>
    rw [hcase] at hkept
    rw [serveWith, getElem?_bindMissing_of_left, hkept, Option.getD_some]
    exact .inl (ExtTreeMap.mem_iff_isSome_getElem?.mpr (by rw [hkept]; rfl))
  | none =>
    rw [hcase] at hkept
    rw [serveWith, getElem?_bindMissing_of_mem (nodup_keys_toList bindings)
      (ExtTreeMap.mem_toList_iff_getElem?_eq_some.mpr hwanted), Option.getD_none]
    rw [ExtTreeMap.mem_iff_isSome_getElem?, hkept]
    simp

/-- A key that is not wanted is not served. -/
theorem getElem?_serveWith_of_notMem {bindings : List StreamBinding}
    (listeners : ExtTreeMap (AppId × String) L) {key : AppId × String}
    (hout : ∀ b ∈ bindings, b.key ≠ key) :
    (serveWith keeps listen (fun _ => true) listeners bindings)[key]? = none := by
  have hwanted : (wantedBindings bindings)[key]? = none :=
    ExtTreeMap.getElem?_indexBy_eq_none_iff.mpr hout
  rw [serveWith, getElem?_bindMissing_of_left, ExtTreeMap.getElem?_filter', hwanted]
  · simp
  · refine .inr fun hmem => ?_
    obtain ⟨⟨other, b⟩, hb, rfl⟩ := List.mem_map.mp hmem
    rw [ExtTreeMap.mem_toList_iff_getElem?_eq_some, hwanted] at hb
    cases hb

/-- A call follows its bindings when every listener it keeps does what its binding asks. -/
theorem follow_serveWith_iff {task : L → Relay} (hlisten : ∀ b, task (listen b) = .of b)
    {bindings : List StreamBinding} (hd : (bindings.map StreamBinding.key).Nodup)
    (listeners : ExtTreeMap (AppId × String) L) :
    Follow task (serveWith keeps listen (fun _ => true) listeners bindings) bindings ↔
      ∀ b ∈ bindings, ∀ l, listeners[b.key]? = some l → keeps b l = true → task l = .of b := by
  constructor
  · intro h b hb l hl hkeeps
    obtain ⟨l', hl', htask⟩ := h.served b hb
    rw [getElem?_serveWith_of_mem hd listeners hb, hl, Option.filter_some_pos hkeeps] at hl'
    rwa [← Option.some.inj hl'] at htask
  · refine fun h => ⟨fun b hb => ⟨_, getElem?_serveWith_of_mem hd listeners hb, ?_⟩,
      fun key l hl => ?_⟩
    · cases hcase : (listeners[b.key]?).filter (keeps b) with
      | none => exact hlisten b
      | some l =>
        obtain ⟨hl, hkeeps⟩ := Option.filter_eq_some_iff.mp hcase
        exact h b hb l hl hkeeps
    · by_contra hnone
      push Not at hnone
      rw [getElem?_serveWith_of_notMem listeners hnone] at hl
      cases hl

end ServeWith

/-! ### One call after another -/

/-- What a listener does is what one of the bindings it follows asks. -/
theorem Follow.exists_binding {L : Type} {task : L → Relay}
    {listeners : ExtTreeMap (AppId × String) L} {bindings : List StreamBinding}
    (h : Follow task listeners bindings) {key : AppId × String} {l : L}
    (hl : listeners[key]? = some l) : ∃ b ∈ bindings, b.key = key ∧ task l = .of b := by
  obtain ⟨b, hb, rfl⟩ := h.only key l hl
  obtain ⟨l', hl', htask⟩ := h.served b hb
  rw [hl] at hl'
  exact ⟨b, hb, rfl, by rw [Option.some.inj hl', htask]⟩

/-- Bindings with one key, one host port and one guest port are one task. -/
theorem Relay.of_eq_of {b b' : StreamBinding} (hkey : b.key = b'.key)
    (hhost : b.hostPort = b'.hostPort) (hguest : b.guestPort = b'.guestPort) :
    Relay.of b = .of b' := by
  have happ : b.appId = b'.appId := congrArg Prod.fst hkey
  rw [Relay.of, Relay.of, hhost, happ, hguest]

section Serve

variable {bindings next : List StreamBinding} (hd : (next.map StreamBinding.key).Nodup)
include hd

/-- The stream activator goes on following. -/
theorem StreamActivator.follow_serve {listeners : StreamActivator}
    (h : Follow StreamListener.task listeners bindings) :
    Follow StreamListener.task (StreamActivator.serve (fun _ => true) listeners next) next := by
  have hlisten : ∀ b, (StreamListener.of b).task = .of b := fun _ => rfl
  refine (follow_serveWith_iff hlisten hd listeners).mpr fun b' _ l hl hkeeps => ?_
  obtain ⟨b, _, hkey, htask⟩ := h.exists_binding hl
  rw [Bool.and_eq_true, beq_iff_eq, beq_iff_eq] at hkeeps
  obtain ⟨hhost, hguest⟩ := hkeeps
  rw [htask]
  refine Relay.of_eq_of hkey ?_ ?_
  · rw [hhost, ← l.bound, htask, Relay.of]
  · rw [hguest, ← l.relays, htask, Relay.of]

/-- The datagram activator goes on following exactly where no host port moved. -/
theorem DatagramActivator.follow_serve_iff {listeners : DatagramActivator}
    (h : Follow DatagramListener.task listeners bindings) :
    Follow DatagramListener.task (DatagramActivator.serve (fun _ => true) listeners next) next ↔
      Unmoved bindings next := by
  have hlisten : ∀ b, (DatagramListener.of b).task = .of b := fun _ => rfl
  refine (follow_serveWith_iff hlisten hd listeners).trans ?_
  constructor
  · intro hkept b hb b' hb' hkey hguest
    obtain ⟨l, hl, htask⟩ := h.served b hb
    have hsame : b'.guestPort = l.guestPort := by rw [← hguest, ← l.relays, htask, Relay.of]
    have hof := hkept b' hb' l (hkey ▸ hl) (beq_iff_eq.mpr hsame)
    rw [htask] at hof
    exact congrArg Relay.hostPort hof
  · intro hunmoved b' hb' l hl hkeeps
    obtain ⟨b, hb, hkey, htask⟩ := h.exists_binding hl
    have hguest : b.guestPort = b'.guestPort := by
      rw [beq_iff_eq.mp hkeeps, ← l.relays, htask, Relay.of]
    rw [htask]
    exact Relay.of_eq_of hkey (hunmoved b hb b' hb' hkey hguest) hguest

end Serve

/-! ### A run of calls -/

namespace Listeners

theorem afterCalls_concat (calls : List (List StreamBinding)) (bindings : List StreamBinding) :
    afterCalls (calls ++ [bindings]) =
      (afterCalls calls).serve (fun _ => true) (fun _ => true) bindings := by
  rw [afterCalls, List.foldl_append]
  rfl

theorem follow_empty : Listeners.Follow empty [] := by
  constructor <;>
    exact ⟨fun b hb => absurd hb List.not_mem_nil, fun key l hl => by simp [empty] at hl⟩

/-- One more call. -/
theorem follow_serve_iff {l : Listeners} {bindings next : List StreamBinding}
    (hd : (next.map StreamBinding.key).Nodup) (h : l.Follow bindings) :
    (l.serve (fun _ => true) (fun _ => true) next).Follow next ↔ Unmoved bindings next :=
  ⟨fun hnext => (DatagramActivator.follow_serve_iff hd h.2).mp hnext.2, fun hunmoved =>
    ⟨StreamActivator.follow_serve hd h.1, (DatagramActivator.follow_serve_iff hd h.2).mpr hunmoved⟩⟩

/-- **The listeners follow the bindings** after every call of a run exactly when no key keeps its
guest port, from one call to the next, while its host port moves. -/
theorem follow_iff (calls : List (List StreamBinding))
    (hd : ∀ bindings ∈ calls, (bindings.map StreamBinding.key).Nodup) :
    (∀ past bindings, past ++ [bindings] <+: calls →
        (afterCalls (past ++ [bindings])).Follow bindings) ↔
      calls.IsChain Unmoved := by
  -- on the calls from the last: the listeners follow it if they followed the one before and no
  -- port moved
  induction calls using List.reverseRecOn with
  | nil =>
    refine ⟨fun _ => .nil, fun _ past bindings h => ?_⟩
    simp at h
  | append_singleton calls next ih =>
    have hnext := hd next (by simp)
    have ih := ih fun bindings hb => hd bindings (List.mem_append_left _ hb)
    rw [List.isChain_append]
    constructor
    · intro h
      have hpast := ih.mp fun past bindings hp =>
        h past bindings (hp.trans (List.prefix_append _ _))
      refine ⟨hpast, .singleton next, fun last hlast first hfirst => ?_⟩
      obtain rfl : first = next := by simpa using hfirst.symm
      obtain ⟨past, rfl⟩ : ∃ past, calls = past ++ [last] :=
        ⟨_, (List.dropLast_append_getLast? last hlast).symm⟩
      have hlast := h past last (List.prefix_append _ _)
      have hfirst := h _ first List.prefix_rfl
      rw [afterCalls_concat] at hfirst
      exact (follow_serve_iff hnext hlast).mp hfirst
    · rintro ⟨hchain, -, hmoved⟩ past bindings hp
      have hearlier := ih.mpr hchain
      rcases List.prefix_concat_iff.mp hp with heq | hp
      · obtain ⟨rfl, heq⟩ := List.append_inj' heq rfl
        obtain rfl : bindings = next := by simpa using heq
        rw [afterCalls_concat]
        cases past using List.reverseRecOn with
        | nil => exact (follow_serve_iff hnext follow_empty).mpr fun b hb => by simp at hb
        | append_singleton past last =>
          refine (follow_serve_iff hnext (hearlier past last List.prefix_rfl)).mpr ?_
          exact hmoved last (by simp) bindings (by simp)
      · exact hearlier past bindings hp

/-! ### A host port moves -/

/-- An app that names some ports, on the first slot of its host. -/
def portedRecord (ports : List InstancePort) : InstanceRecord :=
  .new
    (recordFields
      { appId := ⟨"app-1"⟩, deploymentId := ⟨"dep-1"⟩, volumeId := ⟨"vol-1"⟩
        desiredState := .onRequest, layers := [], hostnames := []
        config := { (default : AppConfig) with ports := ports } }
      (describeSlot 0 ⟨"app-1"⟩))
    .idle initialTracker

/-- A call for an app with two ports. -/
def listedPorts : List StreamBinding := portBindings [portedRecord [⟨"ssh", 22⟩, ⟨"web", 8081⟩]]

/-- A call for the app once its document lists them the other way around. -/
def reorderedPorts : List StreamBinding := portBindings [portedRecord [⟨"web", 8081⟩, ⟨"ssh", 22⟩]]

theorem follow_iff_listedPorts :
    (listedPorts.map StreamBinding.key).Nodup ∧
      ((∀ past bindings, past ++ [bindings] <+: [listedPorts, listedPorts] →
        (afterCalls (past ++ [bindings])).Follow bindings) ↔
      [listedPorts, listedPorts].IsChain Unmoved) :=
  ⟨by decide, follow_iff [listedPorts, listedPorts] (by
    intro bindings hb
    obtain rfl : bindings = listedPorts := by simpa using hb
    decide)⟩

/-- The datagram listener of a reordered port stays on the host port it was bound on. -/
theorem not_listeners_follow :
    ¬∀ calls : List (List StreamBinding),
      (∀ bindings ∈ calls, (bindings.map StreamBinding.key).Nodup) →
        ∀ past bindings, past ++ [bindings] <+: calls →
          (afterCalls (past ++ [bindings])).Follow bindings := by
  intro h
  have hd : ∀ bindings ∈ [listedPorts, reorderedPorts],
      (bindings.map StreamBinding.key).Nodup := by
    intro bindings hb
    rcases List.mem_pair.mp hb with rfl | rfl <;> decide
  have hfirst := h _ hd [] listedPorts (by simp)
  have hsecond := h _ hd [listedPorts] reorderedPorts List.prefix_rfl
  rw [afterCalls_concat] at hsecond
  have hunmoved := (follow_serve_iff (hd _ (by simp)) hfirst).mp hsecond
  have hmoved : ∃ b ∈ listedPorts, ∃ b' ∈ reorderedPorts, b.key = b'.key ∧
      b.guestPort = b'.guestPort ∧ b.hostPort ≠ b'.hostPort := by decide
  obtain ⟨b, hb, b', hb', hkey, hguest, hne⟩ := hmoved
  exact hne (hunmoved b hb b' hb' hkey hguest)

end Listeners

end Nibrunner
