import Nibrunner.Daemon.Coalescing

/-!
# One wake of an app at a time

`Consistent` says how the entries, the channels and the calls stand to each other: an entry is its
live leader's, a leader's channel is empty until the leader is over and then holds what it said,
and a follower has read nothing of the channel of a leader of its own app. Every step keeps it.

* `coalesces`: in every state the calls lead to there is one leader of an app that boots or has to
  settle, and the app's entry is its; a follower whose leader is over is answered what the leader
  said; and a wake follows the leader there is, or leads if there is none.
-/

namespace Nibrunner.Coalescing

open Std

namespace Phase

/-- A leader whose entry is still in. -/
def Live : Phase → Prop
  | booting => True
  | settling .. => True
  | _ => False

/-- What a leader that is over has said to those that follow it. -/
def said : Phase → Option Outcome
  | returned outcome => some outcome
  | dropped => some abandoned
  | _ => none

/-- The channel of a leader in a phase: empty, or with what it said. -/
def channel : Phase → Channel
  | returned outcome => Channel.new.sendLast outcome
  | dropped => Channel.new.sendLast abandoned
  | _ => .new

/-- A call that leads is not one that waits. -/
def Leading : Phase → Prop
  | waiting _ => False
  | _ => True

/-- A call that is dropped while it leads says that it was abandoned. -/
def Honest : Phase → Prop
  | settling outcome gone => gone = true → outcome = abandoned
  | sending outcome gone _ => gone = true → outcome = abandoned
  | _ => True

theorem Live.said {phase : Phase} (h : phase.Live) : phase.said = none := by
  cases phase <;> first | rfl | exact h.elim

theorem Live.channel {phase : Phase} (h : phase.Live) : phase.channel = .new := by
  cases phase <;> first | rfl | exact h.elim

theorem Live.leading {phase : Phase} (h : phase.Live) : phase.Leading := by
  cases phase <;> trivial

theorem Live.ne_sending {phase : Phase} (h : phase.Live) (outcome : Outcome) (gone : Bool)
    (sender : CallId) : phase ≠ .sending outcome gone sender := by
  rintro rfl
  exact h

/-- A receiver that has read nothing is answered what the leader said, once it said it. -/
theorem recv_channel (phase : Phase) : phase.channel.recv 0 = phase.said.map .ok := by
  cases phase <;> rfl

theorem not_live_ended (outcome : Outcome) (gone : Bool) : ¬(ended outcome gone).Live := by
  cases gone <;> exact id

theorem leading_ended (outcome : Outcome) (gone : Bool) : (ended outcome gone).Leading := by
  cases gone <;> trivial

theorem honest_ended (outcome : Outcome) (gone : Bool) : (ended outcome gone).Honest := by
  cases gone <;> trivial

theorem ended_ne_sending (outcome : Outcome) (gone : Bool) (said : Outcome) (g : Bool)
    (sender : CallId) : ended outcome gone ≠ .sending said g sender := by
  cases gone <;> exact Phase.noConfusion

theorem said_ended {outcome : Outcome} {gone : Bool} (h : gone = true → outcome = abandoned) :
    (ended outcome gone).said = some outcome := by
  cases gone with
  | false => rfl
  | true => rw [h rfl]; rfl

theorem channel_ended {outcome : Outcome} {gone : Bool} (h : gone = true → outcome = abandoned) :
    (ended outcome gone).channel = Channel.new.sendLast outcome := by
  cases gone with
  | false => rfl
  | true => rw [h rfl]; rfl

end Phase

namespace AppWaker

variable {s : AppWaker}

theorem getElem?_goOn (s : AppWaker) (id : CallId) (phase : Phase) (k : CallId) :
    (s.goOn id phase).calls[k]? =
      if id = k then s.calls[k]?.map fun call => { call with phase := phase } else s.calls[k]? :=
  s.calls.getElem?_modify_ite id k _

theorem getElem?_goOn_self {id : CallId} {call : Call} (h : s.calls[id]? = some call)
    (phase : Phase) : (s.goOn id phase).calls[id]? = some { call with phase := phase } := by
  rw [getElem?_goOn, if_pos rfl, h, Option.map_some]

theorem getElem?_goOn_of_ne {id k : CallId} (h : id ≠ k) (phase : Phase) :
    (s.goOn id phase).calls[k]? = s.calls[k]? := by
  rw [getElem?_goOn, if_neg h]

/-- How a leader stands to its channel, its app's entry and the lock. -/
structure Leads (s : AppWaker) (id : CallId) (call : Call) : Prop where
  leading : call.phase.Leading
  honest : call.phase.Honest
  channel : s.channels[id]? = some call.phase.channel
  entry : call.phase.Live → s.inFlight[call.appId]?.map Entry.sender = some id
  sending : ∀ outcome gone sender, call.phase = .sending outcome gone sender →
    sender = id ∧ s.locked = some id

/-- How a follower stands to its leader: it is of the same app, nothing of what it says was read,
and what the follower returned is what it said. -/
structure Follows (calls : ExtTreeMap CallId Call) (call : Call) : Prop where
  leader : ∃ leader, calls[call.leader]? = some leader ∧ leader.leader = call.leader ∧
    leader.appId = call.appId ∧
    ∀ outcome, call.phase = .returned outcome → leader.phase.said = some outcome
  phase : call.phase = .waiting 0 ∨ (∃ outcome, call.phase = .returned outcome) ∨
    call.phase = .dropped

/-- A call is the live leader of an app. -/
def LiveLeader (s : AppWaker) (appId : AppId) (id : CallId) : Prop :=
  ∃ call : Call, s.calls[id]? = some call ∧ call.leader = id ∧ call.appId = appId ∧ call.phase.Live

/-- How the entries, the channels and the calls stand to each other. -/
structure Consistent (s : AppWaker) : Prop where
  leads : ∀ (id : CallId) (call : Call), s.calls[id]? = some call → call.leader = id →
    s.Leads id call
  follows : ∀ (id : CallId) (call : Call), s.calls[id]? = some call → call.leader ≠ id →
    Follows s.calls call
  entries : ∀ (appId : AppId) (entry : Entry), s.inFlight[appId]? = some entry →
    s.LiveLeader appId entry.sender
  lock : ∀ id, s.locked = some id → ∃ (call : Call) (outcome : Outcome) (gone : Bool),
    s.calls[id]? = some call ∧ call.leader = id ∧ call.phase = .sending outcome gone id

theorem consistent_new : new.Consistent where
  leads id call h := by simp [new] at h
  follows id call h := by simp [new] at h
  entries appId entry h := by simp [new] at h
  lock id h := by simp [new] at h

namespace Consistent

variable {id : CallId} {call : Call}

/-- A call that waits follows. -/
theorem follower_of_waiting (hs : s.Consistent) (h : s.calls[id]? = some call) {read : ℕ}
    (hphase : call.phase = .waiting read) : call.leader ≠ id := by
  intro hleader
  have hleading := (hs.leads id call h hleader).leading
  rw [hphase] at hleading
  exact hleading

/-- A call with no phase of a follower leads. -/
theorem leader_of_not (hs : s.Consistent) (h : s.calls[id]? = some call)
    (hphase : ¬(call.phase = .waiting 0 ∨ (∃ outcome, call.phase = .returned outcome) ∨
      call.phase = .dropped)) : call.leader = id := by
  by_contra hleader
  exact hphase (hs.follows id call h hleader).phase

theorem leader_of_live (hs : s.Consistent) (h : s.calls[id]? = some call)
    (hlive : call.phase.Live) : call.leader = id := by
  apply hs.leader_of_not h
  rintro (hphase | ⟨outcome, hphase⟩ | hphase) <;> rw [hphase] at hlive <;> exact hlive

/-- A follower's leader does not follow. -/
theorem ne_of_follows (hs : s.Consistent) {k : CallId} {follower : Call}
    (hk : s.calls[k]? = some follower) (hfollower : follower.leader ≠ k)
    (h : s.calls[id]? = some call) (hleader : call.leader ≠ id) : follower.leader ≠ id := by
  intro heq
  obtain ⟨leader, hget, hself, -⟩ := (hs.follows k follower hk hfollower).leader
  rw [heq, h] at hget
  rw [heq, ← Option.some.inj hget] at hself
  exact hleader hself

/-! ### A leader goes on -/

/-- What followers hold of a leader, they hold of it further on, if it takes nothing back. -/
theorem follows_goOn (hs : s.Consistent) (h : s.calls[id]? = some call) {phase : Phase}
    (hleader : call.leader = id)
    (hsaid : ∀ outcome, call.phase.said = some outcome → phase.said = some outcome)
    {k : CallId} {follower : Call} (hk : (s.goOn id phase).calls[k]? = some follower)
    (hfollower : follower.leader ≠ k) : Follows (s.goOn id phase).calls follower := by
  have hne : id ≠ k := by
    rintro rfl
    rw [getElem?_goOn_self h] at hk
    exact hfollower ((Option.some.inj hk) ▸ hleader)
  rw [getElem?_goOn_of_ne hne] at hk
  obtain ⟨⟨leader, hget, hself, happ, hreturned⟩, hphase⟩ := hs.follows k follower hk hfollower
  refine ⟨?_, hphase⟩
  by_cases heq : follower.leader = id
  · rw [heq, h] at hget
    obtain rfl := Option.some.inj hget
    refine ⟨{ call with phase := phase }, ?_, hself, happ, fun outcome ho => ?_⟩
    · rw [heq]
      exact getElem?_goOn_self h phase
    · exact hsaid outcome (hreturned outcome ho)
  · exact ⟨leader, by rwa [getElem?_goOn_of_ne (Ne.symm heq)], hself, happ, hreturned⟩

/-- A leader whose entry stays in goes on. -/
theorem goOn_live (hs : s.Consistent) (h : s.calls[id]? = some call)
    (hlive : call.phase.Live) {phase : Phase} (hlive' : phase.Live) (hhonest : phase.Honest) :
    (s.goOn id phase).Consistent := by
  have hleader : call.leader = id := hs.leader_of_live h hlive
  have hlead := hs.leads id call h hleader
  have hself := getElem?_goOn_self h phase
  -- the leader keeps its entry and its channel, the others are as they were
  constructor
  · intro k lead hk hleads
    by_cases hne : id = k
    · subst hne
      obtain rfl := Option.some.inj (hself.symm.trans hk)
      refine ⟨hlive'.leading, hhonest, ?_, fun _ => hlead.entry hlive, fun o g c hsend =>
        absurd hsend (hlive'.ne_sending o g c)⟩
      rw [hlive'.channel, ← hlive.channel]
      exact hlead.channel
    · rw [getElem?_goOn_of_ne hne] at hk
      exact { hs.leads k lead hk hleads with }
  · intro k follower hk hfollower
    exact hs.follows_goOn h hleader (by simp [hlive.said]) hk hfollower
  · intro appId entry hentry
    obtain ⟨lead, hget, hlead', happ, hlead_live⟩ := hs.entries appId entry hentry
    by_cases hne : id = entry.sender
    · rw [← hne, h] at hget
      obtain rfl := Option.some.inj hget
      exact ⟨{ call with phase := phase }, hne ▸ hself, hlead', happ, hlive'⟩
    · exact ⟨lead, by rwa [getElem?_goOn_of_ne hne], hlead', happ, hlead_live⟩
  · intro k hk
    obtain ⟨lead, outcome, gone, hget, hlead', hphase⟩ := hs.lock k hk
    have hne : id ≠ k := by
      rintro rfl
      rw [h] at hget
      rw [Option.some.inj hget, hphase] at hlive
      exact hlive
    exact ⟨lead, outcome, gone, by rwa [getElem?_goOn_of_ne hne], hlead', hphase⟩

/-- A follower goes on, to where a follower can be. -/
theorem goOn_follower (hs : s.Consistent) (h : s.calls[id]? = some call)
    (hfollower : call.leader ≠ id) {phase : Phase}
    (hphase : phase = .dropped ∨ ∃ outcome, phase = .returned outcome ∧
      s.channels[call.leader]?.bind (Channel.recv · 0) = some (.ok outcome)) :
    (s.goOn id phase).Consistent := by
  have hself := getElem?_goOn_self h phase
  have hfollows := hs.follows id call h hfollower
  constructor
  · intro k lead hk hleads
    have hne : id ≠ k := by
      rintro rfl
      obtain rfl := Option.some.inj (hself.symm.trans hk)
      exact hfollower hleads
    rw [getElem?_goOn_of_ne hne] at hk
    exact { hs.leads k lead hk hleads with }
  · intro k follower hk hfollower'
    by_cases hne : id = k
    · subst hne
      obtain rfl := Option.some.inj (hself.symm.trans hk)
      obtain ⟨leader, hget, hleader, happ, -⟩ := hfollows.leader
      have hlead : (s.goOn id phase).calls[call.leader]? = some leader := by
        rwa [getElem?_goOn_of_ne hfollower.symm]
      rcases hphase with rfl | ⟨outcome, rfl, hrecv⟩
      · exact ⟨⟨leader, hlead, hleader, happ, by simp⟩, .inr (.inr rfl)⟩
      · refine ⟨⟨leader, hlead, hleader, happ, ?_⟩, .inr (.inl ⟨outcome, rfl⟩)⟩
        rintro _ ⟨⟩
        -- what it was answered is what the leader said
        rw [(hs.leads _ leader hget hleader).channel, Option.bind_some, Phase.recv_channel] at hrecv
        simpa using hrecv
    · rw [getElem?_goOn_of_ne hne] at hk
      obtain ⟨⟨leader, hget, hleader, happ, hreturned⟩, hphase'⟩ :=
        hs.follows k follower hk hfollower'
      have hother := hs.ne_of_follows hk hfollower' h hfollower
      exact ⟨⟨leader, by rwa [getElem?_goOn_of_ne hother.symm], hleader, happ, hreturned⟩, hphase'⟩
  · intro appId entry hentry
    obtain ⟨lead, hget, hlead, happ, hlive⟩ := hs.entries appId entry hentry
    have hne : id ≠ entry.sender := by
      rintro rfl
      obtain rfl := Option.some.inj (h.symm.trans hget)
      exact hfollower hlead
    exact ⟨lead, by rwa [getElem?_goOn_of_ne hne], hlead, happ, hlive⟩
  · intro k hk
    obtain ⟨lead, outcome, gone, hget, hlead, hsending⟩ := hs.lock k hk
    have hne : id ≠ k := by
      rintro rfl
      obtain rfl := Option.some.inj (h.symm.trans hget)
      exact hfollower hlead
    exact ⟨lead, outcome, gone, by rwa [getElem?_goOn_of_ne hne], hlead, hsending⟩

/-- A fresh call comes, and the entry of its app is its leader's. -/
theorem arrive (hs : s.Consistent) (hlock : s.locked = none) (hfresh : s.calls[id]? = none)
    (call : Call) (entry : Entry) {channels : ExtTreeMap CallId Channel}
    (hchannels : ∀ k ≠ id, channels[k]? = s.channels[k]?)
    (hcall : call.leader = entry.sender)
    (hrole : (entry.sender = id ∧ call.phase = .booting ∧ channels[id]? = some Channel.new ∧
        s.inFlight[call.appId]? = none) ∨
      (call.phase = .waiting 0 ∧ s.inFlight[call.appId]?.map Entry.sender = some entry.sender)) :
    Consistent { s with
      inFlight := s.inFlight.insert call.appId entry
      channels := channels
      calls := s.calls.insert id call } := by
  have hother {k : CallId} {other : Call} (hk : s.calls[k]? = some other) : id ≠ k := by
    rintro rfl
    rw [hfresh] at hk
    cases hk
  have hget {k : CallId} (hk : id ≠ k) : (s.calls.insert id call)[k]? = s.calls[k]? := by
    rw [ExtTreeMap.getElem?_insert_ite, if_neg hk]
  have hself : (s.calls.insert id call)[id]? = some call := by
    rw [ExtTreeMap.getElem?_insert_ite, if_pos rfl]
  -- what the app's entry says does not change, if there was one
  have hsender {appId : AppId} {k : CallId} (h : s.inFlight[appId]?.map Entry.sender = some k) :
      (s.inFlight.insert call.appId entry)[appId]?.map Entry.sender = some k := by
    rw [ExtTreeMap.getElem?_insert_ite]
    split
    next heq =>
      subst heq
      rcases hrole with ⟨-, -, -, hnone⟩ | ⟨-, hsame⟩
      · rw [hnone] at h
        cases h
      · exact hsame.symm.trans h
    next => exact h
  have hleaderOf {k : CallId} {follower : Call} (hfollows : Follows s.calls follower)
      (hk : s.calls[k]? = some follower) : Follows (s.calls.insert id call) follower := by
    obtain ⟨⟨leader, hlead, hrest⟩, hphase⟩ := hfollows
    exact ⟨⟨leader, by rwa [hget (hother hlead)], hrest⟩, hphase⟩
  constructor
  · intro k lead hk hleads
    by_cases hne : id = k
    · subst hne
      obtain rfl := Option.some.inj (hself.symm.trans hk)
      rcases hrole with ⟨-, hphase, hchannel, -⟩ | ⟨-, hsame⟩
      · constructor
        · rw [hphase]
          trivial
        · rw [hphase]
          trivial
        · rw [hphase]
          exact hchannel
        · rintro -
          simp [hleads.symm, hcall]
        · simp [hphase]
      · -- its app's entry is the leader's that was here before it
        obtain ⟨old, hold, hsame⟩ := Option.map_eq_some_iff.mp hsame
        obtain ⟨lead, hlead, -⟩ := hs.entries _ old hold
        exact absurd (hleads.symm.trans (hcall.trans hsame.symm)) (hother hlead)
    · obtain ⟨hleading, hhon, hchannel, hentry, hsending⟩ :=
        hs.leads k lead (by rwa [hget hne] at hk) hleads
      exact ⟨hleading, hhon, (hchannels k (Ne.symm hne)).trans hchannel,
        fun hlive => hsender (hentry hlive), hsending⟩
  · intro k follower hk hfollower
    by_cases hne : id = k
    · subst hne
      obtain rfl := Option.some.inj (hself.symm.trans hk)
      rcases hrole with ⟨hmine, -⟩ | ⟨hphase, hsame⟩
      · exact absurd (hcall.trans hmine) hfollower
      · obtain ⟨old, hold, hsame⟩ := Option.map_eq_some_iff.mp hsame
        obtain ⟨lead, hlead, hleader, happ, -⟩ := hs.entries _ old hold
        rw [hsame, ← hcall] at hlead hleader
        exact ⟨⟨lead, by rwa [hget (hother hlead)], hleader, happ, by simp [hphase]⟩, .inl hphase⟩
    · rw [hget hne] at hk
      exact hleaderOf (hs.follows k follower hk hfollower) hk
  · intro appId other hentry
    rw [ExtTreeMap.getElem?_insert_ite] at hentry
    split at hentry
    next heq =>
      cases hentry
      subst heq
      rcases hrole with ⟨hmine, hphase, -⟩ | ⟨-, hsame⟩
      · exact ⟨call, by rw [hmine, hself], hcall, rfl, by rw [hphase]; trivial⟩
      · obtain ⟨old, hold, hsame⟩ := Option.map_eq_some_iff.mp hsame
        obtain ⟨lead, hlead, hrest⟩ := hs.entries _ old hold
        rw [hsame] at hlead hrest
        exact ⟨lead, by rwa [hget (hother hlead)], hrest⟩
    next =>
      obtain ⟨lead, hlead, hrest⟩ := hs.entries appId other hentry
      exact ⟨lead, by rwa [hget (hother hlead)], hrest⟩
  · intro k hk
    exact absurd (hlock.symm.trans hk) (by simp)

/-! ### The steps -/

theorem wake (hs : s.Consistent) (id : CallId) (appId : AppId) : (s.wake id appId).Consistent := by
  unfold AppWaker.wake
  split
  · exact hs
  next hfree =>
  obtain ⟨hlock, hfresh⟩ : s.locked = none ∧ id ∉ s.calls := by simpa using hfree
  have hnone : s.calls[id]? = none := getElem?_neg _ _ hfresh
  split
  next entry hentry =>
    obtain ⟨lead, hget, hleader, happ, hlive⟩ := hs.entries appId entry hentry
    have hlead := hs.leads _ lead hget hleader
    have hread : (s.channels[entry.sender]?.map fun channel =>
        channel.messages.length).getD 0 = 0 := by
      rw [hlead.channel, hlive.channel]
      rfl
    rw [hread]
    exact hs.arrive hlock hnone ⟨appId, entry.sender, .waiting 0⟩
      { entry with count := entry.count + 1 } (fun _ _ => rfl) rfl (.inr ⟨rfl, by rw [hentry]; rfl⟩)
  next hentry =>
    have hchannels : ∀ k ≠ id, (s.channels.insert id Channel.new)[k]? = s.channels[k]? :=
      fun k hk => by rw [ExtTreeMap.getElem?_insert_ite, if_neg hk.symm]
    exact hs.arrive hlock hnone ⟨appId, id, .booting⟩ ⟨id, 0⟩ hchannels rfl
      (.inl ⟨rfl, rfl, by simp, hentry⟩)

theorem bootEnds (hs : s.Consistent) (id : CallId) (outcome : Outcome) :
    (s.bootEnds id outcome).Consistent := by
  unfold AppWaker.bootEnds
  split
  next h => exact hs.goOn_live h trivial trivial (by simp [Phase.Honest])
  next => exact hs

theorem drop (hs : s.Consistent) (id : CallId) : (s.drop id).Consistent := by
  unfold AppWaker.drop
  split
  next h => exact hs.goOn_live h trivial trivial (by simp [Phase.Honest])
  next h => exact hs.goOn_follower h (hs.follower_of_waiting h rfl) (.inl rfl)
  next => exact hs

theorem receive (hs : s.Consistent) (id : CallId) : (s.receive id).Consistent := by
  unfold AppWaker.receive
  split
  next leader read h =>
    have hfollower := hs.follower_of_waiting h rfl
    have hfollows := hs.follows id _ h hfollower
    obtain rfl : read = 0 := by simpa using hfollows.phase
    split
    next outcome hrecv => exact hs.goOn_follower h hfollower (.inr ⟨outcome, rfl, hrecv⟩)
    next hrecv =>
      -- a leader that is over has said something
      obtain ⟨lead, hget, hlead, -⟩ := hfollows.leader
      rw [(hs.leads _ lead hget hlead).channel, Option.bind_some, Phase.recv_channel] at hrecv
      simp at hrecv
    next => exact hs
  next => exact hs

theorem take (hs : s.Consistent) (id : CallId) : (s.take id).Consistent := by
  unfold AppWaker.take
  split
  next appId leader outcome gone h =>
    split
    · exact hs
    next hfree =>
    have hlock : s.locked = none := by simpa using hfree
    have hleader : leader = id := hs.leader_of_live h trivial
    have hlead := hs.leads id _ h hleader
    split
    next entry hentry =>
      -- a live leader finds its own entry in the map
      have hmine : entry.sender = id := by
        have hmine := hlead.entry trivial
        rw [hentry] at hmine
        exact Option.some.inj hmine
      have hself := getElem?_goOn_self h (.sending outcome gone entry.sender)
      constructor
      · intro k lead hk hleads
        by_cases hne : id = k
        · subst hne
          obtain rfl := Option.some.inj (hself.symm.trans hk)
          refine ⟨trivial, hlead.honest, hlead.channel, False.elim, ?_⟩
          rintro _ _ _ ⟨⟩
          exact ⟨hmine, rfl⟩
        · obtain ⟨hleading, hhon, hchannel, hentry', hsending⟩ :=
            hs.leads k lead (by rwa [← getElem?_goOn_of_ne hne]) hleads
          refine ⟨hleading, hhon, hchannel, fun hlive => ?_, fun o g c hphase => ?_⟩
          · -- the entry that was taken out is not another leader's
            have happ : appId ≠ lead.appId := by
              rintro rfl
              have hother := hentry' hlive
              rw [hentry] at hother
              exact hne (hmine.symm.trans (Option.some.inj hother))
            have hkept : (s.inFlight.erase appId)[lead.appId]? = s.inFlight[lead.appId]? := by
              rw [ExtTreeMap.getElem?_erase_ite, if_neg happ]
            exact (congrArg _ hkept).trans (hentry' hlive)
          · have hheld := (hsending o g c hphase).2
            rw [hlock] at hheld
            cases hheld
      · intro k follower hk hfollower
        exact hs.follows_goOn h hleader (by simp [Phase.said]) hk hfollower
      · intro other kept hkept
        have hne : appId ≠ other ∧ s.inFlight[other]? = some kept := by
          have herase : (s.inFlight.erase appId)[other]? = some kept := hkept
          rw [ExtTreeMap.getElem?_erase_ite] at herase
          split at herase
          · cases herase
          next hne => exact ⟨hne, herase⟩
        obtain ⟨lead, hget, hlead', happ, hlive⟩ := hs.entries other kept hne.2
        have hsender : id ≠ kept.sender := by
          rintro rfl
          obtain rfl := Option.some.inj (h.symm.trans hget)
          exact hne.1 happ
        exact ⟨lead, (getElem?_goOn_of_ne hsender _).trans hget, hlead', happ, hlive⟩
      · rintro k ⟨⟩
        exact ⟨_, outcome, gone, hself, hleader, by rw [hmine]⟩
    next hentry =>
      have hmine := hlead.entry trivial
      rw [hentry] at hmine
      cases hmine
  next => exact hs

theorem send (hs : s.Consistent) (id : CallId) : (s.send id).Consistent := by
  unfold AppWaker.send
  split
  next appId leader outcome gone sender h =>
    have hleader : leader = id := hs.leader_of_not h (by simp)
    have hlead := hs.leads id _ h hleader
    obtain ⟨rfl, hlock⟩ := hlead.sending outcome gone sender rfl
    have hself := getElem?_goOn_self h (.ended outcome gone)
    constructor
    · intro k lead hk hleads
      by_cases hne : sender = k
      · subst hne
        obtain rfl := Option.some.inj (hself.symm.trans hk)
        have hchannel : (s.channels.modify sender (Channel.sendLast · outcome))[sender]? =
            some (Channel.new.sendLast outcome) := by
          rw [ExtTreeMap.getElem?_modify_ite, if_pos rfl, hlead.channel]
          rfl
        exact ⟨Phase.leading_ended .., Phase.honest_ended ..,
          hchannel.trans (congrArg _ (Phase.channel_ended hlead.honest).symm),
          fun hlive => absurd hlive (Phase.not_live_ended outcome gone),
          fun o g c hphase => absurd hphase (Phase.ended_ne_sending outcome gone o g c)⟩
      -- another leader's channel is not sent on
      · obtain ⟨hleading, hhon, hchannel, hentry, hsending⟩ :=
          hs.leads k lead (by rwa [← getElem?_goOn_of_ne hne]) hleads
        have hkept : (s.channels.modify sender (Channel.sendLast · outcome))[k]? =
            s.channels[k]? := by
          rw [ExtTreeMap.getElem?_modify_ite, if_neg hne]
        refine ⟨hleading, hhon, hkept.trans hchannel, hentry, fun o g c hphase => ?_⟩
        have hheld := (hsending o g c hphase).2
        exact absurd (Option.some.inj (hlock.symm.trans hheld)) hne
    · intro k follower hk hfollower
      exact hs.follows_goOn h hleader (by simp [Phase.said]) hk hfollower
    · intro other kept hkept
      obtain ⟨lead, hget, hlead', happ, hlive⟩ := hs.entries other kept hkept
      have hsender : sender ≠ kept.sender := by
        rintro rfl
        obtain rfl := Option.some.inj (h.symm.trans hget)
        exact hlive
      exact ⟨lead, (getElem?_goOn_of_ne hsender _).trans hget, hlead', happ, hlive⟩
    · rintro k ⟨⟩
  next => exact hs

theorem step (hs : s.Consistent) (move : Move) : (s.step move).Consistent := by
  cases move with
  | wake id appId => exact hs.wake id appId
  | bootEnds id outcome => exact hs.bootEnds id outcome
  | drop id => exact hs.drop id
  | take id => exact hs.take id
  | send id => exact hs.send id
  | receive id => exact hs.receive id

end Consistent

theorem consistent_run (moves : List Move) : (Run.run step new moves).Consistent :=
  Run.invariant (I := Consistent) (fun _ move hs => hs.step move) consistent_new moves

/-! ### What followers are answered -/

namespace Consistent

variable {id : CallId} {call : Call}

/-- An entry is the one of the app's leader that is live. -/
theorem entry_iff (hs : s.Consistent) (appId : AppId) (id : CallId) :
    s.inFlight[appId]?.map Entry.sender = some id ↔ s.LiveLeader appId id := by
  constructor
  · intro h
    obtain ⟨entry, hentry, rfl⟩ := Option.map_eq_some_iff.mp h
    exact hs.entries appId entry hentry
  · rintro ⟨call, hget, hleader, rfl, hlive⟩
    exact (hs.leads id call hget hleader).entry hlive

/-- A leader that has its sender sends, and the lock is free again. -/
theorem send_of_locked (hs : s.Consistent) (hlock : s.locked = some id) :
    (s.send id).locked = none ∧
      (∃ call outcome, (s.send id).calls[id]? = some call ∧ call.phase.said = some outcome) ∧
      ∀ k ≠ id, (s.send id).calls[k]? = s.calls[k]? := by
  obtain ⟨⟨appId, leader, phase⟩, outcome, gone, hget, hleader, rfl⟩ := hs.lock id hlock
  have hlead := hs.leads id _ hget hleader
  rw [AppWaker.send, hget]
  exact ⟨rfl, ⟨_, outcome, getElem?_goOn_self hget _, Phase.said_ended hlead.honest⟩,
    fun k hk => getElem?_goOn_of_ne hk.symm _⟩

/-- A leader that has to settle takes its entry out, once the lock is free. -/
theorem take_of_settling (hs : s.Consistent) (h : s.calls[id]? = some call)
    (hlock : s.locked = none) {outcome : Outcome} {gone : Bool}
    (hphase : call.phase = .settling outcome gone) :
    (s.take id).locked = some id ∧ ∀ k ≠ id, (s.take id).calls[k]? = s.calls[k]? := by
  obtain ⟨appId, leader, phase⟩ := call
  obtain rfl : phase = _ := hphase
  have hleader : leader = id := hs.leader_of_live h trivial
  have hentry := (hs.leads id _ h hleader).entry trivial
  obtain ⟨entry, hentry, -⟩ := Option.map_eq_some_iff.mp hentry
  rw [AppWaker.take, h]
  simp only [hlock, hentry, Option.isSome_none, Bool.false_eq_true, if_false]
  exact ⟨rfl, fun k hk => getElem?_goOn_of_ne hk.symm _⟩

/-- A follower whose leader is over is answered what it said. -/
theorem receive_of_said (hs : s.Consistent) (h : s.calls[id]? = some call) {read : ℕ}
    (hphase : call.phase = .waiting read) {lead : Call} (hlead : s.calls[call.leader]? = some lead)
    {outcome : Outcome} (hsaid : lead.phase.said = some outcome) :
    (s.receive id).calls[id]? = some { call with phase := .returned outcome } ∧
      ∀ k ≠ id, (s.receive id).calls[k]? = s.calls[k]? := by
  have hfollower := hs.follower_of_waiting h hphase
  obtain ⟨appId, leader, phase⟩ := call
  obtain rfl : phase = _ := hphase
  obtain ⟨⟨_, hget, hself, -⟩, hread⟩ := hs.follows id _ h hfollower
  obtain rfl := Option.some.inj (hlead.symm.trans hget)
  obtain rfl : read = 0 := by simpa using hread
  have hrecv : s.channels[leader]?.bind (Channel.recv · 0) = some (.ok outcome) := by
    rw [(hs.leads _ lead hlead hself).channel, Option.bind_some, Phase.recv_channel, hsaid]
    rfl
  rw [AppWaker.receive, h]
  simp only [hrecv]
  exact ⟨getElem?_goOn_self h _, fun k hk => getElem?_goOn_of_ne hk.symm _⟩

end Consistent

/-- A move of a call that nothing from outside is needed for. -/
def Move.Own : Move → Prop
  | take _ | send _ | receive _ => True
  | _ => False

/-- Moves that need nothing from outside lead to where a follower has returned what its leader
said. -/
def Answered (s : AppWaker) (id : CallId) (call : Call) : Prop :=
  ∃ (moves : List Move) (lead : Call) (outcome : Outcome), (∀ move ∈ moves, move.Own) ∧
    (Run.run step s moves).calls[id]? = some { call with phase := .returned outcome } ∧
    (Run.run step s moves).calls[call.leader]? = some lead ∧ lead.phase.said = some outcome

theorem Answered.cons {id : CallId} {call : Call} (move : Move) (hown : move.Own)
    (h : (s.step move).Answered id call) : s.Answered id call := by
  obtain ⟨moves, lead, outcome, hmoves, hafter⟩ := h
  exact ⟨move :: moves, lead, outcome, List.forall_mem_cons.mpr ⟨hown, hmoves⟩, hafter⟩

namespace Consistent

variable {id : CallId} {call lead : Call} {read : ℕ}

theorem answered_of_said (hs : s.Consistent) (h : s.calls[id]? = some call)
    (hphase : call.phase = .waiting read) (hlead : s.calls[call.leader]? = some lead)
    {outcome : Outcome} (hsaid : lead.phase.said = some outcome) : s.Answered id call := by
  obtain ⟨hanswer, hothers⟩ := hs.receive_of_said h hphase hlead hsaid
  have hne := hs.follower_of_waiting h hphase
  exact ⟨[.receive id], lead, outcome, by simp [Move.Own], hanswer,
    (hothers _ hne).trans hlead, hsaid⟩

theorem answered_of_locked (hs : s.Consistent) (h : s.calls[id]? = some call)
    (hphase : call.phase = .waiting read) (hlock : s.locked = some call.leader) :
    s.Answered id call := by
  obtain ⟨-, ⟨lead, outcome, hlead, hsaid⟩, hothers⟩ := hs.send_of_locked hlock
  have hne := hs.follower_of_waiting h hphase
  have hkept := (hothers id hne.symm).trans h
  exact .cons (.send call.leader) trivial
    ((hs.send call.leader).answered_of_said hkept hphase hlead hsaid)

theorem answered_of_settling (hs : s.Consistent) (h : s.calls[id]? = some call)
    (hphase : call.phase = .waiting read) (hlead : s.calls[call.leader]? = some lead)
    {outcome : Outcome} {gone : Bool} (hsettling : lead.phase = .settling outcome gone)
    (hlock : s.locked = none) : s.Answered id call := by
  obtain ⟨hheld, hothers⟩ := hs.take_of_settling hlead hlock hsettling
  have hne := hs.follower_of_waiting h hphase
  have hkept := (hothers id hne.symm).trans h
  exact .cons (.take call.leader) trivial
    ((hs.take call.leader).answered_of_locked hkept hphase hheld)

/-- Leaders that do not boot go on by themselves, until a follower is answered. -/
theorem answered (hs : s.Consistent) (h : s.calls[id]? = some call)
    (hphase : call.phase = .waiting read) (hlead : s.calls[call.leader]? = some lead)
    (hboots : lead.phase ≠ .booting) : s.Answered id call := by
  have hfollower := hs.follower_of_waiting h hphase
  obtain ⟨_, hget, hself, -⟩ := (hs.follows id call h hfollower).leader
  obtain rfl := Option.some.inj (hlead.symm.trans hget)
  have hleads := hs.leads _ lead hlead hself
  cases hphase' : lead.phase with
  | booting => exact absurd hphase' hboots
  | settling outcome gone =>
    cases hlock : s.locked with
    | none => exact hs.answered_of_settling h hphase hlead hphase' hlock
    | some k =>
      -- another leader holds the lock: it sends first
      obtain ⟨holder, o, g, hholder, -, hsending⟩ := hs.lock k hlock
      obtain ⟨hfree, -, hothers⟩ := hs.send_of_locked hlock
      have hid : id ≠ k := by
        rintro rfl
        obtain rfl := Option.some.inj (h.symm.trans hholder)
        exact Phase.noConfusion (hphase.symm.trans hsending)
      have hleader : call.leader ≠ k := by
        rintro rfl
        obtain rfl := Option.some.inj (hlead.symm.trans hholder)
        exact Phase.noConfusion (hphase'.symm.trans hsending)
      exact .cons (.send k) trivial ((hs.send k).answered_of_settling
        ((hothers id hid).trans h) hphase ((hothers _ hleader).trans hlead) hphase' hfree)
  | sending outcome gone sender =>
    exact hs.answered_of_locked h hphase (hleads.sending outcome gone sender hphase').2
  | waiting read =>
    have hleading := hleads.leading
    rw [hphase'] at hleading
    exact hleading.elim
  | returned outcome
  | dropped => exact hs.answered_of_said h hphase hlead (congrArg Phase.said hphase')

/-- A wake follows the leader of its app that is live. -/
theorem wake_of_live (hs : s.Consistent) (hlock : s.locked = none) (hfresh : s.calls[id]? = none)
    {appId : AppId} {k : CallId} (hlive : s.LiveLeader appId k) :
    (s.wake id appId).calls[id]? = some ⟨appId, k, .waiting 0⟩ := by
  obtain ⟨entry, hentry, rfl⟩ := Option.map_eq_some_iff.mp ((hs.entry_iff appId k).mpr hlive)
  obtain ⟨lead, hlead, hself, -, hlive⟩ := hlive
  have hid : id ∉ s.calls := by simpa using hfresh
  have hchannel : s.channels[entry.sender]? = some Channel.new := by
    rw [(hs.leads _ lead hlead hself).channel, hlive.channel]
  rw [AppWaker.wake]
  simp [hlock, hid, hentry, hchannel, Channel.new]

/-- A wake leads where no leader of its app is live. -/
theorem wake_of_not_live (hs : s.Consistent) (hlock : s.locked = none)
    (hfresh : s.calls[id]? = none) {appId : AppId} (hnone : ∀ k, ¬s.LiveLeader appId k) :
    (s.wake id appId).calls[id]? = some ⟨appId, id, .booting⟩ := by
  have hentry : s.inFlight[appId]? = none := by
    by_contra hentry
    obtain ⟨entry, hentry⟩ := Option.ne_none_iff_exists'.mp hentry
    exact hnone _ (hs.entries appId entry hentry)
  have hid : id ∉ s.calls := by simpa using hfresh
  rw [AppWaker.wake]
  simp [hlock, hid, hentry]

end Consistent

/-- **Wakes of an app coalesce.** However calls come, move and are dropped: an app's entry is its
live leader's, and there is one such; a follower has returned what its leader said, or it waits
for a leader that boots, or leaders go on by themselves until it is answered; and a wake that comes
follows the leader that is live, or leads a boot of its own. -/
theorem coalesces (moves : List Move) :
    let s := Run.run step new moves
    (∀ (appId : AppId) (id : CallId),
      s.inFlight[appId]?.map Entry.sender = some id ↔ s.LiveLeader appId id) ∧
    (∀ (appId : AppId) (id k : CallId), s.LiveLeader appId id → s.LiveLeader appId k → id = k) ∧
    (∀ (id : CallId) (call : Call), s.calls[id]? = some call → call.leader ≠ id →
      ∃ lead : Call, s.calls[call.leader]? = some lead ∧ lead.leader = call.leader ∧
        lead.appId = call.appId ∧
        ((∃ outcome, call.phase = .returned outcome ∧ lead.phase.said = some outcome) ∨
          call.phase = .dropped ∨
          (∃ read, call.phase = .waiting read) ∧ (lead.phase = .booting ∨ s.Answered id call))) ∧
    ∀ (id : CallId) (appId : AppId), s.locked = none → s.calls[id]? = none →
      (∃ k, s.LiveLeader appId k ∧ (s.wake id appId).calls[id]? = some ⟨appId, k, .waiting 0⟩) ∨
      ((∀ k, ¬s.LiveLeader appId k) ∧
        (s.wake id appId).calls[id]? = some ⟨appId, id, .booting⟩) := by
  intro s
  have hs : s.Consistent := consistent_run moves
  -- the entry of an app names its live leader, so two leaders would be one
  refine ⟨hs.entry_iff, ?_, ?_, ?_⟩
  · intro appId id k hid hk
    have hentry := (hs.entry_iff appId id).mpr hid
    have hentry' := (hs.entry_iff appId k).mpr hk
    exact Option.some.inj (hentry.symm.trans hentry')
  · intro id call h hfollower
    obtain ⟨⟨lead, hlead, hself, happ, hreturned⟩, hphase⟩ := hs.follows id call h hfollower
    refine ⟨lead, hlead, hself, happ, ?_⟩
    rcases hphase with hphase | ⟨outcome, hphase⟩ | hphase
    · refine .inr (.inr ⟨⟨0, hphase⟩, ?_⟩)
      -- a leader that has ended its boot answers by its own moves
      by_cases hboots : lead.phase = .booting
      · exact .inl hboots
      · exact .inr (hs.answered h hphase hlead hboots)
    · exact .inl ⟨outcome, hphase, hreturned outcome hphase⟩
    · exact .inr (.inl hphase)
  · intro id appId hlock hfresh
    by_cases hlive : ∃ k, s.LiveLeader appId k
    · obtain ⟨k, hk⟩ := hlive
      exact .inl ⟨k, hk, hs.wake_of_live hlock hfresh hk⟩
    · have hnone := not_exists.mp hlive
      exact .inr ⟨hnone, hs.wake_of_not_live hlock hfresh hnone⟩

end AppWaker

end Nibrunner.Coalescing
