import Nibrunner.Guest.Control

/-!
# The turns of a conversation

Host and guest speak in turns: the guest is asked, says that it is ready, is told to go on, and says
how that went. `Talk` is how far a conversation can have come on its two sides, and what the guest
has done by then for what it said; `Serving` is where the one stands that the guest is at.
-/

namespace Nibrunner.GuestControl

open Run TextLines

/-- The conversation the guest is at. -/
def Server.conversation? : Server → Option ℕ
  | .listening => none
  | .reading c | .confirming c | .freezing c _ | .synchronizing c | .holding c _ | .leaving c _ =>
    some c

/-- What the guest has said in a conversation, and what it did for it. -/
inductive Said (g : Guest) (c : ℕ) (v : Conversation) : Prop where
  | nothing (said : v.said = [])
  | refused (said : v.said = [refused])
  | ready (purpose : v.purpose ≠ .freeze)
    (said : v.said = [tenantFreezeReady] ∨ v.said = [tenantFreezeReady, GuestControl.refused])
  | held (purpose : v.purpose = .sleep) (said : v.said = [tenantFreezeReady, tenantFreezeHeld])
    (froze : ∃ f ∈ g.freezes, f.conversation = c ∧ f.ending ≠ some (.failed c))
  | released (purpose : v.purpose = .wake)
    (said : v.said = [tenantClockReady, tenantClockReleased])
    (set : ∃ k ∈ g.clockSets, k.conversation = c ∧ k.released = true)
  | volume (purpose : v.purpose = .freeze) (said : v.said = [freezeHeld])
    (held : v.heldFrom ≠ none)

structure Talk (g : Guest) (c : ℕ) (v : Conversation) : Prop where
  said : Said g c v
  read : v.said = v.heard ++ v.toHost.pending
  asked : v.phase = .asked → v.heard = [] ∧ v.told = none
  answered : v.phase = .answered → v.purpose ≠ .freeze ∧ v.heard = [tenantFreezeReady]
  granted : v.phase = .granted → v.heard =
    if v.purpose = .freeze then [freezeHeld] else [tenantFreezeReady, tenantFreezeHeld]
  told : v.told ≠ none → v.said.head? = some tenantFreezeReady
  unaccepted : v.accepted = false → v.said = [] ∧ v.toGuest.pending = [v.purpose.request]
  busy : v.accepted = true → v.toHost.ended = false → g.server.conversation? = some c

/-- Where the conversation stands that the guest is at. -/
def Serving (g : Guest) (v : Conversation) : Prop :=
  match g.server with
  | .listening => True
  | .reading _ => v.said = [] ∧ v.toGuest.pending <:+ [v.purpose.request]
  | .confirming _ =>
    v.purpose = .sleep ∧ v.said = [tenantFreezeReady] ∧
      ∀ line ∈ v.toGuest.pending, line = tenantFreezeCommit ∧ v.told ≠ none
  | .freezing _ deadline =>
    v.purpose = .sleep ∧ v.said = [tenantFreezeReady] ∧ v.told ≠ none ∧
      deadline ≤ g.now + freezeTimeout
  | .synchronizing _ =>
    v.purpose = .wake ∧ v.said = [tenantClockReady] ∧
      ∀ line ∈ v.toGuest.pending, ∃ time, v.told = some time ∧ line = releaseLine time
  | .holding _ deadline =>
    v.purpose = .freeze ∧ v.said = [freezeHeld] ∧ v.toGuest.pending = [] ∧
      (∃ start ≤ g.now, v.heldFrom = some start ∧ deadline = start + maxHold) ∧
      g.volumeFrozen = true ∧ g.frozenUntil = none
  | .leaving _ deadline =>
    v.purpose = .freeze ∧ v.said = [freezeHeld] ∧ v.toGuest.pending = [] ∧
      (∃ start ≤ g.now, v.heldFrom = some start ∧ deadline = start + maxHold) ∧
      (deadline ≤ g.now ∨ v.toGuest.ended = true)

/-- Where it stands does not change as time passes. -/
theorem Serving.later {g g' : Guest} {v : Conversation} (h : Serving g v)
    (hserver : g'.server = g.server) (hnow : g.now ≤ g'.now)
    (hvolume : g'.volumeFrozen = g.volumeFrozen)
    (hlease : g.frozenUntil = none → g'.frozenUntil = none) : Serving g' v := by
  rw [Serving] at h ⊢
  rw [hserver]
  split at h
  · trivial
  · exact h
  · exact h
  · obtain ⟨hsleep, hready, htold, hdeadline⟩ := h
    exact ⟨hsleep, hready, htold, Nat.le_trans hdeadline (Nat.add_le_add_right hnow _)⟩
  · exact h
  · obtain ⟨hfreeze, hsaid, hpending, ⟨start, hstart, hfrom⟩, hfrozen, hnone⟩ := h
    exact ⟨hfreeze, hsaid, hpending, ⟨start, Nat.le_trans hstart hnow, hfrom⟩,
      hvolume.trans hfrozen, hlease hnone⟩
  · obtain ⟨hfreeze, hsaid, hpending, ⟨start, hstart, hfrom⟩, hend⟩ := h
    exact ⟨hfreeze, hsaid, hpending, ⟨start, Nat.le_trans hstart hnow, hfrom⟩,
      hend.imp_left fun hpast => Nat.le_trans hpast hnow⟩

/-! ### The host's turns -/

/-- What a step of the host's leaves of a conversation. -/
structure HostTurn (v w : Conversation) : Prop where
  purpose : w.purpose = v.purpose
  said : w.said = v.said
  accepted : w.accepted = v.accepted
  heldFrom : w.heldFrom = v.heldFrom
  ended : w.toHost.ended = v.toHost.ended
  left : v.toGuest.ended = true → w.toGuest.ended = true
  told : w.told = v.told ∧ w.toGuest.pending = v.toGuest.pending ∨
    v.told = none ∧ v.purpose ≠ .freeze ∧ v.said.head? = some tenantFreezeReady ∧
      ∃ time, w.told = some time ∧ w.toGuest.pending = v.toGuest.pending ++
        [if v.purpose = .sleep then tenantFreezeCommit else releaseLine time]

section Turns

variable {g : Guest} {c time : ℕ} {v w : Conversation}

theorem HostTurn.refl (v : Conversation) : HostTurn v v :=
  ⟨rfl, rfl, rfl, rfl, rfl, fun h => h, .inl ⟨rfl, rfl⟩⟩

/-- It takes what the conversation is for, what was said and how long the volume is held, and of the
guest the freezes and the times it set the clock to. -/
theorem Said.same {g' : Guest} (h : Said g c v) (hfreezes : g'.freezes = g.freezes)
    (hclocks : g'.clockSets = g.clockSets) (hpurpose : w.purpose = v.purpose)
    (hsaid : w.said = v.said) (hheld : w.heldFrom = v.heldFrom) : Said g' c w := by
  cases h with
  | nothing said => exact .nothing (hsaid.trans said)
  | refused said => exact .refused (hsaid.trans said)
  | ready purpose said => exact .ready (hpurpose ▸ purpose) (hsaid.symm ▸ said)
  | held purpose said froze =>
    exact .held (hpurpose.trans purpose) (hsaid.trans said) (hfreezes ▸ froze)
  | released purpose said set =>
    exact .released (hpurpose.trans purpose) (hsaid.trans said) (hclocks ▸ set)
  | volume purpose said held =>
    exact .volume (hpurpose.trans purpose) (hsaid.trans said) (hheld ▸ held)

/-- The guest only does more. -/
theorem Said.more {g' : Guest} (h : Said g c v) (hfreezes : g.freezes ⊆ g'.freezes)
    (hclocks : g.clockSets ⊆ g'.clockSets) : Said g' c v := by
  cases h with
  | nothing said => exact .nothing said
  | refused said => exact .refused said
  | ready purpose said => exact .ready purpose said
  | held purpose said froze =>
    obtain ⟨f, hf, hkept⟩ := froze
    exact .held purpose said ⟨f, hfreezes hf, hkept⟩
  | released purpose said set =>
    obtain ⟨k, hk, hset⟩ := set
    exact .released purpose said ⟨k, hclocks hk, hset⟩
  | volume purpose said held => exact .volume purpose said held

theorem hostTurn_leave (phase : HostPhase) : HostTurn v (v.leave phase) :=
  ⟨rfl, rfl, rfl, rfl, rfl, fun _ => rfl, .inl ⟨rfl, rfl⟩⟩

/-- A conversation whose host goes on is told so once. -/
theorem Talk.of_turn (h : Talk g c v) (hturn : HostTurn v w)
    (hread : v.said = w.heard ++ w.toHost.pending)
    (hasked : w.phase = .asked → w.heard = [] ∧ w.told = none)
    (hanswered : w.phase = .answered → w.purpose ≠ .freeze ∧ w.heard = [tenantFreezeReady])
    (hgranted : w.phase = .granted → w.heard =
      if w.purpose = .freeze then [freezeHeld] else [tenantFreezeReady, tenantFreezeHeld]) :
    Talk g c w where
  said := h.said.same rfl rfl hturn.purpose hturn.said hturn.heldFrom
  read := by rw [hturn.said, hread]
  asked := hasked
  answered := hanswered
  granted := hgranted
  told htold := by
    rw [hturn.said]
    rcases hturn.told with ⟨hsame, -⟩ | ⟨-, -, hready, -⟩
    · exact h.told (hsame ▸ htold)
    · exact hready
  unaccepted haccepted := by
    obtain ⟨hsaid, hpending⟩ := h.unaccepted (hturn.accepted ▸ haccepted)
    rw [hturn.said, hturn.purpose]
    rcases hturn.told with ⟨-, hsame⟩ | ⟨-, -, hready, -⟩
    · exact ⟨hsaid, hsame.trans hpending⟩
    · rw [hsaid] at hready
      cases hready
  busy haccepted hended := h.busy (hturn.accepted ▸ haccepted) (hturn.ended ▸ hended)

theorem talk_leave_failed (h : Talk g c v) : Talk g c (v.leave .failed) :=
  h.of_turn (hostTurn_leave .failed) h.read (fun hphase => by cases hphase)
    (fun hphase => by cases hphase) fun hphase => by cases hphase

theorem Talk.giveUp (h : Talk g c v) : Talk g c v.giveUp ∧ HostTurn v v.giveUp := by
  refine ⟨?_, hostTurn_leave _⟩
  rw [Conversation.giveUp]
  split
  · rename_i hphase
    exact h.of_turn (hostTurn_leave .granted) h.read (fun hphase => by cases hphase)
      (fun hphase => by cases hphase) fun _ => h.granted hphase
  · exact talk_leave_failed h

theorem HostTurn.trans_leave (h : HostTurn v w) (phase : HostPhase) :
    HostTurn v (w.leave phase) :=
  ⟨h.purpose, h.said, h.accepted, h.heldFrom, h.ended, fun _ => rfl, h.told⟩

theorem Talk.answerTo (h : Talk g c v) {line : String} (hturn : HostTurn v w)
    (hread : v.said = w.heard ++ w.toHost.pending) (hheard : w.heard = v.heard ++ [line])
    (hphase : w.phase = v.phase) (hsame : w.told = v.told ∧ w.toGuest = v.toGuest)
    (hopen : v.phase = .asked ∨ v.phase = .answered) (time : ℕ) :
    Talk g c (w.answerTo line time) ∧ HostTurn v (w.answerTo line time) := by
  -- the host lets go of the connection, with or without what it asked for
  have hleaves (phase : HostPhase) (hends : phase = .granted ∨ phase = .failed)
      (hgranted : phase = .granted → w.heard =
        if w.purpose = .freeze then [freezeHeld] else [tenantFreezeReady, tenantFreezeHeld]) :
      Talk g c (w.leave phase) ∧ HostTurn v (w.leave phase) := by
    refine ⟨h.of_turn (hturn.trans_leave phase) hread ?_ ?_ hgranted, hturn.trans_leave phase⟩
    · rcases hends with rfl | rfl
      · exact fun hnot => by cases hnot
      · exact fun hnot => by cases hnot
    · rcases hends with rfl | rfl
      · exact fun hnot => by cases hnot
      · exact fun hnot => by cases hnot
  have hfails := hleaves .failed (.inr rfl) fun hnot => by cases hnot
  -- the host tells the guest to go on
  have htells (hfirst : v.heard = []) (hnone : v.told = none) (hpurpose : v.purpose ≠ .freeze)
      (hline : line = tenantFreezeReady) :
      Talk g c (w.tell time) ∧ HostTurn v (w.tell time) := by
    have hall : w.heard = [tenantFreezeReady] := by rw [hheard, hfirst, hline, List.nil_append]
    have hready : v.said.head? = some tenantFreezeReady := by rw [hread, hall]; rfl
    have htold : HostTurn v (w.tell time) :=
      ⟨hturn.purpose, hturn.said, hturn.accepted, hturn.heldFrom, hturn.ended, hturn.left,
        .inr ⟨hnone, hpurpose, hready, time, rfl, by
          rw [Conversation.tell, Socket.pending_write, hsame.2, hturn.purpose]⟩⟩
    exact ⟨h.of_turn htold hread (fun hnot => by cases hnot)
      (fun _ => ⟨hturn.purpose ▸ hpurpose, hall⟩) (fun hnot => by cases hnot), htold⟩
  rw [Conversation.answerTo]
  rcases hopen with hopen | hopen
  · obtain ⟨hfirst, hnone⟩ := h.asked hopen
    rw [hphase, hopen]
    cases hpurpose : w.purpose with
    | sleep | wake =>
      have hpurpose' : v.purpose ≠ .freeze := by
        rw [← hturn.purpose, hpurpose]
        decide
      dsimp only
      split
      · rename_i hline
        exact htells hfirst hnone hpurpose' hline
      · exact hfails
    | freeze =>
      dsimp only
      split
      · rename_i hline
        have hgrants : HostTurn v w.grant :=
          ⟨hturn.purpose, hturn.said, hturn.accepted, hturn.heldFrom, hturn.ended, hturn.left,
            hturn.told⟩
        refine ⟨h.of_turn hgrants hread (fun hnot => by cases hnot) (fun hnot => by cases hnot)
          fun _ => ?_, hgrants⟩
        rw [Conversation.grant, if_pos hpurpose, hheard, hfirst, hline, List.nil_append]
      · exact hfails
  · obtain ⟨hpurpose, hfirst⟩ := h.answered hopen
    rw [← hturn.purpose] at hpurpose
    -- the second line settles it
    have hgrants (hline : line = tenantFreezeHeld) :=
      hleaves .granted (.inl rfl) fun _ => by rw [if_neg hpurpose, hheard, hfirst, hline]; rfl
    rw [hphase, hopen]
    cases hwpurpose : w.purpose with
    | sleep | wake =>
      dsimp only
      split
      · rename_i hline
        exact hgrants hline
      · exact hfails
    | freeze => exact absurd hwpurpose hpurpose

theorem Talk.hostStep (h : Talk g c v) (time : ℕ) :
    Talk g c (v.hostStep time) ∧ HostTurn v (v.hostStep time) := by
  rw [Conversation.hostStep]
  split
  · exact ⟨h, .refl v⟩
  · rename_i hopen
    have hphase : v.phase = .asked ∨ v.phase = .answered := by
      cases hphase : v.phase with
      | asked => exact .inl rfl
      | answered => exact .inr rfl
      | granted => exact absurd (.inl hphase) hopen
      | failed => exact absurd (.inr hphase) hopen
    split
    · rename_i line rest hpending
      refine h.answerTo (w := v.hears line)
        ⟨rfl, rfl, rfl, rfl, rfl, fun h => h, .inl ⟨rfl, rfl⟩⟩ ?_ rfl rfl ⟨rfl, rfl⟩ hphase time
      rw [h.read, Conversation.hears, Socket.pending_drop, hpending, List.append_assoc]
      rfl
    · split
      · exact ⟨talk_leave_failed h, hostTurn_leave _⟩
      · exact ⟨h, .refl v⟩

end Turns

end Nibrunner.GuestControl
