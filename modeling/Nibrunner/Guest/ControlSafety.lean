import Nibrunner.Guest.ControlTurns

/-!
# What is frozen is released

A tenant that is frozen is on a lease, and stays frozen for as long as the host was told
(`tenant_frozen_as_leased`): **the guest freezes it, sets its clock and holds its volume only for a
host that is still there**, since it says that it is ready and waits to be told to go on. What the
guest does for a conversation is done while it serves it and no other, so that `Consistent` says of
each conversation how far it has come (`Talk`) and of the one being served where it stands
(`Serving`).
-/

namespace Nibrunner.GuestControl

open Run TextLines

/-- The host told the guest to go on with a conversation. -/
def System.Told (s : System) (purpose : Purpose) (c : ℕ) : Prop :=
  ∃ v, s.conversations[c]? = some v ∧ v.purpose = purpose ∧ v.told ≠ none

/-- What brought a freeze since some time to its end could. -/
def Ending.Due (s : System) (since : ℕ) : Ending → Prop
  | .lease time => since + tenantLease ≤ time
  | .woken c => s.Told .wake c
  | .failed c => s.Told .sleep c

/-- The tenant stays frozen until its lease is over, the host wakes it, or another freeze fails. -/
def Freeze.Kept (s : System) (f : Freeze) : Prop :=
  s.Told .sleep f.conversation ∧
    match f.ending with
    | none =>
      s.guest.freeze = true ∧ s.guest.frozen = true ∧
        ∃ deadline, s.guest.frozenUntil = some deadline ∧ f.time + tenantLease ≤ deadline
    | some ending => ending.Due s f.time

namespace System

/-- What holds of the leases of a guest. -/
structure Leases (s : System) : Prop where
  leased : s.guest.freeze = true →
    s.guest.stuck = true ∨ s.guest.frozenUntil ≠ none ∨
      ∃ c deadline, s.guest.server = .freezing c deadline
  lease : ∀ deadline, s.guest.frozenUntil = some deadline → deadline ≤ s.guest.now + tenantLease
  frozen : s.guest.frozen = true → s.guest.freeze = true
  freezes : ∀ f ∈ s.guest.freezes, f.Kept s
  clocks : ∀ k ∈ s.guest.clockSets, ∃ v, s.conversations[k.conversation]? = some v ∧
    v.purpose = .wake ∧ v.told = some k.nanos
  volume : s.guest.volumeFrozen = true →
    s.guest.volumeStuck = true ∨ ∃ c deadline, s.guest.server = .holding c deadline

structure Consistent (s : System) : Prop extends Leases s where
  talks : ∀ c v, s.conversations[c]? = some v → Talk s.guest c v
  waiting : ∀ c ∈ s.guest.backlog, ∃ v, s.conversations[c]? = some v ∧ v.accepted = false
  nodup : s.guest.backlog.Nodup
  serves : ∀ c, s.guest.server.conversation? = some c →
    ∃ v, s.conversations[c]? = some v ∧ v.accepted = true ∧ Serving s.guest v

section Lookups

variable {s : System} {c d : ℕ} {v : Conversation}

theorem getElem?_modify (f : Conversation → Conversation) :
    (s.modify c f).conversations[d]? =
      if c = d then s.conversations[d]?.map f else s.conversations[d]? := by
  rw [modify, List.getElem?_modify]
  split
  · rfl
  · cases s.conversations[d]? with
    | none => rfl
    | some v => rfl

/-- A conversation that is told stays so when one is changed that keeps that. -/
theorem Told.modify {purpose : Purpose} {f : Conversation → Conversation}
    (h : s.Told purpose d) (hf : ∀ v, s.conversations[c]? = some v → v.told ≠ none →
      (f v).purpose = v.purpose ∧ (f v).told = v.told) : (s.modify c f).Told purpose d := by
  obtain ⟨v, hv, hpurpose, htold⟩ := h
  rw [Told, getElem?_modify]
  split
  · rename_i hsame
    subst hsame
    obtain ⟨hsame, htold'⟩ := hf v hv htold
    exact ⟨f v, by rw [hv]; rfl, hsame.trans hpurpose, htold' ▸ htold⟩
  · exact ⟨v, hv, hpurpose, htold⟩

theorem Freeze.Kept.modify {f : Freeze} {m : Conversation → Conversation} (h : f.Kept s)
    (hm : ∀ v, s.conversations[c]? = some v → v.told ≠ none →
      (m v).purpose = v.purpose ∧ (m v).told = v.told) : f.Kept (s.modify c m) := by
  obtain ⟨htold, hending⟩ := h
  refine ⟨htold.modify hm, ?_⟩
  cases hf : f.ending with
  | none =>
    rw [hf] at hending
    exact hending
  | some ending =>
    rw [hf] at hending
    cases ending with
    | lease time => exact hending
    | woken c | failed c => exact Told.modify hending hm

theorem Leases.modify {f : Conversation → Conversation} (h : Leases s)
    (hf : ∀ v, s.conversations[c]? = some v → v.told ≠ none →
      (f v).purpose = v.purpose ∧ (f v).told = v.told) : Leases (s.modify c f) where
  leased := h.leased
  lease := h.lease
  frozen := h.frozen
  freezes freeze hfreeze := Freeze.Kept.modify (h.freezes freeze hfreeze) hf
  clocks k hk := by
    obtain ⟨v, hv, hpurpose, htold⟩ := h.clocks k hk
    rw [getElem?_modify]
    split
    · rename_i hsame
      subst hsame
      obtain ⟨hsame, htold'⟩ := hf v hv (by rw [htold]; exact Option.some_ne_none _)
      exact ⟨f v, by rw [hv]; rfl, hsame.trans hpurpose, htold'.trans htold⟩
    · exact ⟨v, hv, hpurpose, htold⟩
  volume := h.volume

end Lookups

/-! ### The host -/

section Host

variable {s : System} {c : ℕ}

theorem serving_of_turn {g : Guest} {v w : Conversation} (h : Serving g v) (hturn : HostTurn v w) :
    Serving g w := by
  obtain ⟨hpurpose, hsaid, haccepted, hheld, -, hleft, htold⟩ := hturn
  rw [Serving] at h ⊢
  rw [hpurpose, hsaid, hheld]
  split at h
  · trivial
  · -- a guest that has said nothing is not told to go on
    obtain ⟨hnothing, hpending⟩ := h
    rcases htold with ⟨-, hsame⟩ | ⟨-, -, hready, -⟩
    · exact ⟨hnothing, hsame ▸ hpending⟩
    · rw [hnothing] at hready
      cases hready
  · obtain ⟨hsleep, hready, hpending⟩ := h
    refine ⟨hsleep, hready, fun line hline => ?_⟩
    rcases htold with ⟨hsame, hsame'⟩ | ⟨-, -, -, time, hsome, hmore⟩
    · rw [hsame]
      exact hpending line (hsame' ▸ hline)
    · rw [hsome]
      refine ⟨?_, Option.some_ne_none _⟩
      rw [hmore, if_pos hsleep] at hline
      rcases List.mem_append.mp hline with hline | hline
      · exact (hpending line hline).1
      · exact List.mem_singleton.mp hline
  · obtain ⟨hsleep, hready, hsome, hdeadline⟩ := h
    refine ⟨hsleep, hready, ?_, hdeadline⟩
    rcases htold with ⟨hsame, -⟩ | ⟨hnone, -⟩
    · rwa [hsame]
    · exact absurd hnone hsome
  · obtain ⟨hwake, hready, hpending⟩ := h
    refine ⟨hwake, hready, fun line hline => ?_⟩
    rcases htold with ⟨hsame, hsame'⟩ | ⟨hnone, -, -, time, hsome, hmore⟩
    · rw [hsame]
      exact hpending line (hsame' ▸ hline)
    · rw [hmore, if_neg (by rw [hwake]; decide)] at hline
      rcases List.mem_append.mp hline with hline | hline
      · obtain ⟨time, hsome, -⟩ := hpending line hline
        rw [hnone] at hsome
        cases hsome
      · exact ⟨time, hsome, List.mem_singleton.mp hline⟩
  · obtain ⟨hfreeze, hready, hpending, hrest⟩ := h
    refine ⟨hfreeze, hready, ?_, hrest⟩
    rcases htold with ⟨-, hsame⟩ | ⟨-, hnot, -⟩
    · rw [hsame, hpending]
    · exact absurd hfreeze hnot
  · obtain ⟨hfreeze, hready, hpending, hfrom, hend⟩ := h
    refine ⟨hfreeze, hready, ?_, hfrom, hend.imp_right hleft⟩
    rcases htold with ⟨-, hsame⟩ | ⟨-, hnot, -⟩
    · rw [hsame, hpending]
    · exact absurd hfreeze hnot

/-- The host takes a turn. -/
theorem Consistent.hostTurn {f : Conversation → Conversation} (h : Consistent s)
    (hf : ∀ v, Talk s.guest c v → Talk s.guest c (f v) ∧ HostTurn v (f v)) :
    Consistent (s.modify c f) where
  toLeases := h.toLeases.modify fun v hv htold => by
    obtain ⟨-, hturn⟩ := hf v (h.talks c v hv)
    refine ⟨hturn.purpose, ?_⟩
    rcases hturn.told with ⟨hsame, -⟩ | ⟨hnone, -⟩
    · exact hsame
    · exact absurd hnone htold
  talks d w hw := by
    rw [getElem?_modify] at hw
    split at hw
    · rename_i hsame
      subst hsame
      obtain ⟨v, hv, rfl⟩ := Option.map_eq_some_iff.mp hw
      exact (hf v (h.talks _ v hv)).1
    · exact h.talks d w hw
  waiting d hd := by
    obtain ⟨v, hv, haccepted⟩ := h.waiting d hd
    rw [getElem?_modify]
    split
    · rename_i hsame
      subst hsame
      refine ⟨f v, by rw [hv]; rfl, ?_⟩
      rw [(hf v (h.talks _ v hv)).2.accepted, haccepted]
    · exact ⟨v, hv, haccepted⟩
  nodup := h.nodup
  serves d hd := by
    obtain ⟨v, hv, haccepted, hserving⟩ := h.serves d hd
    rw [getElem?_modify]
    split
    · rename_i hsame
      subst hsame
      obtain ⟨-, hturn⟩ := hf v (h.talks _ v hv)
      exact ⟨f v, by rw [hv]; rfl, hturn.accepted.trans haccepted, serving_of_turn hserving hturn⟩
    · exact ⟨v, hv, haccepted, hserving⟩

end Host

/-! ### The guest -/

section Guest

variable {s : System} {c : ℕ} {v : Conversation} {io : GuestIo}

/-- Something happens at the guest, and in no conversation. -/
theorem Consistent.withGuest {g : Guest} (h : Consistent s) (hserver : g.server = s.guest.server)
    (hbacklog : g.backlog = s.guest.backlog)
    (hsaid : ∀ c v, s.conversations[c]? = some v → Said s.guest c v → Said g c v)
    (hserving : ∀ v, Serving s.guest v → Serving g v) (hleases : Leases (s.withGuest g)) :
    Consistent (s.withGuest g) where
  toLeases := hleases
  talks c v hv :=
    { h.talks c v hv with
      said := hsaid c v hv (h.talks c v hv).said
      busy := fun haccepted hended =>
        (congrArg Server.conversation? hserver).trans ((h.talks c v hv).busy haccepted hended) }
  waiting c hc := h.waiting c (hbacklog ▸ hc)
  nodup := (congrArg List.Nodup hbacklog).mpr h.nodup
  serves c hc := by
    obtain ⟨v, hv, haccepted, hserve⟩ := h.serves c (hserver ▸ hc)
    exact ⟨v, hv, haccepted, hserving v hserve⟩

/-- The guest goes on with one conversation. -/
theorem Consistent.serve {g : Guest} {f : Conversation → Conversation} (h : Consistent s)
    (hv : s.conversations[c]? = some v)
    (hbusy : ∀ d, s.guest.server.conversation? = some d → d = c)
    (hothers : ∀ d w, d ≠ c → s.conversations[d]? = some w → Said s.guest d w → Said g d w)
    (htalk : Talk g c (f v)) (hbacklog : g.backlog.Sublist s.guest.backlog)
    (hnot : (f v).accepted = true → c ∉ g.backlog)
    (hserves : ∀ d, g.server.conversation? = some d →
      d = c ∧ (f v).accepted = true ∧ Serving g (f v))
    (hleases : Leases ((s.modify c f).withGuest g)) : Consistent ((s.modify c f).withGuest g) where
  toLeases := hleases
  talks d w hw := by
    change (s.modify c f).conversations[d]? = some w at hw
    rw [getElem?_modify] at hw
    split at hw
    · rename_i hsame
      subst hsame
      rw [hv] at hw
      cases hw
      exact htalk
    · rename_i hne
      have hold := h.talks d w hw
      exact
        { hold with
          said := hothers d w (Ne.symm hne) hw hold.said
          busy := fun haccepted hended =>
            absurd (hbusy d (hold.busy haccepted hended)).symm hne }
  waiting d hd := by
    obtain ⟨w, hw, haccepted⟩ := h.waiting d (hbacklog.subset hd)
    show ∃ v, (s.modify c f).conversations[d]? = some v ∧ _
    rw [getElem?_modify]
    split
    · rename_i hsame
      subst hsame
      refine ⟨f v, by rw [hv]; rfl, ?_⟩
      cases hnew : (f v).accepted with
      | false => rfl
      | true => exact absurd hd (hnot hnew)
    · exact ⟨w, hw, haccepted⟩
  nodup := h.nodup.sublist hbacklog
  serves d hd := by
    obtain ⟨rfl, haccepted, hserving⟩ := hserves d hd
    refine ⟨f v, ?_, haccepted, hserving⟩
    show (s.modify d f).conversations[d]? = _
    rw [getElem?_modify, if_pos rfl, hv]
    rfl

theorem modify_modify (f f' : Conversation → Conversation) :
    (s.modify c f).modify c f' = s.modify c (f' ∘ f) := by
  rw [modify, modify, modify, List.modify_modify_eq]

/-- What an end of a conversation leaves of it. -/
def closing (lines : List String) (v : Conversation) : Conversation :=
  { v with toHost := (v.toHost.write lines).finish, said := v.said ++ lines }

theorem hangUp_say (c : ℕ) (line : String) :
    (s.say c line io).hangUp c =
      (s.modify c (closing (if io.reply then [line] else []))).goTo .listening := by
  rw [say, hangUp]
  split
  · rw [modify_modify]
    rfl
  · congr 2
    funext v
    rw [closing, Socket.write_nil, List.append_nil]

theorem hangUp_eq (s : System) (c : ℕ) :
    s.hangUp c = (s.modify c (closing [])).goTo .listening := by
  rw [hangUp]
  congr 2
  funext v
  rw [closing, Socket.write_nil, List.append_nil]

/-- The guest is through with the conversation it was at. -/
theorem Consistent.closes (h : Consistent s) (hc : s.guest.server.conversation? = some c)
    (lines : List String)
    (hsaid : ∀ v, s.conversations[c]? = some v → Said s.guest c (closing lines v))
    (hleased : s.guest.freeze = true → s.guest.stuck = true ∨ s.guest.frozenUntil ≠ none)
    (hvolume : s.guest.volumeFrozen = true → s.guest.volumeStuck = true) :
    Consistent ((s.modify c (closing lines)).goTo .listening) := by
  obtain ⟨v, hv, haccepted, -⟩ := h.serves c hc
  have hold := h.talks c v hv
  refine h.serve hv (fun d hd => Option.some.inj (hd.symm.trans hc))
    (fun d w _ _ hsaid => hsaid.same rfl rfl rfl rfl rfl) ?_ (List.Sublist.refl _)
    (fun _ hmem => ?_) (fun d hd => by cases hd) ?_
  · refine { hold with said := ?_, read := ?_, told := fun htold => ?_, unaccepted := ?_,
                        busy := ?_ }
    · exact (hsaid v hv).same rfl rfl rfl rfl rfl
    · show v.said ++ lines = v.heard ++ (v.toHost.pending ++ lines)
      rw [hold.read, List.append_assoc]
    · show (v.said ++ lines).head? = _
      rw [List.head?_append, hold.told htold]
      rfl
    · intro hnot
      exact absurd (haccepted.symm.trans hnot) (by decide)
    · exact fun _ hnot => by cases hnot
  · obtain ⟨w, hw, hnot⟩ := h.waiting c hmem
    rw [hv] at hw
    cases hw
    rw [haccepted] at hnot
    cases hnot
  · have hmodified := h.toLeases.modify (c := c) (f := closing lines) fun v _ _ => ⟨rfl, rfl⟩
    exact
      { hmodified with
        leased := fun hfreeze => (hleased hfreeze).imp_right .inl
        volume := fun hfrozen => .inl (hvolume hfrozen) }

theorem Consistent.hangUp (h : Consistent s) (hc : s.guest.server.conversation? = some c)
    (hleased : s.guest.freeze = true → s.guest.stuck = true ∨ s.guest.frozenUntil ≠ none)
    (hvolume : s.guest.volumeFrozen = true → s.guest.volumeStuck = true) :
    Consistent (s.hangUp c) := by
  rw [hangUp_eq]
  exact h.closes hc [] (fun v hv => (h.talks c v hv).said.same rfl rfl rfl (List.append_nil _) rfl)
    hleased hvolume

/-- The guest refuses, before or after it said that it was ready. -/
theorem Consistent.refuse (h : Consistent s) (hc : s.guest.server.conversation? = some c)
    (hv : s.conversations[c]? = some v)
    (hsaid : v.said = [] ∨ v.purpose ≠ .freeze ∧ v.said = [tenantFreezeReady])
    (hleased : s.guest.freeze = true → s.guest.stuck = true ∨ s.guest.frozenUntil ≠ none)
    (hvolume : s.guest.volumeFrozen = true → s.guest.volumeStuck = true) :
    Consistent (s.refuse c io) := by
  rw [System.refuse, hangUp_say]
  refine h.closes hc _ (fun w hw => ?_) hleased hvolume
  obtain rfl : v = w := Option.some.inj (hv.symm.trans hw)
  split
  · rcases hsaid with hnothing | ⟨hpurpose, hready⟩
    · exact .refused (by rw [closing, hnothing]; rfl)
    · exact .ready hpurpose (.inr (by rw [closing, hready]; rfl))
  · exact (h.talks c v hv).said.same rfl rfl rfl (List.append_nil _) rfl

theorem Leases.leased_of (h : Leases s) {server : Server} (hserver : s.guest.server = server)
    (hnot : ∀ c d, server ≠ .freezing c d) (hfreeze : s.guest.freeze = true) :
    s.guest.stuck = true ∨ s.guest.frozenUntil ≠ none := by
  rcases h.leased hfreeze with hstuck | hlease | ⟨c, d, hfreezing⟩
  · exact .inl hstuck
  · exact .inr hlease
  · exact absurd (hserver.symm.trans hfreezing) (hnot c d)

theorem Leases.volume_of (h : Leases s) {server : Server} (hserver : s.guest.server = server)
    (hnot : ∀ c d, server ≠ .holding c d) (hfrozen : s.guest.volumeFrozen = true) :
    s.guest.volumeStuck = true := by
  rcases h.volume hfrozen with hstuck | ⟨c, d, hholding⟩
  · exact hstuck
  · exact absurd (hserver.symm.trans hholding) (hnot c d)

/-- The processes are released, where that is due. -/
theorem Leases.release (h : Leases s) (ending : Ending)
    (hdue : ∀ f ∈ s.guest.freezes, f.ending = none → ending.Due s f.time) {lease : Option ℕ}
    (hlease : lease = none ∨ lease = s.guest.frozenUntil) :
    Leases (s.withGuest { s.guest.release ending with frozenUntil := lease }) where
  leased hfreeze := by cases hfreeze
  lease deadline hdeadline := by
    rcases hlease with rfl | rfl
    · cases hdeadline
    · exact h.lease deadline hdeadline
  frozen hfrozen := by cases hfrozen
  freezes f hf := by
    obtain ⟨old, hold, rfl⟩ := List.mem_map.mp hf
    obtain ⟨htold, hending⟩ := h.freezes old hold
    refine ⟨htold, ?_⟩
    dsimp only
    cases hnone : old.ending with
    | none => exact hdue old hold hnone
    | some ended =>
      rw [hnone] at hending
      exact hending
  clocks := h.clocks
  volume := h.volume

/-- A conversation whose freeze is heard of does not fail. -/
theorem said_release {g : Guest} {ending : Ending} (h : Said g c v) (lease : Option ℕ)
    (hending : ending ≠ .failed c ∨ v.said = [tenantFreezeReady]) :
    Said { g.release ending with frozenUntil := lease } c v := by
  cases h with
  | nothing said => exact .nothing said
  | refused said => exact .refused said
  | ready purpose said => exact .ready purpose said
  | held purpose said froze =>
    obtain ⟨f, hf, hconversation, hnot⟩ := froze
    refine .held purpose said ⟨_, List.mem_map_of_mem hf, hconversation, ?_⟩
    dsimp only
    intro hfailed
    have hgetD := Option.some.inj hfailed
    cases hnone : f.ending with
    | none =>
      rw [hnone, Option.getD_none] at hgetD
      rcases hending with hending | hready
      · exact hending hgetD
      · rw [said] at hready
        cases hready
    | some ended =>
      rw [hnone, Option.getD_some] at hgetD
      exact hnot (by rw [hnone, hgetD])
  | released purpose said set => exact .released purpose said set
  | volume purpose said held => exact .volume purpose said held

theorem serving_listening {g : Guest} (hserver : g.server = .listening) (v : Conversation) :
    Serving g v := by
  rw [Serving, hserver]
  trivial

theorem Consistent.endLease (h : Consistent s) (io : GuestIo)
    (hserver : s.guest.server = .listening) :
    Consistent (s.withGuest (s.guest.endLease io)) := by
  rw [Guest.endLease]
  split
  · rename_i hover
    obtain ⟨deadline, hdeadline, hpast⟩ : ∃ deadline, s.guest.frozenUntil = some deadline ∧
        deadline ≤ s.guest.now := by
      have hover := (Bool.and_eq_true_iff.mp hover).1
      rw [Guest.leaseOver, Option.any_eq_true] at hover
      obtain ⟨deadline, hdeadline, hpast⟩ := hover
      exact ⟨deadline, hdeadline, of_decide_eq_true hpast⟩
    refine h.withGuest (by rfl) (by rfl)
      (fun c v _ hsaid => said_release hsaid none (.inl fun hnot => by cases hnot))
      (fun v _ => serving_listening (by exact hserver) v)
      (h.toLeases.release _ (fun f hf hnone => ?_) (.inl rfl))
    obtain ⟨-, hkept⟩ := h.freezes f hf
    rw [hnone] at hkept
    obtain ⟨-, -, leased, hleased, hle⟩ := hkept
    rw [hdeadline] at hleased
    cases hleased
    exact Nat.le_trans hle hpast
  · exact h

/-- The guest takes the next connection. -/
theorem Consistent.accept (h : Consistent s) (hserver : s.guest.server = .listening)
    {backlog : List ℕ} (hbacklog : s.guest.backlog = c :: backlog) :
    Consistent (((s.withGuest { s.guest with backlog := backlog }).modify c
      fun v => { v with accepted := true }).goTo (.reading c)) := by
  obtain ⟨v, hv, hnew⟩ := h.waiting c (by rw [hbacklog]; exact List.mem_cons_self)
  have hold := h.talks c v hv
  obtain ⟨hsaid, hpending⟩ := hold.unaccepted hnew
  have hnodup := hbacklog ▸ h.nodup
  refine h.serve (g := { s.guest with backlog := backlog, server := .reading c }) hv
    (fun d hd => ?_) (fun d w _ _ hsaid => hsaid.same rfl rfl rfl rfl rfl) ?_ ?_ (fun _ => ?_)
    (fun d hd => ?_) ?_
  · rw [hserver] at hd
    cases hd
  · exact
      { hold with
        said := hold.said.same rfl rfl rfl rfl rfl
        unaccepted := fun hnot => by cases hnot
        busy := fun _ _ => rfl }
  · rw [hbacklog]
    exact List.sublist_cons_self _ _
  · exact (List.nodup_cons.mp hnodup).1
  · cases hd
    exact ⟨rfl, rfl, hsaid, hpending ▸ List.suffix_rfl⟩
  · have hmodified := h.toLeases.modify (c := c) (f := fun v => { v with accepted := true })
      fun v _ _ => ⟨rfl, rfl⟩
    refine { hmodified with leased := fun hfreeze => ?_, volume := fun hfrozen => ?_ }
    · refine (h.leased hfreeze).imp_right (.imp_right fun hnot => ?_)
      obtain ⟨d, deadline, hnot⟩ := hnot
      rw [hserver] at hnot
      cases hnot
    · refine (h.volume hfrozen).imp_right fun hnot => ?_
      obtain ⟨d, deadline, hnot⟩ := hnot
      rw [hserver] at hnot
      cases hnot

theorem Consistent.listen (h : Consistent s) (hserver : s.guest.server = .listening) :
    Consistent (s.listen io) := by
  have hidle := h.endLease io hserver
  have hserver' : (s.withGuest (s.guest.endLease io)).guest.server = .listening := by
    show (s.guest.endLease io).server = .listening
    rw [Guest.endLease]
    split
    · exact hserver
    · exact hserver
  rw [System.listen]
  dsimp only
  generalize s.withGuest (s.guest.endLease io) = t at *
  split
  · exact hidle
  · rename_i c backlog hbacklog
    have haccepted := hidle.accept hserver' hbacklog
    split
    · exact haccepted
    · exact haccepted.hangUp rfl
        (haccepted.leased_of rfl fun _ _ hnot => by cases hnot)
        (haccepted.volume_of rfl fun _ _ hnot => by cases hnot)

/-- What holds of the conversation that the server is in. -/
theorem Consistent.serving (h : Consistent s) {server : Server} (hserver : s.guest.server = server)
    (hat : server.conversation? = some c) :
    s.guest.server.conversation? = some c ∧ ∃ v, s.conversations[c]? = some v ∧
      v.accepted = true ∧ Serving { s.guest with server := server } v := by
  subst hserver
  exact ⟨hat, h.serves c hat⟩

theorem Consistent.served (h : Consistent s) (hv : s.conversations[c]? = some v) {server : Server}
    (hserver : s.guest.server = server) (hat : server.conversation? = some c) :
    s.guest.server.conversation? = some c ∧ v.accepted = true ∧
      Serving { s.guest with server := server } v := by
  obtain ⟨hc, w, hw, hserving⟩ := h.serving hserver hat
  cases hv.symm.trans hw
  exact ⟨hc, hserving⟩

theorem Consistent.notMem_backlog (h : Consistent s) (hv : s.conversations[c]? = some v)
    (haccepted : v.accepted = true) : c ∉ s.guest.backlog := by
  intro hmem
  obtain ⟨w, hw, hnot⟩ := h.waiting c hmem
  rw [hv] at hw
  cases hw
  rw [haccepted] at hnot
  cases hnot

/-- The guest reads a line. -/
theorem Consistent.take (h : Consistent s) (hc : s.guest.server.conversation? = some c) :
    Consistent (s.take c) := by
  obtain ⟨v, hv, haccepted, hserving⟩ := h.serves c hc
  have hold := h.talks c v hv
  refine h.serve (g := s.guest) hv (fun d hd => Option.some.inj (hd.symm.trans hc))
    (fun d w _ _ hsaid => hsaid) ?_ (List.Sublist.refl _)
    (fun _ => h.notMem_backlog hv haccepted) (fun d hd => ?_)
    (h.toLeases.modify fun v _ _ => ⟨rfl, rfl⟩)
  · exact
      { hold with
        said := hold.said.same rfl rfl rfl rfl rfl
        unaccepted := fun hnot => absurd (haccepted.symm.trans hnot) (by decide) }
  · refine ⟨Option.some.inj (hd.symm.trans hc), haccepted, ?_⟩
    rw [Serving] at hserving ⊢
    split at hserving
    · trivial
    · exact ⟨hserving.1, (List.drop_suffix _ _).trans hserving.2⟩
    · obtain ⟨hsleep, hready, hpending⟩ := hserving
      exact ⟨hsleep, hready, fun line hline => hpending line (List.mem_of_mem_drop hline)⟩
    · exact hserving
    · obtain ⟨hwake, hready, hpending⟩ := hserving
      exact ⟨hwake, hready, fun line hline => hpending line (List.mem_of_mem_drop hline)⟩
    · obtain ⟨hfreeze, hready, hpending, hrest⟩ := hserving
      exact ⟨hfreeze, hready, by rw [Socket.pending_drop, hpending]; rfl, hrest⟩
    · obtain ⟨hfreeze, hready, hpending, hrest⟩ := hserving
      exact ⟨hfreeze, hready, by rw [Socket.pending_drop, hpending]; rfl, hrest⟩

/-- The guest says that it is ready. -/
theorem Consistent.ready (h : Consistent s) (hserver : s.guest.server = .reading c)
    (hv : s.conversations[c]? = some v) (hpending : v.toGuest.pending = []) {server : Server}
    (hready : server = .confirming c ∧ v.purpose = .sleep ∨
      server = .synchronizing c ∧ v.purpose = .wake) (hreply : io.reply = true) :
    Consistent ((s.say c tenantFreezeReady io).goTo server) := by
  obtain ⟨hc, haccepted, hserving⟩ := h.served hv hserver rfl
  have hold := h.talks c v hv
  have hpurpose : v.purpose ≠ .freeze := by
    rcases hready with ⟨-, hpurpose⟩ | ⟨-, hpurpose⟩
    · rw [hpurpose]
      decide
    · rw [hpurpose]
      decide
  have hsaid : v.said ++ [tenantFreezeReady] = [tenantFreezeReady] := by
    rw [hserving.1, List.nil_append]
  have hconversation : server.conversation? = some c := by
    rcases hready with ⟨rfl, -⟩ | ⟨rfl, -⟩
    · rfl
    · rfl
  rw [say, if_pos hreply]
  refine h.serve (g := { s.guest with server := server }) hv
    (fun d hd => Option.some.inj (hd.symm.trans hc))
    (fun d w _ _ hsaid => hsaid.same rfl rfl rfl rfl rfl) ?_ (List.Sublist.refl _)
    (fun _ => h.notMem_backlog hv haccepted) (fun d hd => ?_) ?_
  · refine { hold with said := .ready hpurpose (.inl hsaid), read := ?_, told := fun _ => ?_,
                        unaccepted := ?_, busy := fun _ _ => hconversation }
    · show v.said ++ _ = v.heard ++ (v.toHost.pending ++ _)
      rw [hold.read, List.append_assoc]
    · show (v.said ++ _).head? = _
      rw [hsaid]
      rfl
    · exact fun hnot => absurd (haccepted.symm.trans hnot) (by decide)
  · refine ⟨Option.some.inj (hd.symm.trans hconversation), haccepted, ?_⟩
    rcases hready with ⟨rfl, hpurpose⟩ | ⟨rfl, hpurpose⟩
    · refine ⟨hpurpose, hsaid, fun line hline => ?_⟩
      change line ∈ v.toGuest.pending at hline
      rw [hpending] at hline
      cases hline
    · refine ⟨hpurpose, hsaid, fun line hline => ?_⟩
      change line ∈ v.toGuest.pending at hline
      rw [hpending] at hline
      cases hline
  · have hmodified := h.toLeases.modify (c := c)
      (f := fun v =>
        { v with
          toHost := v.toHost.write [tenantFreezeReady]
          said := v.said ++ [tenantFreezeReady] })
      fun v _ _ => ⟨rfl, rfl⟩
    exact
      { hmodified with
        leased := fun hfreeze =>
          (h.leased_of hserver (by simp) hfreeze).imp_right .inl
        volume := fun hfrozen =>
          .inl (h.volume_of hserver (by simp) hfrozen) }

/-- The volume is held for a conversation. -/
theorem Consistent.holds (h : Consistent s) (hserver : s.guest.server = .reading c)
    (hv : s.conversations[c]? = some v) (hpending : v.toGuest.pending = [])
    (hpurpose : v.purpose = .freeze) (hlease : s.guest.frozenUntil = none)
    (hreply : io.reply = true) :
    Consistent ((((s.withGuest { s.guest with volumeFrozen := true }).say c freezeHeld io).modify c
      fun v => { v with heldFrom := some s.guest.now }).goTo
        (.holding c (s.guest.now + maxHold))) := by
  obtain ⟨hc, haccepted, hserving⟩ := h.served hv hserver rfl
  have hold := h.talks c v hv
  have hsaid : v.said ++ [freezeHeld] = [freezeHeld] := by rw [hserving.1, List.nil_append]
  rw [say, if_pos hreply, modify_modify]
  refine h.serve (g := { s.guest with
      volumeFrozen := true, server := .holding c (s.guest.now + maxHold) }) hv
    (fun d hd => Option.some.inj (hd.symm.trans hc))
    (fun d w _ _ hsaid => hsaid.same rfl rfl rfl rfl rfl) ?_ (List.Sublist.refl _)
    (fun _ => h.notMem_backlog hv haccepted) (fun d hd => ?_) ?_
  · refine { hold with said := .volume hpurpose hsaid (Option.some_ne_none _), read := ?_,
                        told := fun htold => ?_, unaccepted := ?_, busy := fun _ _ => rfl }
    · show v.said ++ _ = v.heard ++ (v.toHost.pending ++ _)
      rw [hold.read, List.append_assoc]
    · have hready := hold.told htold
      rw [hserving.1] at hready
      cases hready
    · exact fun hnot => absurd (haccepted.symm.trans hnot) (by decide)
  · exact ⟨(Option.some.inj hd).symm, haccepted, hpurpose, hsaid, hpending,
      ⟨s.guest.now, Nat.le_refl _, rfl, rfl⟩, rfl, hlease⟩
  · have hmodified := h.toLeases.modify (c := c)
      (f := (fun v => { v with heldFrom := some s.guest.now }) ∘ fun v =>
        { v with toHost := v.toHost.write [freezeHeld], said := v.said ++ [freezeHeld] })
      fun v _ _ => ⟨rfl, rfl⟩
    exact
      { hmodified with
        leased := fun hfreeze =>
          (h.leased_of hserver (by simp) hfreeze).imp_right .inl
        volume := fun _ => .inr ⟨c, _, rfl⟩ }

/-- A volume that is still frozen when it was let go could not be. -/
theorem thaw_eq (g : Guest) (io : GuestIo) :
    ∃ frozen stuck, g.thaw io = { g with volumeFrozen := frozen, volumeStuck := stuck } ∧
      (frozen = true → stuck = true) := by
  rw [Guest.thaw]
  split
  · exact ⟨false, false, rfl, fun hnot => by cases hnot⟩
  · exact ⟨g.volumeFrozen, true, rfl, fun _ => rfl⟩

theorem Consistent.thawed (h : Consistent s) (hserver : s.guest.server = .reading c)
    {frozen stuck : Bool} (hstuck : frozen = true → stuck = true) :
    Consistent (s.withGuest { s.guest with volumeFrozen := frozen, volumeStuck := stuck }) := by
  refine h.withGuest (by rfl) (by rfl) (fun c v _ hsaid => hsaid.same rfl rfl rfl rfl rfl)
    (fun v hserving => ?_) { h.toLeases with volume := fun hfrozen => .inl (hstuck hfrozen) }
  rw [Serving, hserver] at hserving
  rw [Serving]
  dsimp only
  rw [hserver]
  exact hserving

theorem request_inj (purpose : Purpose) :
    (purpose.request = tenantFreezeRequest ↔ purpose = .sleep) ∧
      (purpose.request = tenantClockRequest ↔ purpose = .wake) ∧
      (purpose.request = freezeRequest ↔ purpose = .freeze) := by
  cases purpose
  · decide
  · decide
  · decide

/-- The guest turns to what it is asked. -/
theorem Consistent.request (h : Consistent s) (hserver : s.guest.server = .reading c)
    (hv : s.conversations[c]? = some v) (hpending : v.toGuest.pending = []) :
    Consistent (s.request c v.purpose.request io) := by
  obtain ⟨hc, haccepted, hserving⟩ := h.served hv hserver rfl
  have hleased := h.leased_of hserver (by simp)
  have hvolume := h.volume_of hserver (by simp)
  have hrefuse : Consistent (s.refuse c io) := h.refuse hc hv (.inl hserving.1) hleased hvolume
  obtain ⟨hsleep, hwake, hfreeze⟩ := request_inj v.purpose
  rw [System.request]
  split
  · rename_i hline
    split
    · rename_i hreply
      exact h.ready hserver hv hpending (.inl ⟨rfl, hsleep.mp hline⟩) hreply
    · exact hrefuse
  · split
    · rename_i hline
      split
      · rename_i hreply
        exact h.ready hserver hv hpending (.inr ⟨rfl, hwake.mp hline⟩) hreply
      · exact hrefuse
    · split
      · exact h.hangUp hc hleased hvolume
      · rename_i hfree
        rw [Bool.or_eq_true, not_or, decide_eq_true_eq, not_not, Option.not_isSome_iff_eq_none]
          at hfree
        obtain ⟨hline, hlease⟩ := hfree
        split
        · exact hrefuse
        · dsimp only
          split
          · rename_i hreply
            exact h.holds hserver hv hpending (hfreeze.mp hline) hlease hreply
          · obtain ⟨frozen, stuck, hthaw, hstuck⟩ :=
              thaw_eq { s.guest with volumeFrozen := true } io
            show Consistent ((s.withGuest
              (({ s.guest with volumeFrozen := true } : Guest).thaw io)).hangUp c)
            rw [hthaw]
            exact (h.thawed hserver hstuck).hangUp hc hleased hstuck

/-- The host has, or has not, confirmed that the tenant is to be frozen. -/
theorem Consistent.confirm (h : Consistent s) {line : String}
    (hserver : s.guest.server = .confirming c) (hv : s.conversations[c]? = some v)
    (htold : line = tenantFreezeCommit → v.told ≠ none) : Consistent (s.confirm c line io) := by
  obtain ⟨hc, haccepted, hsleep, hready, -⟩ := h.served hv hserver rfl
  have hleased := h.leased_of hserver (by simp)
  have hvolume := h.volume_of hserver (by simp)
  rw [System.confirm]
  split
  · exact h.refuse hc hv (.inr ⟨by rw [hsleep]; decide, hready⟩) hleased hvolume
  · rename_i hgo
    rw [Bool.or_eq_true, not_or, decide_eq_true_eq, not_not] at hgo
    have hold := h.talks c v hv
    have hcommits := h.serve (f := id)
      (g := { s.guest with
        freeze := true, server := .freezing c (s.guest.now + freezeTimeout) }) hv
      (fun d hd => Option.some.inj (hd.symm.trans hc))
      (fun d w _ _ hsaid => hsaid.same rfl rfl rfl rfl rfl)
      { hold with said := hold.said.same rfl rfl rfl rfl rfl, busy := fun _ _ => rfl }
      (List.Sublist.refl _) (fun _ => h.notMem_backlog hv haccepted)
      (fun d hd => ⟨(Option.some.inj hd).symm, haccepted, hsleep, hready, htold hgo.1,
        Nat.le_refl _⟩) ?_
    · rw [modify, List.modify_id] at hcommits
      exact hcommits
    · rw [modify, List.modify_id]
      exact
        { h.toLeases with
          leased := fun _ => .inr (.inr ⟨c, _, rfl⟩)
          frozen := fun _ => rfl
          freezes := fun f hf => by
            obtain ⟨htold, hkept⟩ := h.freezes f hf
            refine ⟨htold, ?_⟩
            split
            · rename_i hnone
              rw [hnone] at hkept
              exact ⟨rfl, hkept.2⟩
            · rename_i ending hsome
              rw [hsome] at hkept
              exact hkept
          volume := fun hfrozen => .inl (hvolume hfrozen) }

theorem lease_none {lease old : Option ℕ} (h : lease = none ∨ lease = old)
    (hnone : old = none) : lease = none :=
  h.elim id fun hsame => hsame.trans hnone

/-- What is frozen for the conversation the guest is at may be released. -/
theorem Consistent.releaseFreezing (h : Consistent s) {deadline : ℕ}
    (hserver : s.guest.server = .freezing c deadline) {lease : Option ℕ}
    (hlease : lease = none ∨ lease = s.guest.frozenUntil) :
    Consistent (s.withGuest { s.guest.release (.failed c) with frozenUntil := lease }) := by
  obtain ⟨hc, v, hv, haccepted, hsleep, hready, htold, hdeadline⟩ := h.serving hserver rfl
  have htells : s.Told .sleep c := ⟨v, hv, hsleep, htold⟩
  refine h.withGuest (by rfl) (by rfl) (fun d w hw hsaid => said_release hsaid lease ?_)
    (fun w hserving => hserving.later rfl (Nat.le_refl _) rfl (lease_none hlease))
    (h.toLeases.release (.failed c) (fun f hf hnone => htells) hlease)
  by_cases hsame : c = d
  · subst hsame
    rw [hv] at hw
    cases hw
    exact .inr hready
  · exact .inl fun hfailed => hsame (Ending.failed.inj hfailed)

theorem Consistent.takeBack (h : Consistent s) (io : GuestIo) {deadline : ℕ}
    (hserver : s.guest.server = .freezing c deadline) :
    Consistent (s.withGuest (s.guest.takeBack c io)) ∧
      ((s.guest.takeBack c io).freeze = true → (s.guest.takeBack c io).stuck = true) ∧
      (s.guest.takeBack c io).server = s.guest.server ∧
      (s.guest.takeBack c io).volumeFrozen = s.guest.volumeFrozen ∧
      (s.guest.takeBack c io).volumeStuck = s.guest.volumeStuck := by
  rw [Guest.takeBack]
  split
  · exact ⟨h.releaseFreezing hserver (.inr rfl), fun hnot => (by cases hnot), rfl, rfl, rfl⟩
  · refine ⟨?_, fun _ => rfl, rfl, rfl, rfl⟩
    exact h.withGuest (by rfl) (by rfl) (fun c v _ hsaid => hsaid.same rfl rfl rfl rfl rfl)
      (fun v hserving => hserving.later rfl (Nat.le_refl _) rfl fun hnone => hnone)
      { h.toLeases with leased := fun _ => .inl rfl }

/-- The processes are all frozen, and the lease of the tenant begins. -/
theorem Consistent.held (h : Consistent s) {deadline : ℕ}
    (hserver : s.guest.server = .freezing c deadline) (hfrozen : s.guest.frozen = true) :
    Consistent (s.withGuest (s.guest.held c)) := by
  obtain ⟨hc, v, hv, haccepted, hsleep, hready, htold, hdeadline⟩ := h.serving hserver rfl
  refine h.withGuest (by rfl) (by rfl) (fun d w hw hsaid => ?_) (fun w hserving => ?_) ?_
  · exact hsaid.more (List.subset_append_left _ _) (List.Subset.refl _)
  · rw [Serving, hserver] at hserving
    rw [Serving, show (s.guest.held c).server = .freezing c deadline from hserver]
    exact hserving
  · refine { h.toLeases with leased := fun _ => .inr (.inl (Option.some_ne_none _)),
                              lease := fun d hd => ?_, freezes := fun f hf => ?_ }
    · cases hd
      exact Nat.le_refl _
    · rcases List.mem_append.mp hf with hf | hf
      · obtain ⟨htold, hkept⟩ := h.freezes f hf
        refine ⟨htold, ?_⟩
        cases hending : f.ending with
        | none =>
          rw [hending] at hkept
          obtain ⟨hfreeze, -, leased, hleased, hle⟩ := hkept
          exact ⟨hfreeze, hfrozen, _, rfl, Nat.le_trans hle (h.lease leased hleased)⟩
        | some ending =>
          rw [hending] at hkept
          exact hkept
      · cases List.mem_singleton.mp hf
        exact ⟨⟨v, hv, hsleep, htold⟩, h.frozen hfrozen, hfrozen, _, rfl, Nat.le_refl _⟩

theorem Consistent.poll (h : Consistent s) {deadline : ℕ}
    (hserver : s.guest.server = .freezing c deadline) : Consistent (s.poll c deadline io) := by
  obtain ⟨hc, v, hv, haccepted, hsleep, hready, htold, hdeadline⟩ := h.serving hserver rfl
  have hvolume := h.volume_of hserver (by simp)
  have hrefuses : Consistent ((s.withGuest (s.guest.takeBack c io)).refuse c io) := by
    obtain ⟨htaken, hstuck, hsame, hfrozen, hlet⟩ := h.takeBack io hserver
    exact htaken.refuse (by exact (congrArg Server.conversation? hsame).trans hc) hv
      (.inr ⟨by rw [hsleep]; decide, hready⟩) (fun hfreeze => .inl (hstuck hfreeze))
      (fun hnot => hlet.trans (hvolume (hfrozen.symm.trans hnot)))
  rw [System.poll]
  split
  · exact hrefuses
  · split
    · rename_i hfrozen
      have hheld := h.held hserver hfrozen
      dsimp only
      split
      · rename_i hreply
        rw [hangUp_say, if_pos hreply]
        refine hheld.closes hc _ (fun w hw => ?_) (fun _ => .inr (Option.some_ne_none _)) hvolume
        rw [show (s.withGuest (s.guest.held c)).conversations[c]? = some v from hv] at hw
        cases hw
        refine .held hsleep (by rw [closing, hready]; rfl)
          ⟨⟨c, s.guest.now, none⟩, List.mem_append_right _ List.mem_cons_self, rfl, ?_⟩
        exact fun hnot => by cases hnot
      · split
        · exact (hheld.releaseFreezing hserver (.inl rfl)).hangUp hc (fun hnot => by cases hnot)
            hvolume
        · exact hheld.hangUp hc (fun _ => .inr (Option.some_ne_none _)) hvolume
    · split
      · exact hrefuses
      · exact h

theorem hostTime_releaseLine {time : ℕ} :
    hostTime (releaseLine time) = if time < 2 ^ 128 then some time else none := by
  have htext : (releaseLine time).toList = tenantClockRelease.toList ++ decimal time := by
    rw [releaseLine, String.toList_append, String.toList_ofList]
  rw [hostTime, htext, List.take_left, if_pos rfl, List.drop_left, parseDecimal?_decimal]

/-- The clock is set to the time of the host when it told the guest to go on. -/
theorem Consistent.sets (h : Consistent s) (hserver : s.guest.server = .synchronizing c)
    (hv : s.conversations[c]? = some v) {nanos : ℕ} (htold : v.told = some nanos)
    (released : Bool) :
    Consistent (s.withGuest
      { s.guest with clockSets := s.guest.clockSets ++ [⟨c, nanos, released⟩] }) := by
  obtain ⟨hc, haccepted, hserving⟩ := h.served hv hserver rfl
  refine h.withGuest (by rfl) (by rfl)
    (fun d w hw hsaid => hsaid.more (List.Subset.refl _) (List.subset_append_left _ _))
    (fun w hserving => hserving.later rfl (Nat.le_refl _) rfl fun hnone => hnone)
    { h.toLeases with clocks := fun k hk => ?_ }
  rcases List.mem_append.mp hk with hk | hk
  · exact h.clocks k hk
  · cases List.mem_singleton.mp hk
    exact ⟨v, hv, hserving.1, htold⟩

theorem Consistent.releaseWoken (h : Consistent s) (hserver : s.guest.server = .synchronizing c)
    (hv : s.conversations[c]? = some v) (htold : v.told ≠ none) {lease : Option ℕ}
    (hlease : lease = none ∨ lease = s.guest.frozenUntil) :
    Consistent (s.withGuest { s.guest.release (.woken c) with frozenUntil := lease }) := by
  obtain ⟨hc, haccepted, hserving⟩ := h.served hv hserver rfl
  have htells : s.Told .wake c := ⟨v, hv, hserving.1, htold⟩
  exact h.withGuest (by rfl) (by rfl)
    (fun d w hw hsaid => said_release hsaid lease (.inl fun hnot => by cases hnot))
    (fun w hserving => hserving.later rfl (Nat.le_refl _) rfl (lease_none hlease))
    (h.toLeases.release (.woken c) (fun f hf hnone => htells) hlease)

theorem Consistent.synchronize (h : Consistent s) {line : String}
    (hserver : s.guest.server = .synchronizing c) (hv : s.conversations[c]? = some v)
    (hline : ∃ time, v.told = some time ∧ line = releaseLine time) :
    Consistent (s.synchronize c line io) := by
  obtain ⟨hc, haccepted, hwake, hready, -⟩ := h.served hv hserver rfl
  have hleased := h.leased_of hserver (by simp)
  have hvolume := h.volume_of hserver (by simp)
  have hsaid : v.said = [] ∨ v.purpose ≠ .freeze ∧ v.said = [tenantFreezeReady] :=
    .inr ⟨by rw [hwake]; decide, hready⟩
  obtain ⟨time, htold, rfl⟩ := hline
  rw [System.synchronize, hostTime_releaseLine]
  split
  · exact h.refuse hc hv hsaid hleased hvolume
  · rename_i nanos hnanos
    obtain rfl : nanos = time := by
      split at hnanos
      · exact (Option.some.inj hnanos).symm
      · cases hnanos
    have hsets := h.sets hserver hv htold io.cgroup
    split
    · exact h.refuse hc hv hsaid hleased hvolume
    · dsimp only
      split
      · exact hsets.refuse hc hv hsaid hleased hvolume
      · rename_i hcgroup
        have hsome : v.told ≠ none := by rw [htold]; exact Option.some_ne_none _
        split
        · rename_i hreply
          have hreleased := hsets.releaseWoken hserver hv hsome (.inl rfl)
          rw [hangUp_say, if_pos hreply]
          refine hreleased.closes hc _ (fun w hw => ?_) (fun hnot => by cases hnot) hvolume
          obtain rfl : v = w := Option.some.inj (hv.symm.trans hw)
          refine .released hwake (by rw [closing, hready]; rfl)
            ⟨⟨c, nanos, io.cgroup⟩, List.mem_append_right _ List.mem_cons_self, rfl, ?_⟩
          simpa using hcgroup
        · exact (hsets.releaseWoken hserver hv hsome (.inr rfl)).refuse hc hv hsaid
            (fun hnot => by cases hnot) hvolume

/-- A volume is let go when its time is up. -/
theorem Consistent.hold (h : Consistent s) {deadline : ℕ}
    (hserver : s.guest.server = .holding c deadline) : Consistent (s.hold c deadline io) := by
  obtain ⟨hc, v, hv, haccepted, hfreeze, hsaid, hpending, hfrom, -, -⟩ := h.serving hserver rfl
  rw [System.hold]
  split
  · rename_i hover
    have hend : deadline ≤ s.guest.now ∨ v.toGuest.ended = true := by
      rw [hv, Option.any_some, Socket.isReadable, hpending, Bool.or_eq_true] at hover
      exact (hover.imp id of_decide_eq_true).symm
    have hold := h.talks c v hv
    obtain ⟨frozen, stuck, hthaw, hstuck⟩ := thaw_eq s.guest io
    rw [hthaw]
    have hleaves := h.serve (f := id)
      (g := { s.guest with
        volumeFrozen := frozen, volumeStuck := stuck, server := .leaving c deadline }) hv
      (fun d hd => Option.some.inj (hd.symm.trans hc))
      (fun d w _ _ hsaid => hsaid.same rfl rfl rfl rfl rfl)
      { hold with said := hold.said.same rfl rfl rfl rfl rfl, busy := fun _ _ => rfl }
      (List.Sublist.refl _) (fun _ => h.notMem_backlog hv haccepted)
      (fun d hd => ⟨(Option.some.inj hd).symm, haccepted, hfreeze, hsaid, hpending, hfrom, hend⟩) ?_
    · rw [modify, List.modify_id] at hleaves
      exact hleaves
    · rw [modify, List.modify_id]
      exact
        { h.toLeases with
          leased := fun hfreeze => (h.leased_of hserver (by simp) hfreeze).imp_right .inl
          volume := fun hfrozen => .inl (hstuck hfrozen) }
  · exact h

theorem Consistent.guestStep (h : Consistent s) : Consistent (s.guestStep io) := by
  -- what a read gives is the first line that the host wrote
  have hreads {c : ℕ} {line : String} (hline : s.reads c io = .line line) :
      ∃ v rest, s.conversations[c]? = some v ∧ v.toGuest.pending = line :: rest := by
    rw [reads] at hline
    split at hline
    · cases hline
    · split at hline
      · cases hline
      · rename_i v hv
        split at hline
        · rename_i first rest hpending
          cases hline
          exact ⟨v, rest, hv, hpending⟩
        · split at hline
          · cases hline
          · cases hline
  have htakes {c : ℕ} {v : Conversation} (hv : s.conversations[c]? = some v) :
      (s.take c).conversations[c]? = some { v with toGuest := v.toGuest.drop 1 } := by
    rw [System.take, getElem?_modify, if_pos rfl, hv]
    rfl
  rw [System.guestStep]
  split
  · rename_i hserver
    exact h.listen hserver
  · rename_i c hserver
    obtain ⟨hc, w, hw, haccepted, hserving⟩ := h.serving hserver rfl
    split
    · rename_i line hline
      obtain ⟨v, rest, hv, hpending⟩ := hreads hline
      obtain rfl : v = w := Option.some.inj (hv.symm.trans hw)
      obtain ⟨hnothing, hsuffix⟩ := hserving
      rw [hpending] at hsuffix
      obtain ⟨rfl, rfl⟩ : line = v.purpose.request ∧ rest = [] := by
        have hlength := hsuffix.length_le
        have hrest : rest = [] := List.length_eq_zero_iff.mp (by simpa using hlength)
        subst hrest
        exact ⟨List.mem_singleton.mp (hsuffix.subset List.mem_cons_self), rfl⟩
      refine (h.take hc).request (v := { v with toGuest := v.toGuest.drop 1 }) hserver
        (htakes hv) ?_
      rw [Socket.pending_drop, hpending]
      rfl
    · exact h.hangUp hc (h.leased_of hserver (by simp)) (h.volume_of hserver (by simp))
    · exact h
  · rename_i c hserver
    obtain ⟨hc, w, hw, haccepted, hsleep, hready, hpending⟩ := h.serving hserver rfl
    split
    · rename_i line hline
      obtain ⟨v, rest, hv, hfirst⟩ := hreads hline
      obtain rfl : v = w := Option.some.inj (hv.symm.trans hw)
      exact (h.take hc).confirm hserver (htakes hv) fun _ =>
        (hpending line (by rw [hfirst]; exact List.mem_cons_self)).2
    · exact h.refuse hc hw (.inr ⟨by rw [hsleep]; decide, hready⟩) (h.leased_of hserver (by simp))
        (h.volume_of hserver (by simp))
    · exact h
  · rename_i c deadline hserver
    exact h.poll hserver
  · rename_i c hserver
    obtain ⟨hc, w, hw, haccepted, hwake, hready, hpending⟩ := h.serving hserver rfl
    split
    · rename_i line hline
      obtain ⟨v, rest, hv, hfirst⟩ := hreads hline
      obtain rfl : v = w := Option.some.inj (hv.symm.trans hw)
      exact (h.take hc).synchronize hserver (htakes hv)
        (hpending line (by rw [hfirst]; exact List.mem_cons_self))
    · exact h.refuse hc hw (.inr ⟨by rw [hwake]; decide, hready⟩) (h.leased_of hserver (by simp))
        (h.volume_of hserver (by simp))
    · exact h
  · rename_i c deadline hserver
    exact h.hold hserver
  · rename_i c deadline hserver
    have hc : s.guest.server.conversation? = some c := hserver ▸ rfl
    exact h.hangUp hc (h.leased_of hserver (by simp)) (h.volume_of hserver (by simp))

end Guest

/-! ### Runs -/

section Runs

variable {s : System}

theorem Leases.mono (h : Leases s) {conversations : List Conversation}
    (hmore : ∀ (c : ℕ) v, s.conversations[c]? = some v → conversations[c]? = some v) :
    Leases { s with conversations := conversations } := by
  have htold (purpose : Purpose) {c : ℕ} (htold : s.Told purpose c) :
      Told { s with conversations := conversations } purpose c := by
    obtain ⟨v, hv, hrest⟩ := htold
    exact ⟨v, hmore c v hv, hrest⟩
  refine { h with freezes := fun f hf => ?_, clocks := fun k hk => ?_ }
  · obtain ⟨hfreeze, hkept⟩ := h.freezes f hf
    refine ⟨htold .sleep hfreeze, ?_⟩
    cases hending : f.ending with
    | none =>
      rw [hending] at hkept
      exact hkept
    | some ending =>
      rw [hending] at hkept
      cases ending with
      | lease time => exact hkept
      | woken c => exact htold .wake hkept
      | failed c => exact htold .sleep hkept
  · obtain ⟨v, hv, hset⟩ := h.clocks k hk
    exact ⟨v, hmore _ v hv, hset⟩

/-- Another conversation waits for the guest. -/
theorem Consistent.connect (h : Consistent s) (purpose : Purpose) :
    Consistent (s.step (.connect purpose)) := by
  have hmore (c : ℕ) (v : Conversation) (hv : s.conversations[c]? = some v) :
      (s.conversations ++ [.start purpose])[c]? = some v := by
    rw [List.getElem?_append_left (List.getElem?_eq_some_iff.mp hv).1, hv]
  have hfresh : (s.conversations ++ [Conversation.start purpose])[s.conversations.length]? =
      some (.start purpose) := by rw [List.getElem?_concat_length]
  refine { toLeases := { h.toLeases.mono hmore with }, talks := fun c v hv => ?_,
           waiting := fun c hc => ?_, nodup := ?_, serves := fun c hc => ?_ }
  · change (s.conversations ++ [Conversation.start purpose])[c]? = some v at hv
    rcases Nat.lt_or_ge c s.conversations.length with hlt | hge
    · rw [List.getElem?_append_left hlt] at hv
      exact
        { h.talks c v hv with said := (h.talks c v hv).said.same rfl rfl rfl rfl rfl }
    · rw [List.getElem?_append_right hge, List.getElem?_singleton] at hv
      split at hv
      · cases hv
        exact ⟨.nothing rfl, rfl, fun _ => ⟨rfl, rfl⟩, fun hnot => (by cases hnot),
          fun hnot => (by cases hnot), fun hnot => absurd rfl hnot, fun _ => ⟨rfl, rfl⟩,
          fun hnot => (by cases hnot)⟩
      · cases hv
  · rcases List.mem_append.mp hc with hc | hc
    · obtain ⟨v, hv, hnew⟩ := h.waiting c hc
      exact ⟨v, hmore c v hv, hnew⟩
    · cases List.mem_singleton.mp hc
      exact ⟨_, hfresh, rfl⟩
  · refine List.nodup_append.mpr ⟨h.nodup, List.pairwise_singleton _ _, fun c hc d hd => ?_⟩
    obtain ⟨v, hv, -⟩ := h.waiting c hc
    have hlt := (List.getElem?_eq_some_iff.mp hv).1
    rw [List.mem_singleton.mp hd]
    exact Nat.ne_of_lt hlt
  · obtain ⟨v, hv, hserving⟩ := h.serves c hc
    exact ⟨v, hmore c v hv, hserving⟩

theorem Consistent.settle (h : Consistent s) : Consistent (s.step .settle) := by
  refine h.withGuest (by rfl) (by rfl) (fun c v _ hsaid => hsaid.same rfl rfl rfl rfl rfl)
    (fun v hserving => hserving.later rfl (Nat.le_refl _) rfl fun hnone => hnone) ?_
  refine { h.toLeases with frozen := fun hfrozen => hfrozen, freezes := fun f hf => ?_ }
  obtain ⟨htold, hkept⟩ := h.freezes f hf
  refine ⟨htold, ?_⟩
  cases hending : f.ending with
  | none =>
    rw [hending] at hkept
    exact ⟨hkept.1, hkept.1, hkept.2.2⟩
  | some ending =>
    rw [hending] at hkept
    exact hkept

theorem Consistent.elapse (h : Consistent s) (time : ℕ) : Consistent (s.step (.elapse time)) := by
  refine h.withGuest (by rfl) (by rfl) (fun c v _ hsaid => hsaid.same rfl rfl rfl rfl rfl)
    (fun v hserving => hserving.later rfl (Nat.le_add_right _ _) rfl fun hnone => hnone)
    { h.toLeases with lease := fun deadline hdeadline => ?_ }
  have hold := h.lease deadline hdeadline
  show deadline ≤ s.guest.now + time + tenantLease
  omega

theorem Consistent.step (h : Consistent s) (label : Label) : Consistent (s.step label) := by
  cases label with
  | connect purpose => exact h.connect purpose
  | host c time => exact h.hostTurn fun v hv => hv.hostStep time
  | giveUp c => exact h.hostTurn fun v hv => hv.giveUp
  | guest io => exact h.guestStep
  | settle => exact h.settle
  | elapse time => exact h.elapse time

theorem consistent_booted : Consistent booted where
  leased hfreeze := by cases hfreeze
  lease deadline hdeadline := by cases hdeadline
  frozen hfrozen := by cases hfrozen
  freezes f hf := by cases hf
  clocks k hk := by cases hk
  volume hfrozen := by cases hfrozen
  talks c v hv := by cases hv
  waiting c hc := by cases hc
  nodup := List.nodup_nil
  serves c hc := by cases hc

theorem consistent_run (labels : List Label) : Consistent (run step booted labels) :=
  invariant (fun _ label h => h.step label) consistent_booted labels

/-- A conversation in which all was granted: what the guest said is what the host waited for. -/
theorem Consistent.said_of_granted (h : Consistent s) {c : ℕ} {v : Conversation}
    (hv : s.conversations[c]? = some v) (hphase : v.phase = .granted) :
    ∃ rest, v.said =
      (if v.purpose = .freeze then [freezeHeld] else [tenantFreezeReady, tenantFreezeHeld]) ++
        rest := by
  have htalk := h.talks c v hv
  exact ⟨_, by rw [htalk.read, htalk.granted hphase]⟩

/-- What a conversation in which all was granted is for was done. -/
theorem Consistent.done_of_granted (h : Consistent s) {c : ℕ} {v : Conversation}
    (hv : s.conversations[c]? = some v) (hphase : v.phase = .granted) :
    match v.purpose with
    | .sleep => ∃ f ∈ s.guest.freezes, f.conversation = c ∧ f.ending ≠ some (.failed c)
    | .wake => ∃ k ∈ s.guest.clockSets, k.conversation = c ∧ k.released = true
    | .freeze => v.heldFrom ≠ none := by
  obtain ⟨rest, hsaid⟩ := h.said_of_granted hv hphase
  cases (h.talks c v hv).said with
  | nothing said =>
    rw [said] at hsaid
    split at hsaid <;> cases hsaid
  | refused said =>
    rw [said] at hsaid
    split at hsaid <;> exact absurd (List.cons.inj hsaid).1 (by decide)
  | ready purpose said =>
    rw [if_neg purpose] at hsaid
    rcases said with said | said
    · rw [said] at hsaid
      cases (List.cons.inj hsaid).2
    · rw [said] at hsaid
      exact absurd (List.cons.inj (List.cons.inj hsaid).2).1 (by decide)
  | held purpose _ froze =>
    rw [purpose]
    exact froze
  | released purpose _ set =>
    rw [purpose]
    exact set
  | volume purpose _ held =>
    rw [purpose]
    exact held

theorem Consistent.accepted_of_told (h : Consistent s) {c : ℕ} {v : Conversation}
    (hv : s.conversations[c]? = some v) (htold : v.told ≠ none) : v.accepted = true := by
  cases haccepted : v.accepted with
  | true => rfl
  | false =>
    have htalk := h.talks c v hv
    have hready := htalk.told htold
    rw [(htalk.unaccepted haccepted).1] at hready
    cases hready

/-- **A tenant is frozen for as long as the host was told, and no longer than that.** In every run
of the guest and any number of conversations with the host, whatever is lost or late:

- a frozen tenant is on a lease of no more than half a minute from now, or the guest is seeing to it
  that all of its processes are frozen, for three more seconds at most, unless a freeze failed that
  the kernel would not take back;
- the guest freezes the tenant, and sets about it, only for a host that asked for it and confirmed
  it when the guest was ready, which no longer happens where the host gave up before;
- where the host heard that the tenant is frozen, it is, until the lease is over, the host has told
  the guest to wake it, or another conversation that the host confirmed could not freeze it. -/
theorem tenant_frozen_as_leased (labels : List Label) :
    let s := run System.step booted labels
    (s.guest.freeze = true → s.guest.stuck = true ∨
        (∃ deadline ≤ s.guest.now + tenantLease, s.guest.frozenUntil = some deadline) ∨
        ∃ c, ∃ deadline ≤ s.guest.now + freezeTimeout, s.guest.server = .freezing c deadline) ∧
      (∀ f ∈ s.guest.freezes, s.Told .sleep f.conversation) ∧
      (∀ c deadline, s.guest.server = .freezing c deadline → s.Told .sleep c) ∧
      ∀ (c : ℕ) v, s.conversations[c]? = some v → v.purpose = .sleep → v.phase = .granted →
        ∃ f ∈ s.guest.freezes, f.conversation = c ∧
          match f.ending with
          | none => s.guest.freeze = true ∧ s.guest.frozen = true
          | some (.lease time) => f.time + tenantLease ≤ time
          | some (.woken waker) => s.Told .wake waker
          | some (.failed other) => other ≠ c ∧ s.Told .sleep other := by
  intro s
  have h : Consistent s := consistent_run labels
  have hattempt : ∀ c deadline, s.guest.server = .freezing c deadline →
      s.Told .sleep c ∧ deadline ≤ s.guest.now + freezeTimeout := fun c deadline hserver => by
    obtain ⟨v, hv, -, hserving⟩ := h.serves c (by rw [hserver]; rfl)
    rw [Serving, hserver] at hserving
    exact ⟨⟨v, hv, hserving.1, hserving.2.2.1⟩, hserving.2.2.2⟩
  refine ⟨fun hfreeze => ?_, fun f hf => (h.freezes f hf).1,
    fun c deadline hserver => (hattempt c deadline hserver).1, fun c v hv hpurpose hphase => ?_⟩
  · refine (h.leased hfreeze).imp_right (Or.imp (fun hsome => ?_) fun hserver => ?_)
    · obtain ⟨deadline, hdeadline⟩ := Option.ne_none_iff_exists'.mp hsome
      exact ⟨deadline, h.lease deadline hdeadline, hdeadline⟩
    · obtain ⟨c, deadline, hserver⟩ := hserver
      exact ⟨c, deadline, (hattempt c deadline hserver).2, hserver⟩
  · have hdone := h.done_of_granted hv hphase
    rw [hpurpose] at hdone
    obtain ⟨f, hf, hconversation, hnot⟩ := hdone
    refine ⟨f, hf, hconversation, ?_⟩
    obtain ⟨-, hkept⟩ := h.freezes f hf
    cases hending : f.ending with
    | none =>
      rw [hending] at hkept
      exact ⟨hkept.1, hkept.2.1⟩
    | some ending =>
      rw [hending] at hkept hnot
      cases ending with
      | lease time => exact hkept
      | woken waker => exact hkept
      | failed other => exact ⟨fun hsame => hnot (by rw [hsame]), hkept⟩

/-- **The clock is set by a host that is there, and a volume stays held while the host looks.** In
every run of the guest and any number of conversations with the host, whatever is lost or late:

- the guest sets its clock to a time that the host read off its own after the guest had taken the
  connection, and to none from a request that was given up before;
- where the host heard that the tenant was released, it was, after the clock was set for it;
- a volume is frozen only while it is held for a conversation, for a quarter of an hour at most, or
  if it would not thaw;
- as long as the host keeps a freeze of the volume and finds it held, the volume is frozen and no
  tenant is on a lease, unless the quarter of an hour is over. -/
theorem clock_set_and_volume_held (labels : List Label) :
    let s := run System.step booted labels
    (∀ k ∈ s.guest.clockSets, ∃ v, s.conversations[k.conversation]? = some v ∧
        v.purpose = .wake ∧ v.accepted = true ∧ v.told = some k.nanos) ∧
      (∀ (c : ℕ) v, s.conversations[c]? = some v → v.told ≠ none → v.accepted = true) ∧
      (∀ (c : ℕ) v, s.conversations[c]? = some v → v.purpose = .wake → v.phase = .granted →
        ∃ k ∈ s.guest.clockSets, k.conversation = c ∧ k.released = true) ∧
      (s.guest.volumeFrozen = true → s.guest.volumeStuck = true ∨
        ∃ c, ∃ deadline ≤ s.guest.now + maxHold, s.guest.server = .holding c deadline) ∧
      ∀ (c : ℕ) v, s.conversations[c]? = some v → v.purpose = .freeze → v.phase = .granted →
        v.toGuest.ended = false → v.assertHeld = true →
          ∃ start, v.heldFrom = some start ∧
            (s.guest.volumeFrozen = true ∧ s.guest.frozenUntil = none ∨
              start + maxHold ≤ s.guest.now) := by
  intro s
  have h : Consistent s := consistent_run labels
  refine ⟨fun k hk => ?_, fun c v hv htold => h.accepted_of_told hv htold,
    fun c v hv hpurpose hphase => ?_, fun hfrozen => ?_,
    fun c v hv hpurpose hphase hkept hheld => ?_⟩
  · obtain ⟨v, hv, hwake, htold⟩ := h.clocks k hk
    exact ⟨v, hv, hwake, h.accepted_of_told hv (by rw [htold]; exact Option.some_ne_none _), htold⟩
  · have hdone := h.done_of_granted hv hphase
    rwa [hpurpose] at hdone
  · refine (h.volume hfrozen).imp_right fun hserver => ?_
    obtain ⟨c, deadline, hserver⟩ := hserver
    obtain ⟨v, -, -, hserving⟩ := h.serves c (by rw [hserver]; rfl)
    rw [Serving, hserver] at hserving
    obtain ⟨-, -, -, ⟨start, hstart, -, rfl⟩, -, -⟩ := hserving
    exact ⟨c, _, Nat.add_le_add_right hstart _, hserver⟩
  · -- the guest has not hung up, so that it is still at this conversation
    rw [Conversation.assertHeld, Bool.and_eq_true, Bool.not_eq_true'] at hheld
    obtain ⟨rest, hsaid⟩ := h.said_of_granted hv hphase
    rw [if_pos hpurpose] at hsaid
    have haccepted : v.accepted = true := by
      cases haccepted : v.accepted with
      | true => rfl
      | false =>
        rw [((h.talks c v hv).unaccepted haccepted).1] at hsaid
        cases hsaid
    have hc := (h.talks c v hv).busy haccepted hheld.2
    obtain ⟨w, hw, -, hserving⟩ := h.serves c hc
    obtain rfl : v = w := Option.some.inj (hv.symm.trans hw)
    rw [Serving] at hserving
    split at hserving
    · rename_i hserver
      rw [hserver] at hc
      cases hc
    · rw [hserving.1] at hsaid
      cases hsaid
    · rw [hpurpose] at hserving
      cases hserving.1
    · rw [hpurpose] at hserving
      cases hserving.1
    · rw [hpurpose] at hserving
      cases hserving.1
    · obtain ⟨-, -, -, ⟨start, -, hfrom, -⟩, hfrozen, hlease⟩ := hserving
      exact ⟨start, hfrom, .inl ⟨hfrozen, hlease⟩⟩
    · obtain ⟨-, -, -, ⟨start, -, hfrom, rfl⟩, hend⟩ := hserving
      refine ⟨start, hfrom, .inr (hend.resolve_right fun hleft => ?_)⟩
      rw [hkept] at hleft
      cases hleft

end Runs

end System

end Nibrunner.GuestControl
