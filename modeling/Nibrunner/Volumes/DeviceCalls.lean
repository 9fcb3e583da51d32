import Nibrunner.Volumes.DeviceSafety

/-!
# One call at a time

Calls that do not overlap keep apart, whatever happens between them: slots are released and
allocated anew, the daemon forgets what it attached, the storage server goes away, commands fail.

`carries_its_volume`: **every device that is returned serves the volume it was asked for, and a
format meets a device that serves the volume and holds no filesystem.**
-/

namespace Nibrunner.Nbd

open Std

namespace ZerofsVolumes

/-- A call begins, and the rest happens, while no other call is under way. -/
def OneAtATime (s : ZerofsVolumes) : Move → Prop
  | .advance _ _ => True
  | _ => s.Idle

instance (s : ZerofsVolumes) : (m : Move) → Decidable (s.OneAtATime m)
  | .advance _ _ => inferInstanceAs (Decidable True)
  | .begin _ _ _ | .releaseSlot _ | .allocateSlot _ | .daemonRestarts _ | .storageRestarts
  | .guestWrites _ _ => inferInstanceAs (Decidable s.Idle)

/-- At most one call is under way. -/
def AtMostOne (s : ZerofsVolumes) : Prop :=
  ∀ (id id' : CallId) (call call' : Call), s.calls[id]? = some call → s.calls[id']? = some call' →
    call.phase ≠ .done → call'.phase ≠ .done → id = id'

variable {s s' : ZerofsVolumes} {id : CallId} {call : Call}

theorem AtMostOne.of_idle (h : s.Idle) : s.AtMostOne :=
  fun _ _ call _ hcall _ hdone _ => absurd (h call (List.mem_of_getElem? hcall)) hdone

/-- Beside a call that is under way there is no other. -/
theorem AtMostOne.others (hs : s.AtMostOne) (hcall : s.calls[id]? = some call)
    (hdone : call.phase ≠ .done) {p : Phase → Bool} (hp : p .done = false) : s.Others id p := by
  intro other hother
  obtain ⟨id', hne, hget⟩ := List.mem_eraseIdx_iff_getElem?.mp hother
  have hother : other.phase = .done := by
    by_contra h
    exact hne (hs id' id other call hget hcall h hdone)
  rw [hother, hp]

theorem AtMostOne.undisturbed (hs : s.AtMostOne) {m : Move} (hm : s.OneAtATime m) :
    s.Undisturbed m := by
  cases m with
  | begin request volumeId appId => exact fun _ call hcall _ _ => hm call hcall
  | advance id answer =>
    intro call hcall
    by_cases hdone : call.phase = .done
    · refine ⟨fun slot h => absurd h ?_, fun slot h => absurd h ?_⟩
      · simp [obtains, hdone]
      · simp [turns, hdone]
    · exact ⟨fun _ _ => hs.others hcall hdone rfl, fun _ _ => hs.others hcall hdone rfl⟩
  | releaseSlot appId | allocateSlot appId | daemonRestarts allocator | storageRestarts
  | guestWrites volumeId superblock => exact hm

/-- A step of a call leaves the others where they are. -/
theorem getElem?_stepCall (answer : Answer) {id' : CallId} (hne : id ≠ id') :
    (s.stepCall id call answer).calls[id']? = s.calls[id']? := by
  have hset (t : ZerofsVolumes) (ht : t.calls = s.calls) (phase : Phase) :
      (t.goTo id call phase).calls[id']? = s.calls[id']? := by
    rw [goTo, ht, List.getElem?_set_ne hne]
  have hrelease (t : ZerofsVolumes) (slot : ℕ) (letsGo : Bool) : (t.release slot letsGo).calls =
      t.calls := by cases letsGo <;> rfl
  have hformat (slot : ℕ) (superblock : Superblock) :
      (s.format slot call.volumeId superblock).calls = s.calls := by
    rw [format]
    split <;> rfl
  have hhand (t : ZerofsVolumes) (ht : t.calls = s.calls) (slot : ℕ) :
      (t.handOut id call slot).calls[id']? = s.calls[id']? := by
    rw [handOut]
    exact hset _ ht .done
  rw [stepCall]
  split
  case h_1 =>
    rw [enter]
    split
    · exact hset _ (s.ensureDeviceFile_spec call.volumeId _ answer).2.2.1 _
    all_goals exact hset s rfl _
  case h_2 =>
    rw [lookUp]
    split <;> split <;> exact hset _ rfl _
  case h_11 slot _ _ => exact hset _ (hrelease (s.takeAway slot) slot _) _
  case h_12 slot _ _ => exact hset _ (hrelease s slot _) _
  case h_13 slot _ _ =>
    split
    · exact hset _ rfl _
    · exact hset _ (hrelease (s.takeAway slot) slot _) _
  case h_14 =>
    rw [useProven]
    split
    · split
      · split
        · exact hhand s rfl _
        · exact hset s rfl _
      · exact hset s rfl _
    · exact hhand s rfl _
    all_goals exact hset s rfl _
  case h_16 slot _ =>
    dsimp only
    split
    · exact hhand _ (hformat slot _) _
    · exact hset _ (hformat slot _) _
  case h_17 =>
    refine hset _ ?_ _
    split <;> rfl
  case h_18 => rfl
  all_goals exact hset _ rfl _

theorem AtMostOne.step (hs : s.AtMostOne) {m : Move} (hm : s.OneAtATime m) :
    (s.step m).AtMostOne := by
  cases m with
  | begin request volumeId appId =>
    intro id id' call call' h h' hd hd'
    -- Only the new call is under way.
    have hnew {id : ℕ} {call : Call}
        (h : (s.calls ++ [⟨request, volumeId, appId, .entering⟩])[id]? = some call)
        (hd : call.phase ≠ .done) : id = s.calls.length := by
      rw [List.getElem?_append] at h
      split at h
      · exact absurd (hm call (List.mem_of_getElem? h)) hd
      · rw [List.getElem?_singleton] at h
        split at h
        · omega
        · exact absurd h nofun
    rw [hnew h hd, hnew h' hd']
  | advance id answer =>
    rw [ZerofsVolumes.step]
    split
    · rename_i call hcall
      by_cases hdone : call.phase = .done
      · rw [stepCall, hdone]
        exact hs
      · have hback {id' : CallId} {call' : Call} (hne : id ≠ id')
            (h : (s.stepCall id call answer).calls[id']? = some call') (hd : call'.phase ≠ .done) :
            False := hne (hs id id' call call' hcall ((getElem?_stepCall answer hne).symm.trans h)
              hdone hd)
        intro id₁ id₂ call₁ call₂ h₁ h₂ hd₁ hd₂
        by_cases heq₁ : id = id₁
        · by_cases heq₂ : id = id₂
          · exact heq₁.symm.trans heq₂
          · exact (hback heq₂ h₂ hd₂).elim
        · exact (hback heq₁ h₁ hd₁).elim
    · exact hs
  | releaseSlot appId => exact .of_idle hm
  | allocateSlot appId => exact .of_idle hm
  | daemonRestarts allocator =>
    refine .of_idle fun call h => ?_
    obtain ⟨old, -, rfl⟩ := List.mem_map.mp h
    rfl
  | storageRestarts => exact .of_idle hm
  | guestWrites volumeId superblock => exact .of_idle hm

/-- **A device carries the volume it was asked for.** -/
theorem carries_its_volume (allocator : SlotAllocator) (images : ExtTreeMap VolumeId Image)
    (devices : ExtTreeMap ℕ Device) (moves : List Move)
    (h : Run.Meets step (fun s m => s.OneAtATime m ∧ s.Distinct) (start allocator images devices)
      moves) :
    let s := Run.run step (start allocator images devices) moves
    (∀ h ∈ s.handedOut, h.served = true) ∧
      ∀ f ∈ s.formatted, f.served = true ∧ f.hadFilesystem = false := by
  have hrun := Run.Meets.invariant (I := fun s => s.AtMostOne ∧ s.Consistent)
    (fun s m hs hm => ⟨hs.1.step hm.1, hs.2.step ⟨hs.1.undisturbed hm.1, hm.2⟩⟩)
    ⟨.of_idle nofun, consistent_start allocator images devices⟩ h
  exact ⟨hrun.2.safe.handedOut, hrun.2.safe.formatted⟩

/-! ### A device under the wrong slot -/

private def one : VolumeId := ⟨"volume-one"⟩
private def two : VolumeId := ⟨"volume-two"⟩
private def app : AppId := ⟨"app-one"⟩

private def well : Answer where
  opens := true
  exitsWell := true
  letsGo := true
  superblock := ⟨true, 1⟩

/-- The first slot's device still serves another app's volume. -/
private def neighbour : ZerofsVolumes :=
  start (SlotAllocator.addressing 300) (ExtTreeMap.insert ∅ two ⟨4096, ⟨true, 2⟩⟩)
    (ExtTreeMap.insert ∅ firstSlot ⟨two, 4096, true⟩)

/-- The new volume is formatted on a device attached anew, and its device is attached once more
after the daemon and the storage server were gone. -/
theorem carries_its_volume_anew :
    let moves := .begin (.provision 4096) one app :: List.replicate 15 (.advance 0 well) ++
      [.daemonRestarts (SlotAllocator.addressing 1), .allocateSlot app, .storageRestarts,
        .begin .attach one app] ++ List.replicate 11 (.advance 1 well)
    let s := Run.run step neighbour moves
    (s.handedOut.length = 2 ∧ s.formatted.length = 1 ∧
        s.images[two]? = some ⟨4096, ⟨true, 2⟩⟩) ∧
      (∀ h ∈ s.handedOut, h.served = true) ∧
        ∀ f ∈ s.formatted, f.served = true ∧ f.hadFilesystem = false := by
  refine ⟨by decide +kernel, carries_its_volume _ _ _ _ ?_⟩
  decide +kernel

end ZerofsVolumes

end Nibrunner.Nbd
