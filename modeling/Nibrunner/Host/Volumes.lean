import Nibrunner.Host.State

/-!
# The volume backend

A volume is a file of the size the document lists, served to a guest through the block device of
its app's slot. What the backend decides itself is here (a volume is never resized down, a device
is only there for an app that holds a slot); what the storage server and the tools behind it
answer is an argument.
-/

namespace Nibrunner

open Std

def sectorSizeBytes : ℕ := 512

/-- The size a volume's file is given; the product is an unchecked 64-bit one. -/
def alignToSector (sizeBytes : ℕ) : ℕ :=
  ((sizeBytes + sectorSizeBytes - 1) / sectorSizeBytes * sectorSizeBytes) % 2 ^ 64

namespace Host

/-- How provisioning goes once the file has its size and the app its slot. -/
inductive ProvisionAnswer where
  | ok
  | deviceFailed (reason : String)
  /-- The device answers, and could not be formatted. -/
  | formatFailed (reason : String)
deriving DecidableEq

/-- The file of a volume at its listed size. A file is never made smaller, and none is as long as
`2 ^ 63` bytes. -/
def ensureDeviceFile (h : Host) (volume : VolumeId) (sizeBytes : ℕ) : Except String Host :=
  let target := alignToSector sizeBytes
  let image := h.images[volume]?.getD { sizeBytes := 0, formatted := false }
  if target < image.sizeBytes then
    .error s!"a volume of {image.sizeBytes} bytes cannot be resized down to {target}"
  else if 2 ^ 63 ≤ target then
    .error "the volume could not be made ready: out of range integral type conversion attempted"
  else .ok { h with images := h.images.insert volume { image with sizeBytes := target } }

/-- The device of `slot` serves `volume`. -/
def serve (h : Host) (slot : ℕ) (volume : VolumeId) : Host :=
  { h with devices := h.devices.insert slot volume }

/-- Make a volume ready to be booted onto: its file, its app's slot and device, its filesystem. -/
def provision (h : Host) (desired : DesiredVolume) (answer : ProvisionAnswer) :
    Host × Except String Unit :=
  match h.ensureDeviceFile desired.volumeId desired.sizeBytes with
  | .error reason => (h, .error reason)
  | .ok h =>
    match h.slotFor desired.appId with
    | none =>
      (h, .error <| "the volume could not be made ready: " ++
        s!"all {h.allocator.limit} apps this host is laid out for hold a slot; " ++
        "raise max_apps in config.toml")
    | some (slot, h) =>
      match answer with
      | .deviceFailed reason => (h, .error reason)
      | .formatFailed reason =>
        let served := h.serve slot.slot desired.volumeId
        if h.images[desired.volumeId]?.any (·.formatted) then (served, .ok ())
        else (served, .error reason)
      | .ok =>
        ({ h.serve slot.slot desired.volumeId with
            images := h.images.modify desired.volumeId ({ · with formatted := true }) }, .ok ())

/-- Make the device of the app's slot serve the volume. -/
def attach (h : Host) (volume : VolumeId) (app : AppId) (answer : Except String Unit) :
    Except String Host :=
  match h.images[volume]?, h.slotOf app, answer with
  | some _, some slot, .ok () => .ok (h.serve slot volume)
  | some _, some _, .error reason => .error reason
  | _, _, _ => .error s!"this host does not serve {volume.text}"

/-- Take the device of the app's slot down, whatever it serves. -/
def takeDown (h : Host) (app : AppId) : Host :=
  match h.slotOf app with
  | some slot => { h with devices := h.devices.erase slot }
  | none => h

/-- Take the app's device down and delete the volume's file. -/
def teardown (h : Host) (volume : VolumeId) (app : AppId) (deleted : Bool) : Host :=
  let h := h.takeDown app
  if deleted then { h with images := h.images.erase volume } else h

/-! ### What the backend leaves alone -/

/-- The records, microVMs, snapshots, boots and configuration are those before. -/
structure OnlyVolumes (h h' : Host) : Prop where
  records : h'.records = h.records
  vms : h'.vms = h.vms
  snapshots : h'.snapshots = h.snapshots
  boots : h'.boots = h.boots
  config : h'.config = h.config

namespace OnlyVolumes

variable {h h' h'' : Host}

protected theorem refl (h : Host) : OnlyVolumes h h := ⟨rfl, rfl, rfl, rfl, rfl⟩

protected theorem trans (h₁ : OnlyVolumes h h') (h₂ : OnlyVolumes h' h'') : OnlyVolumes h h'' :=
  ⟨h₂.records.trans h₁.records, h₂.vms.trans h₁.vms, h₂.snapshots.trans h₁.snapshots,
    h₂.boots.trans h₁.boots, h₂.config.trans h₁.config⟩

theorem slotFor {app : AppId} {slot : AppSlot} (hs : h.slotFor app = some (slot, h')) :
    OnlyVolumes h h' := by
  simp only [Host.slotFor, Option.map_eq_some_iff, Prod.mk.injEq] at hs
  obtain ⟨⟨slot', allocator⟩, -, rfl, rfl⟩ := hs
  exact ⟨rfl, rfl, rfl, rfl, rfl⟩

theorem ensureDeviceFile {volume : VolumeId} {sizeBytes : ℕ}
    (hf : h.ensureDeviceFile volume sizeBytes = .ok h') : OnlyVolumes h h' := by
  unfold Host.ensureDeviceFile at hf
  dsimp only at hf
  split at hf
  · cases hf
  · split at hf
    · cases hf
    · cases hf
      exact ⟨rfl, rfl, rfl, rfl, rfl⟩

theorem attach {volume : VolumeId} {app : AppId} {answer : Except String Unit}
    (ha : h.attach volume app answer = .ok h') : OnlyVolumes h h' ∧ h'.allocator = h.allocator := by
  unfold Host.attach at ha
  split at ha <;> cases ha
  exact ⟨⟨rfl, rfl, rfl, rfl, rfl⟩, rfl⟩

theorem takeDown (h : Host) (app : AppId) : OnlyVolumes h (h.takeDown app) := by
  unfold Host.takeDown
  split
  · exact ⟨rfl, rfl, rfl, rfl, rfl⟩
  · exact .refl h

end OnlyVolumes

end Host

end Nibrunner
