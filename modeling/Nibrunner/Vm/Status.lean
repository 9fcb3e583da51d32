import Nibrunner.Instance.Backoff

/-!
# What a microVM reads as

The status the host reads of a microVM's process, and how a process ended.
-/

namespace Nibrunner

/-- How a microVM's process ended: with a code of its own, or under a signal from outside. -/
inductive VmExit where
  | code (value : ℤ)
  | signal (number : ℤ)
deriving DecidableEq

def VmExit.describe [Platform] : VmExit → String
  | code value => s!"exited with exit code {value}"
  | signal number =>
    let name := (Platform.signalName number).elim "" fun known => s!" ({known})"
    s!"was killed by signal {number}{name}"

structure VmStatus where
  loaded : Bool
  active : Bool
  failed : Bool
  startedThisBoot : Bool
  exit : Option VmExit
deriving DecidableEq

/-- A microVM this host knows nothing about. -/
def unknownVm : VmStatus where
  loaded := false
  active := false
  failed := false
  startedThisBoot := false
  exit := none

/-- What becomes of a process that is asked to stop. -/
inductive StopAnswer where
  | down
  /-- Its record did not read just then, and nothing was signalled. -/
  | leftUp
deriving DecidableEq

/-- A microVM as this host's process record and the kernel know it: whether it was started since
the host booted, whether its process lives, whether it was asked to stop, how it ended, and what
it was booted with (its memory and the slot its tap, address and device come from). -/
structure Vm where
  startedThisBoot : Bool
  alive : Bool
  stopRequested : Bool
  exit : Option VmExit
  memoryMib : ℕ
  slot : ℕ
deriving DecidableEq

namespace Vm

/-- The microVM is up. -/
def isUp (vm : Vm) : Bool := vm.startedThisBoot && vm.exit.isNone && vm.alive

def status (vm : Vm) : VmStatus where
  loaded := true
  active := vm.isUp
  failed := !vm.isUp && !vm.stopRequested && vm.exit.any (· ≠ .code 0)
  startedThisBoot := vm.startedThisBoot
  exit := vm.exit

/-- A microVM just spawned. -/
def spawned (memoryMib slot : ℕ) : Vm where
  startedThisBoot := true
  alive := true
  stopRequested := false
  exit := none
  memoryMib := memoryMib
  slot := slot

/-- Asked to stop, and killed where it does not: the process is gone when the stop returns. -/
def stopped (vm : Vm) : Vm := { vm with stopRequested := true, alive := false }

/-- The process once it was asked to stop. -/
abbrev asked (stop : StopAnswer) (vm : Vm) : Vm :=
  match stop with
  | .down => vm.stopped
  | .leftUp => vm

/-- The process ended, and how it did is written back onto its record, once. -/
def ended (vm : Vm) (exit : VmExit) : Vm :=
  { vm with alive := false, exit := some (vm.exit.getD exit) }

@[simp] theorem isUp_stopped (vm : Vm) : vm.stopped.isUp = false := by simp [isUp, stopped]

@[simp] theorem isUp_ended (vm : Vm) (exit : VmExit) : (vm.ended exit).isUp = false := by
  simp [isUp, ended]

@[simp] theorem status_active (vm : Vm) : vm.status.active = vm.isUp := rfl

end Vm

end Nibrunner
