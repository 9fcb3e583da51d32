import Mathlib.Logic.Function.Basic
import Nibrunner.ForStd.Run
import Nibrunner.ForStd.TextLines
import Nibrunner.Protocol.Schema

/-!
# Starting the services of a host

`nibrunnerd start` has systemd activate the units of a host, one after another, and leaves alone
those that run on the files they read as these are now. It knows by a receipt for each unit: the
fingerprint of the files and the activation that read them. A receipt is removed before its unit is
touched, and written again once all units are up and neither the activation nor the files have
changed.

A start goes from one question or command to the next. In between the files may be edited, units may
stop, fail or be started anew by systemd or by hand, other starts may run, and each start may be
killed. What the model adds to the source are notes: the activations with what they read, in the
order they began; when a start looked at a unit's files and whether they were edited since; what it
had systemd do; and `restored`, the activations a start wrote a receipt for although the files had
been edited and put back while it ran.

Reading the files of a unit is one step, as is what an activation reads of them.
-/

namespace Nibrunner.ServiceStart

open Function

/-! ### Receipts -/

/-- The digest of the files a unit reads. -/
@[ext]
structure Fingerprint where
  text : String
  hex : isSha256Hex text = true
deriving DecidableEq

/-- What systemd knows an activation by. -/
@[ext]
structure InvocationId where
  text : String
  length_eq : text.length = 32
  hex : (text.toList.all fun c => c.isDigit || ('a' ≤ c && c ≤ 'f')) = true
deriving DecidableEq

/-- What a receipt says. -/
def record (fingerprint : Fingerprint) (id : InvocationId) : String :=
  fingerprint.text ++ "\n" ++ id.text

inductive ServiceUnit where
  /-- The storage a host prepares when it is installed. -/
  | storage
  | zerofs
  | mount
  | daemon
deriving DecidableEq

/-- A unit with its files and its receipt as they were when it was planned. -/
structure Service where
  unit : ServiceUnit
  fingerprint : Fingerprint
  applied : Option String
  /-- How many activations had begun. -/
  plannedAt : ℕ

/-- Whether a unit is not known to have read its files as they were planned. -/
def Service.pending (service : Service) (invocation : Option InvocationId) : Bool :=
  invocation.all fun id => decide (service.applied ≠ some (record service.fingerprint id))

inductive Outcome where
  | started
  | restarted
  | reloaded
  | running
  | failed
deriving DecidableEq

structure Activation where
  unit : ServiceUnit
  outcome : Outcome
  invocation : Option InvocationId

inductive StartError where
  | unstartable
  | systemd
  | inputs
deriving DecidableEq

/-- What the daemon made of its configuration. -/
inductive Applied where
  | unchanged
  | grown
deriving DecidableEq

/-! ### One start -/

structure Start where
  restartZerofs : Bool
  plan : List Service
  restartMount : Bool
  units : List Activation
  /-- The units whose files were edited since they were planned. -/
  edited : ServiceUnit → Bool

/-- A unit that is to be started, and those after it. -/
structure Turn where
  service : Service
  services : List Service
  wasActive : Bool
  restart : Bool

/-- Where a start is: at what it asks or does next. -/
inductive Stage where
  | planning (units : List ServiceUnit)
  | planningReceipt (service : Service) (units : List ServiceUnit)
  | permitting (services : List Service)
  | permittingInvocation (service : Service) (services : List Service)
  | reloadingUnits
  | enabling
  | next (services : List Service)
  | asked (service : Service) (services : List Service) (wasActive : Bool)
  | reloading (service : Service) (services : List Service) (invocation : Option InvocationId)
  | invalidating (turn : Turn)
  | invalidatingMounts (turn : Turn) (mounts : List Service)
  | commanding (turn : Turn)
  /-- The command was given, after so many activations had begun. -/
  | commanded (turn : Turn) (begun : ℕ)
  | looking (turn : Turn)
  | identifying (turn : Turn) (outcome : Outcome)
  | checking (checked activations : List Activation)
  | checkingInvocation (checked : List Activation) (activation : Activation)
      (activations : List Activation)
  | certifying (activations : List (Service × Activation))
  | writing (service : Service) (id : InvocationId) (activations : List (Service × Activation))
  | ended (result : Except StartError (List Activation))

/-! ### The host -/

structure UnitState where
  active : Bool
  /-- Of the last activation, unless systemd forgot. -/
  invocation : Option InvocationId
  /-- One more than the number of the last activation. -/
  begun : ℕ

/-- An activation that began, with the files it read and its number among all. -/
structure Begun where
  unit : ServiceUnit
  inputs : Fingerprint
  number : ℕ

/-- What a start finds on a host: the files, the units and the activations so far. -/
structure World where
  disk : ServiceUnit → Fingerprint
  units : ServiceUnit → UnitState
  began : InvocationId → Option Begun
  clock : ℕ
  restored : List InvocationId

namespace World

def activate (w : World) (unit : ServiceUnit) (id : InvocationId) : World :=
  { w with
    units := update w.units unit ⟨true, some id, w.clock + 1⟩
    began := update w.began id (some ⟨unit, w.disk unit, w.clock⟩)
    clock := w.clock + 1 }

def deactivate (w : World) (unit : ServiceUnit) (forgets : Bool) : World :=
  let state := w.units unit
  { w with
    units := update w.units unit
      ⟨false, if forgets then none else state.invocation, state.begun⟩ }

end World

/-- A start of a unit that systemd was asked for. -/
structure Command where
  unit : ServiceUnit
  restart : Bool
  wasActive : Bool
  restartZerofs : Bool

structure Host where
  world : World
  receipts : ServiceUnit → Option String
  starts : ℕ → Option (Start × Stage)
  commands : List Command

/-- How a question or a command comes out: whether it could be asked, whether systemd showed an
invocation and whether it succeeded, and what the daemon said of a reload. -/
structure Reply where
  works : Bool
  shown : Bool
  succeeded : Bool
  applied : Option Applied

namespace Host

/-- A host on which nothing was started. -/
def installed (disk : ServiceUnit → Fingerprint) : Host where
  world :=
    { disk := disk, units := fun _ => ⟨false, none, 0⟩, began := fun _ => none, clock := 0
      restored := [] }
  receipts _ := none
  starts _ := none
  commands := []

variable (s : Host)

def isActive (unit : ServiceUnit) (reply : Reply) : Bool :=
  reply.works && (s.world.units unit).active

def invocationId (unit : ServiceUnit) (reply : Reply) : Except StartError (Option InvocationId) :=
  if reply.works then .ok (if reply.shown then (s.world.units unit).invocation else none)
  else .error .systemd

/-- A start goes on. -/
def goTo (k : ℕ) (p : Start) (stage : Stage) : Host :=
  { s with starts := update s.starts k (some (p, stage)) }

def fail (k : ℕ) (p : Start) (e : StartError) : Host := s.goTo k p (.ended (.error e))

/-- A unit is done with. -/
def settle (k : ℕ) (p : Start) (services : List Service) (activation : Activation) : Host :=
  s.goTo k { p with units := p.units ++ [activation] } (.next services)

/-- A unit failed, and no other is started. -/
def giveUp (k : ℕ) (p : Start) (unit : ServiceUnit) : Host :=
  let units := p.units ++ [⟨unit, .failed, none⟩]
  s.goTo k { p with units := units } (.checking [] units)

/-- A receipt is removed. -/
def invalidate (unit : ServiceUnit) : Host := { s with receipts := update s.receipts unit none }

/-! ### Steps of a start -/

section steps

variable (k : ℕ) (p : Start) (reply : Reply)

def plan : List ServiceUnit → Host
  | [] => s.goTo k p (if p.restartZerofs then .reloadingUnits else .permitting p.plan)
  | unit :: units =>
    if reply.works then
      s.goTo k { p with edited := update p.edited unit false }
        (.planningReceipt ⟨unit, s.world.disk unit, none, s.world.clock⟩ units)
    else s.fail k p .inputs

def planReceipt (service : Service) (units : List ServiceUnit) : Host :=
  if reply.works then
    s.goTo k { p with plan := p.plan ++ [{ service with applied := s.receipts service.unit }] }
      (.planning units)
  else s.fail k p .inputs

/-- Before anything is done: ZeroFS is not to be restarted if it runs and is not known to have read
its files. -/
def permit : List Service → Host
  | [] => s.goTo k p .reloadingUnits
  | service :: services =>
    if service.unit = .zerofs ∧ s.isActive service.unit reply then
      s.goTo k p (.permittingInvocation service services)
    else s.goTo k p (.permitting services)

def permitInvocation (service : Service) (services : List Service) : Host :=
  match s.invocationId service.unit reply with
  | .error e => s.fail k p e
  | .ok invocation =>
    if service.pending invocation then s.fail k p .unstartable
    else s.goTo k p (.permitting services)

/-- What must succeed for the rest to go on. -/
def must (stage : Stage) : Host :=
  if reply.works && reply.succeeded then s.goTo k p stage else s.fail k p .systemd

def ask : List Service → Host
  | [] => s.goTo k p (.checking [] p.units)
  | service :: services => s.goTo k p (.asked service services (s.isActive service.unit reply))

/-- A unit that runs is left alone, the daemon asked to reload, unless something is pending. -/
def consider (service : Service) (services : List Service) (wasActive : Bool) : Host :=
  match s.invocationId service.unit reply with
  | .error e => s.fail k p e
  | .ok invocation =>
    let pending := service.pending invocation || (service.unit = .mount && p.restartMount)
    if service.unit = .zerofs ∧ pending ∧ wasActive ∧ !p.restartZerofs then s.fail k p .unstartable
    else if service.unit ≠ .daemon ∧ wasActive ∧ !pending then
      s.settle k p services ⟨service.unit, .running, invocation⟩
    else if service.unit = .daemon ∧ wasActive ∧ !pending then
      s.goTo k p (.reloading service services invocation)
    else
      let restart := service.unit ≠ .storage && (pending || service.unit = .daemon)
      s.goTo k p (.invalidating ⟨service, services, wasActive, restart⟩)

def reload (service : Service) (services : List Service) (invocation : Option InvocationId) :
    Host :=
  if reply.works then
    match reply.applied with
    | some .unchanged => s.settle k p services ⟨service.unit, .running, invocation⟩
    | some .grown => s.settle k p services ⟨service.unit, .reloaded, invocation⟩
    | none => s.goTo k p (.invalidating ⟨service, services, true, true⟩)
  else s.fail k p .systemd

def invalidateTurn (turn : Turn) : Host :=
  if reply.works then
    if turn.service.unit = .zerofs then
      (s.invalidate turn.service.unit).goTo k { p with restartMount := true }
        (.invalidatingMounts turn (p.plan.filter fun service => service.unit = .mount))
    else (s.invalidate turn.service.unit).goTo k p (.commanding turn)
  else s.fail k p .inputs

def invalidateMounts (turn : Turn) : List Service → Host
  | [] => s.goTo k p (.commanding turn)
  | mount :: mounts =>
    if reply.works then (s.invalidate mount.unit).goTo k p (.invalidatingMounts turn mounts)
    else s.fail k p .inputs

/-- systemd is asked to start a unit, anew if it is to be restarted. -/
def command (turn : Turn) : Host :=
  let given : Command :=
    { unit := turn.service.unit, restart := turn.restart, wasActive := turn.wasActive
      restartZerofs := p.restartZerofs }
  { s with commands := s.commands ++ [given] }.goTo k p (.commanded turn s.world.clock)

/-- systemd answers; it does not say that a restart succeeded before an activation began. -/
def hear (turn : Turn) (begun : ℕ) : Host :=
  if reply.works then
    if reply.succeeded then
      if turn.restart ∧ (s.world.units turn.service.unit).begun ≤ begun then s
      else s.goTo k p (.looking turn)
    else s.giveUp k p turn.service.unit
  else s.fail k p .systemd

def look (turn : Turn) : Host :=
  if s.isActive turn.service.unit reply then
    let outcome :=
      if !turn.wasActive then .started else if turn.restart then .restarted else .running
    s.goTo k p (.identifying turn outcome)
  else s.giveUp k p turn.service.unit

def identify (turn : Turn) (outcome : Outcome) : Host :=
  match s.invocationId turn.service.unit reply with
  | .error e => s.fail k p e
  | .ok none => s.fail k p .systemd
  | .ok (some id) => s.settle k p turn.services ⟨turn.service.unit, outcome, some id⟩

/-- All units once more: one that has failed by now, or is another activation, has failed. -/
def check (checked : List Activation) : List Activation → Host
  | [] => s.goTo k { p with units := checked } (.certifying (p.plan.zip checked))
  | activation :: activations =>
    if activation.outcome = .failed then
      s.goTo k p (.checking (checked ++ [activation]) activations)
    else if s.isActive activation.unit reply ∧ activation.invocation.isSome then
      s.goTo k p (.checkingInvocation checked activation activations)
    else
      s.goTo k p (.checking (checked ++ [{ activation with outcome := .failed }]) activations)

def checkInvocation (checked : List Activation) (activation : Activation)
    (activations : List Activation) : Host :=
  match s.invocationId activation.unit reply with
  | .error e => s.fail k p e
  | .ok invocation =>
    if invocation = activation.invocation then
      s.goTo k p (.checking (checked ++ [activation]) activations)
    else
      s.goTo k p (.checking (checked ++ [{ activation with outcome := .failed }]) activations)

/-- A start looks at the files of a unit that is up, and finds them as they were planned. -/
def recheck (unit : ServiceUnit) (id : InvocationId) : Host :=
  if p.edited unit then
    { s with world := { s.world with restored := s.world.restored ++ [id] } }
  else s

/-- A receipt for each unit that is up, if its files are as they were planned, and none for the
others. -/
def certify : List (Service × Activation) → Host
  | [] => s.goTo k p (.ended (.ok p.units))
  | (service, activation) :: activations =>
    if reply.works then
      match (if activation.outcome = .failed then none else activation.invocation) with
      | some id =>
        if s.world.disk service.unit = service.fingerprint then
          (s.recheck p service.unit id).goTo k p (.writing service id activations)
        else s.fail k p .inputs
      | none => (s.invalidate service.unit).goTo k p (.certifying activations)
    else s.fail k p .inputs

def write (service : Service) (id : InvocationId) (activations : List (Service × Activation)) :
    Host :=
  if reply.works then
    { s with
      receipts := update s.receipts service.unit (some (record service.fingerprint id)) }.goTo
      k p (.certifying activations)
  else s.fail k p .inputs

def proceed : Stage → Host
  | .planning units => s.plan k p reply units
  | .planningReceipt service units => s.planReceipt k p reply service units
  | .permitting services => s.permit k p reply services
  | .permittingInvocation service services => s.permitInvocation k p reply service services
  | .reloadingUnits => s.must k p reply .enabling
  | .enabling => s.must k p reply (.next p.plan)
  | .next services => s.ask k p reply services
  | .asked service services wasActive => s.consider k p reply service services wasActive
  | .reloading service services invocation => s.reload k p reply service services invocation
  | .invalidating turn => s.invalidateTurn k p reply turn
  | .invalidatingMounts turn mounts => s.invalidateMounts k p reply turn mounts
  | .commanding turn => s.command k p turn
  | .commanded turn begun => s.hear k p reply turn begun
  | .looking turn => s.look k p reply turn
  | .identifying turn outcome => s.identify k p reply turn outcome
  | .checking checked activations => s.check k p reply checked activations
  | .checkingInvocation checked activation activations =>
    s.checkInvocation k p reply checked activation activations
  | .certifying activations => s.certify k p reply activations
  | .writing service id activations => s.write k p reply service id activations
  | .ended _ => s

end steps

/-! ### What happens on a host -/

/-- The units of a host, those first that others need. -/
def plannedUnits (hostStorage zerofs : Bool) : List ServiceUnit :=
  (if hostStorage then [.storage] else []) ++ (if zerofs then [.zerofs, .mount] else []) ++
    [.daemon]

inductive Label where
  /-- Files are edited. -/
  | edit (disk : ServiceUnit → Fingerprint)
  /-- An activation of a unit begins, whoever asked for it. -/
  | activate (unit : ServiceUnit) (id : InvocationId)
  /-- A unit stops or fails, and systemd may forget its activation. -/
  | deactivate (unit : ServiceUnit) (forgets : Bool)
  | launch (k : ℕ) (restartZerofs hostStorage zerofs : Bool)
  | kill (k : ℕ)
  | proceed (k : ℕ) (reply : Reply)

/-- A start notes which files are edited while it runs. -/
def note (disk disk' : ServiceUnit → Fingerprint) (p : Start) : Start :=
  { p with edited := fun unit => p.edited unit || decide (disk' unit ≠ disk unit) }

def edit (disk : ServiceUnit → Fingerprint) : Host :=
  { s with
    world := { s.world with disk := disk }
    starts := fun k => (s.starts k).map (Prod.map (note s.world.disk disk) id) }

/-- Activations have names of their own. -/
def activate (unit : ServiceUnit) (id : InvocationId) : Host :=
  if (s.world.began id).isSome then s else { s with world := s.world.activate unit id }

def deactivate (unit : ServiceUnit) (forgets : Bool) : Host :=
  { s with world := s.world.deactivate unit forgets }

def launch (k : ℕ) (restartZerofs hostStorage zerofs : Bool) : Host :=
  if (s.starts k).isSome then s
  else
    s.goTo k
      { restartZerofs := restartZerofs, plan := [], restartMount := false, units := []
        edited := fun _ => false }
      (.planning (plannedUnits hostStorage zerofs))

def step : Label → Host
  | .edit disk => s.edit disk
  | .activate unit id => s.activate unit id
  | .deactivate unit forgets => s.deactivate unit forgets
  | .launch k restartZerofs hostStorage zerofs => s.launch k restartZerofs hostStorage zerofs
  | .kill k => { s with starts := update s.starts k none }
  | .proceed k reply =>
    match s.starts k with
    | some (p, stage) => s.proceed k p reply stage
    | none => s

end Host

end Nibrunner.ServiceStart
