import Nibrunner.ForStd.IdMap
import Nibrunner.ForStd.Run
import Nibrunner.Protocol.Identifier

/-!
# The runs of cron jobs

Who may run a cron job of an app: an owner for each app the host has a deployment of, with the runs
it has admitted. `synchronize` retires the owners whose deployment is no longer asked for, `stop`
closes an app's, `shutdown` all of them, and each of the three waits until the runs it cancelled
are gone.

A start and a call of the three are tasks, known by numbers, and a step is what one of them does
under one lock or between two awaits. A start holds the lock on the owners from its look at
`stopping` to its admission. A drain registers for a completion before it looks whether its owner
has runs, and a run that ends goes from its owner before it says so. `listed` and `closed` are a
history: what the last synchronize listed that did not find a shutdown begun, and the apps that
were stopped since.
-/

namespace Nibrunner

open Std

abbrev OwnerId := ℕ

/-- The runs of one deployment: whether more are admitted, and for each its cancellation. -/
structure DeploymentRuns where
  deploymentId : DeploymentId
  accepting : Bool
  nextId : ℕ
  cancellations : ExtTreeMap ℕ Bool

namespace DeploymentRuns

def new (deploymentId : DeploymentId) : DeploymentRuns where
  deploymentId := deploymentId
  accepting := true
  nextId := 0
  cancellations := ∅

/-- A run is admitted under the next number, unless the deployment is closed. -/
def start (active : DeploymentRuns) : Option (ℕ × DeploymentRuns) :=
  if !active.accepting then none
  else
    some (active.nextId,
      { active with
        nextId := active.nextId + 1
        cancellations := active.cancellations.insert active.nextId false })

/-- No more runs are admitted, and those that were are cancelled. -/
def cancel (active : DeploymentRuns) : DeploymentRuns :=
  { active with
    accepting := false
    cancellations := active.cancellations.map fun _ _ => true }

/-- A run is gone. -/
def remove (active : DeploymentRuns) (id : ℕ) : DeploymentRuns :=
  { active with cancellations := active.cancellations.erase id }

end DeploymentRuns

/-! ### Tasks -/

/-- A start, and the lease it ends in: it asks with the lock on the owners, then it was refused, or
it holds the lease until its drop has taken it from its owner and then told the owner. -/
inductive CronRun where
  | asking (appId : AppId) (deploymentId : DeploymentId)
  | refused
  | held (appId : AppId) (deploymentId : DeploymentId) (owner : OwnerId) (id : ℕ)
  | completing (owner : OwnerId)
  | gone
deriving DecidableEq

inductive CronCall where
  | synchronize (deployments : List (AppId × DeploymentId))
  | stop (appId : AppId)
  | shutdown
deriving DecidableEq

/-- Where a drain is with an owner: before it registers for a completion, before it looks at the
owner's runs, or waiting; and whether a completion came since it registered. -/
inductive Drain where
  | idle
  | enabled (notified : Bool)
  | waiting (notified : Bool)
deriving DecidableEq

/-- Where a call is: it waits for the mutation lock, has it, cancels owners (only a shutdown takes
several steps for that) and drains them, and has returned. A synchronize that found a shutdown
begun was turned away, and a call may be dropped where it awaits. -/
inductive CronStage where
  | arrived
  | entered
  | cancelling (left owners : List (AppId × OwnerId))
  | draining (owners left : List (AppId × OwnerId)) (drain : Drain)
  | returned
  | turnedAway
  | dropped
deriving DecidableEq

structure CronTask where
  call : CronCall
  stage : CronStage
deriving DecidableEq

/-- A task that has registered for an owner's completion gets it. -/
def CronTask.notify (owner : OwnerId) (task : CronTask) : CronTask :=
  match task.stage with
  | .draining owners ((appId, current) :: left) (.enabled notified) =>
    { task with
      stage := .draining owners ((appId, current) :: left)
        (.enabled (notified || current == owner)) }
  | .draining owners ((appId, current) :: left) (.waiting notified) =>
    { task with
      stage := .draining owners ((appId, current) :: left)
        (.waiting (notified || current == owner)) }
  | _ => task

structure CronRuns where
  owners : ExtTreeMap AppId OwnerId
  /-- What an owner's `Arc` points at. -/
  active : ExtTreeMap OwnerId DeploymentRuns
  nextOwner : OwnerId
  /-- The start that holds the lock on the owners across a step. -/
  ownersLocked : Option ℕ
  /-- The call that holds the mutation lock. -/
  mutation : Option ℕ
  stopping : Bool
  runs : ExtTreeMap ℕ CronRun
  tasks : ExtTreeMap ℕ CronTask
  listed : List (AppId × DeploymentId)
  closed : List AppId

namespace CronRuns

def new : CronRuns where
  owners := ∅
  active := ∅
  nextOwner := 0
  ownersLocked := none
  mutation := none
  stopping := false
  runs := ∅
  tasks := ∅
  listed := []
  closed := []

/-! ### Starts and leases -/

/-- A start locks the owners and looks whether the host is stopping. -/
def ask (s : CronRuns) (id : ℕ) (appId : AppId) (deploymentId : DeploymentId) : CronRuns :=
  if s.ownersLocked.isSome || s.runs.contains id then s
  else if s.stopping then { s with runs := s.runs.insert id .refused }
  else { s with runs := s.runs.insert id (.asking appId deploymentId), ownersLocked := some id }

/-- The app's owner, if it is the deployment's. -/
def ownerOf (s : CronRuns) (appId : AppId) (deploymentId : DeploymentId) :
    Option (OwnerId × DeploymentRuns) :=
  match s.owners[appId]? with
  | none => none
  | some owner =>
    match s.active[owner]? with
    | none => none
    | some active => if active.deploymentId = deploymentId then some (owner, active) else none

/-- A start is admitted by the app's owner, or refused, and lets go of the lock. -/
def answer (s : CronRuns) (id : ℕ) : CronRuns :=
  match s.runs[id]? with
  | some (.asking appId deploymentId) =>
    match s.ownerOf appId deploymentId with
    | none => { s with runs := s.runs.insert id .refused, ownersLocked := none }
    | some (owner, active) =>
      match active.start with
      | none => { s with runs := s.runs.insert id .refused, ownersLocked := none }
      | some (n, active) =>
        { s with
          active := s.active.insert owner active
          runs := s.runs.insert id (.held appId deploymentId owner n)
          ownersLocked := none }
  | _ => s

/-- A lease's drop takes it from its owner. -/
def release (s : CronRuns) (id : ℕ) : CronRuns :=
  match s.runs[id]? with
  | some (.held _ _ owner n) =>
    { s with
      active := s.active.modify owner (·.remove n)
      runs := s.runs.insert id (.completing owner) }
  | _ => s

/-- A lease's drop then tells all that wait for its owner. -/
def complete (s : CronRuns) (id : ℕ) : CronRuns :=
  match s.runs[id]? with
  | some (.completing owner) =>
    { s with
      runs := s.runs.insert id .gone
      tasks := s.tasks.map fun _ task => task.notify owner }
  | _ => s

/-! ### Calls -/

/-- A task goes on to a stage. -/
def goTo (s : CronRuns) (id : ℕ) (call : CronCall) (stage : CronStage) : CronRuns :=
  { s with tasks := s.tasks.insert id ⟨call, stage⟩ }

/-- A call comes; a shutdown says first that the host is stopping. -/
def arrive (s : CronRuns) (id : ℕ) (call : CronCall) : CronRuns :=
  if s.tasks.contains id then s
  else { s with stopping := s.stopping || call == CronCall.shutdown }.goTo id call .arrived

/-- A call gets the mutation lock; a synchronize looks whether the host is stopping. -/
def enter (s : CronRuns) (id : ℕ) : CronRuns :=
  match s.tasks[id]? with
  | some ⟨call, .arrived⟩ =>
    if s.mutation.isSome then s
    else
      match call with
      | .synchronize deployments =>
        if s.stopping then s.goTo id (.synchronize deployments) .turnedAway
        else { s with mutation := some id }.goTo id (.synchronize deployments) .entered
      | call => { s with mutation := some id }.goTo id call .entered
  | _ => s

/-- An owner a synchronize retires: one that is closed, or whose deployment is not asked for. -/
def retires (s : CronRuns) (deployments : List (AppId × DeploymentId)) (entry : AppId × OwnerId) :
    Bool :=
  match s.active[entry.2]? with
  | none => false
  | some active =>
    !active.accepting ||
      !deployments.any fun wanted => wanted.1 == entry.1 && wanted.2 == active.deploymentId

/-- Some owners are cancelled. -/
def cancelAll (s : CronRuns) (entries : List (AppId × OwnerId)) : CronRuns :=
  { s with active := entries.foldl (fun active entry => active.modify entry.2 (·.cancel)) s.active }

/-- A call takes out of the owners those it ends, under their lock. A shutdown cancels them only
after it. -/
def collect (s : CronRuns) (id : ℕ) : CronRuns :=
  match s.tasks[id]? with
  | some ⟨call, .entered⟩ =>
    if s.ownersLocked.isSome then s
    else
      match call with
      | .synchronize deployments =>
        let retiring := s.owners.toList.filter (s.retires deployments)
        (s.cancelAll retiring).goTo id call (.draining retiring retiring .idle)
      | .stop appId =>
        let owner := (s.owners[appId]?.map fun owner => (appId, owner)).toList
        { s.cancelAll owner with closed := appId :: s.closed }.goTo id call
          (.draining owner owner .idle)
      | .shutdown => s.goTo id call (.cancelling s.owners.toList s.owners.toList)
  | _ => s

/-- A shutdown cancels its next owner. -/
def cancelNext (s : CronRuns) (id : ℕ) : CronRuns :=
  match s.tasks[id]? with
  | some ⟨call, .cancelling (entry :: left) owners⟩ =>
    (s.cancelAll [entry]).goTo id call (.cancelling left owners)
  | some ⟨call, .cancelling [] owners⟩ => s.goTo id call (.draining owners owners .idle)
  | _ => s

/-- A call's drain of an owner goes on: it registers, then it looks, and goes on with the next
owner or waits for the completion and begins again. -/
def drain (s : CronRuns) (id : ℕ) : CronRuns :=
  match s.tasks[id]? with
  | some ⟨call, .draining owners (entry :: left) .idle⟩ =>
    s.goTo id call (.draining owners (entry :: left) (.enabled false))
  | some ⟨call, .draining owners (entry :: left) (.enabled notified)⟩ =>
    match s.active[entry.2]? with
    | none => s
    | some active =>
      if active.cancellations.isEmpty then s.goTo id call (.draining owners left .idle)
      else s.goTo id call (.draining owners (entry :: left) (.waiting notified))
  | some ⟨call, .draining owners (entry :: left) (.waiting true)⟩ =>
    s.goTo id call (.draining owners (entry :: left) .idle)
  | _ => s

/-- An app gets an owner for a deployment, if it has none. -/
def own (s : CronRuns) (deployment : AppId × DeploymentId) : CronRuns :=
  if s.owners.contains deployment.1 then s
  else
    { s with
      owners := s.owners.insert deployment.1 s.nextOwner
      active := s.active.insert s.nextOwner (.new deployment.2)
      nextOwner := s.nextOwner + 1 }

/-- A call that has drained its owners returns. A synchronize first takes them out and, unless
the host is stopping, makes an owner for each app that has none. -/
def finish (s : CronRuns) (id : ℕ) : CronRuns :=
  match s.tasks[id]? with
  | some ⟨.synchronize deployments, .draining retiring [] _⟩ =>
    if s.ownersLocked.isSome then s
    else
      let kept : CronRuns :=
        { s with
          owners := retiring.foldl (fun owners entry => owners.erase entry.1) s.owners
          listed := deployments
          closed := [] }
      let owned := if kept.stopping then kept else deployments.foldl own kept
      { owned with mutation := none }.goTo id (.synchronize deployments) .returned
  | some ⟨call, .draining _ [] _⟩ => { s with mutation := none }.goTo id call .returned
  | _ => s

/-- A call's future is dropped where it awaits. -/
def abort (s : CronRuns) (id : ℕ) : CronRuns :=
  match s.tasks[id]? with
  | some ⟨call, .arrived⟩ => s.goTo id call .dropped
  | some ⟨call, .draining _ _ (.waiting _)⟩ => { s with mutation := none }.goTo id call .dropped
  | _ => s

inductive Move where
  | ask (id : ℕ) (appId : AppId) (deploymentId : DeploymentId)
  | answer (id : ℕ)
  | release (id : ℕ)
  | complete (id : ℕ)
  | arrive (id : ℕ) (call : CronCall)
  | enter (id : ℕ)
  | collect (id : ℕ)
  | cancelNext (id : ℕ)
  | drain (id : ℕ)
  | finish (id : ℕ)
  | abort (id : ℕ)

def step (s : CronRuns) : Move → CronRuns
  | .ask id appId deploymentId => s.ask id appId deploymentId
  | .answer id => s.answer id
  | .release id => s.release id
  | .complete id => s.complete id
  | .arrive id call => s.arrive id call
  | .enter id => s.enter id
  | .collect id => s.collect id
  | .cancelNext id => s.cancelNext id
  | .drain id => s.drain id
  | .finish id => s.finish id
  | .abort id => s.abort id

end CronRuns

end Nibrunner
