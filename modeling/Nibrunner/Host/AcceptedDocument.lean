import Mathlib.Data.Set.Function
import Nibrunner.ForStd.IdMap
import Nibrunner.ForStd.Run
import Nibrunner.Protocol.Document
import Nibrunner.Reconcile.Volumes

/-!
# The document a host has taken up

Four copies of the document a host is on are kept: the digest and the revision the report carries,
the row a restart reads, the one the passes run over (`latest`), and the deployments of the cron
tables. A document read from the file is written to the first two before the cron registry has
said whether it can follow it, and to the last two after.

Reading a file is a parameter (`DocumentReader`): what a JSON parser and the policy compiler make
of the bytes, and the digest of the bytes.

* `ConvergeHost.Agrees`: the four copies are of one document;
* `ConvergeHost.Known`: what holds in any case: report and row agree, and the passes run over a
  document that names no app twice;
* `accepted_document_agrees_iff`: the four copies agree after every step of a run exactly when no
  readable file of the run names an app twice.
-/

namespace Nibrunner

open Std

/-! ### Documents and the file they are read from -/

/-- The document as it is written: what one host is asked for, the name of the host, and the
control plane's own name for this version of it. -/
structure RevisedDocument extends HostDesiredState where
  hostId : String
  revision : String
deriving DecidableEq

namespace RevisedDocument

def deployments (d : RevisedDocument) : List (AppId × DeploymentId) :=
  d.instances.map fun wanted => (wanted.appId, wanted.deploymentId)

/-- No app is listed twice. -/
def Distinct (d : RevisedDocument) : Prop := d.appIds.Nodup

instance (d : RevisedDocument) : Decidable d.Distinct := inferInstanceAs (Decidable d.appIds.Nodup)

theorem map_fst_deployments (d : RevisedDocument) : d.deployments.map Prod.fst = d.appIds := by
  simp [deployments, HostDesiredState.appIds]

end RevisedDocument

/-- Whether two documents ask for the same thing: a document that renamed itself and changed
nothing else is not worth a pass. -/
def asksTheSame (held next : RevisedDocument) : Bool :=
  held = { next with revision := held.revision }

/-- A document as this host read it, and the digest of the bytes it came from. -/
structure AcceptedDocument (Digest : Type) where
  desired : RevisedDocument
  digest : Digest

/-- What the desired state file holds when it is read. -/
inductive DesiredFile (Bytes : Type) where
  | missing
  | unreadable (message : String)
  | contents (bytes : Bytes)

/-- How bytes are read: the document in them, nothing where they are blank, or why they hold none;
and their digest. -/
structure DocumentReader (Bytes Digest : Type) where
  parse : Bytes → Except String (Option RevisedDocument)
  digestOf : Bytes → Digest

section Read

variable {Bytes Digest : Type} (reader : DocumentReader Bytes Digest)

def readDesiredState : DesiredFile Bytes → Except String (Option (AcceptedDocument Digest))
  | .missing => .ok none
  | .unreadable message => .error message
  | .contents bytes =>
    match reader.parse bytes with
    | .error message => .error message
    | .ok none => .ok none
    | .ok (some desired) => .ok (some { desired, digest := reader.digestOf bytes })

end Read

/-! ### Cron tables -/

structure CronJobDefinition where
  schedule : String
  command : String
  environment : Option (List (String × String))
deriving DecidableEq

structure CronTable where
  appId : AppId
  deploymentId : DeploymentId
  jobs : List CronJobDefinition
  crontab : Option String
deriving DecidableEq

abbrev CronTables := ExtTreeMap AppId CronTable

inductive CronRegistryError where
  | deploymentMismatch
  | duplicate
deriving DecidableEq

def CronRegistryError.message : CronRegistryError → String
  | deploymentMismatch => "cron registrations must belong to the current deployment"
  | duplicate => "the cron registry contains more than one table for an app"

namespace CronTables

/-- The table of an app: the one held for its deployment, or one with no jobs. -/
def tableFor (held : CronTables) (appId : AppId) (deploymentId : DeploymentId) : CronTable :=
  (held[appId]?.filter fun table => table.deploymentId = deploymentId).getD
    { appId, deploymentId, jobs := [], crontab := none }

/-- The tables that are wanted, one deployment after another. -/
def wantedTables (held : CronTables) :
    CronTables → List (AppId × DeploymentId) → Except CronRegistryError CronTables
  | wanted, [] => .ok wanted
  | wanted, (appId, deploymentId) :: rest =>
    if wanted.contains appId then .error .duplicate
    else wantedTables held (wanted.insert appId (tableFor held appId deploymentId)) rest

/-- The registry follows the deployments. It writes only when the tables differ, which leaves the
same ones. -/
def synchronize (held : CronTables) (deployments : List (AppId × DeploymentId)) :
    Except CronRegistryError CronTables :=
  wantedTables held ∅ deployments

/-- What a guest registers: a table in the place of the one held for its deployment. -/
def replace (held : CronTables) (table : CronTable) : Except CronRegistryError CronTables :=
  if held[table.appId]?.any fun before => before.deploymentId = table.deploymentId then
    .ok (held.insert table.appId table)
  else .error .deploymentMismatch

def deploymentOf (tables : CronTables) (appId : AppId) : Option DeploymentId :=
  tables[appId]?.map (·.deploymentId)

/-- The tables are of these deployments. -/
def Follow (tables : CronTables) (deployments : List (AppId × DeploymentId)) : Prop :=
  ∀ app deployment, tables.deploymentOf app = some deployment ↔ (app, deployment) ∈ deployments

variable {held wanted tables : CronTables} {deployments : List (AppId × DeploymentId)}

@[simp] theorem deploymentId_tableFor (appId : AppId) (deploymentId : DeploymentId) :
    (tableFor held appId deploymentId).deploymentId = deploymentId := by
  rw [tableFor]
  cases h : held[appId]?.filter fun table => table.deploymentId = deploymentId with
  | none => rfl
  | some table =>
    have hfilter := (Option.filter_eq_some_iff.mp h).2
    simpa using hfilter

theorem deploymentOf_insert (table : CronTable) (app appId : AppId) :
    deploymentOf (wanted.insert appId table) app =
      if appId = app then some table.deploymentId else wanted.deploymentOf app := by
  rw [deploymentOf, ExtTreeMap.getElem?_insert_ite]
  split <;> rfl

theorem contains_eq_isSome_deploymentOf (app : AppId) :
    wanted.contains app = (wanted.deploymentOf app).isSome := by
  rw [deploymentOf, Option.isSome_map, ExtTreeMap.contains_eq_isSome_getElem?]

/-- Deployments of apps that are all distinct, and not among the tables wanted already, are all
followed. -/
theorem wantedTables_of_nodup (held wanted : CronTables) (hnodup : (deployments.map Prod.fst).Nodup)
    (hnew : ∀ app ∈ deployments.map Prod.fst, wanted.deploymentOf app = none) :
    ∃ tables, wantedTables held wanted deployments = .ok tables ∧
      ∀ app deployment, tables.deploymentOf app = some deployment ↔
        (app, deployment) ∈ deployments ∨ wanted.deploymentOf app = some deployment := by
  induction deployments generalizing wanted with
  | nil => exact ⟨wanted, rfl, by simp⟩
  | cons head rest ih =>
    obtain ⟨appId, deploymentId⟩ := head
    rw [List.map_cons, List.nodup_cons] at hnodup
    obtain ⟨hhead, hrest⟩ := hnodup
    have hfree : wanted.deploymentOf appId = none := hnew appId List.mem_cons_self
    obtain ⟨tables, htables, hdeployments⟩ :=
      @ih (wanted.insert appId (tableFor held appId deploymentId)) hrest
        (fun app happ => by
          have hne : appId ≠ app := fun h => hhead (h ▸ happ)
          rw [deploymentOf_insert, if_neg hne]
          exact hnew app (List.mem_cons_of_mem _ happ))
    refine ⟨tables, ?_, fun app deployment => ?_⟩
    · rw [wantedTables, contains_eq_isSome_deploymentOf, hfree]
      exact htables
    · rw [hdeployments, deploymentOf_insert, deploymentId_tableFor, List.mem_cons, Prod.mk.injEq]
      by_cases happ : appId = app
      · subst happ
        simp [hfree, eq_comm, or_comm]
      · simp [happ, Ne.symm happ]

/-- A list that names an app twice, or one whose table is wanted already, is refused. -/
theorem wantedTables_eq_duplicate
    (h : ¬(deployments.map Prod.fst).Nodup ∨
      ∃ app ∈ deployments.map Prod.fst, wanted.deploymentOf app ≠ none) :
    wantedTables held wanted deployments = .error .duplicate := by
  induction deployments generalizing wanted with
  | nil => simp at h
  | cons head rest ih =>
    obtain ⟨appId, deploymentId⟩ := head
    rw [wantedTables, contains_eq_isSome_deploymentOf]
    split
    · rfl
    · rename_i hfree
      apply ih
      rw [Option.not_isSome_iff_eq_none] at hfree
      rw [List.map_cons, List.nodup_cons] at h
      by_cases hhead : appId ∈ rest.map Prod.fst
      · exact .inr ⟨appId, hhead, by simp [deploymentOf_insert]⟩
      · rcases h with h | ⟨app, happ, htable⟩
        · exact .inl fun hrest => h ⟨hhead, hrest⟩
        · rcases List.mem_cons.mp happ with rfl | happ
          · exact absurd hfree htable
          · refine .inr ⟨app, happ, ?_⟩
            rw [deploymentOf_insert]
            split
            · simp
            · exact htable

/-- The registry follows deployments of distinct apps. -/
theorem synchronize_of_nodup (held : CronTables) (hnodup : (deployments.map Prod.fst).Nodup) :
    ∃ tables, held.synchronize deployments = .ok tables ∧ tables.Follow deployments := by
  obtain ⟨tables, htables, hfollow⟩ := wantedTables_of_nodup held ∅ hnodup
    (fun app _ => by simp [deploymentOf])
  refine ⟨tables, htables, fun app deployment => ?_⟩
  rw [hfollow]
  simp [deploymentOf]

theorem synchronize_eq_duplicate (h : ¬(deployments.map Prod.fst).Nodup) :
    held.synchronize deployments = .error .duplicate :=
  wantedTables_eq_duplicate (.inl h)

/-- What a guest registers moves no deployment. -/
theorem deploymentOf_replace {table : CronTable} (h : held.replace table = .ok tables)
    (app : AppId) : tables.deploymentOf app = held.deploymentOf app := by
  rw [replace] at h
  split at h
  · rename_i hdeployment
    cases h
    rw [deploymentOf_insert]
    split
    · rename_i happ
      subst happ
      obtain ⟨before, hbefore, heq⟩ := (Option.any_eq_true _ _).mp hdeployment
      simp only [decide_eq_true_eq] at heq
      rw [deploymentOf, hbefore, Option.map_some, heq]
    · rfl
  · cases h

end CronTables

/-! ### A host and its document -/

/-- What moved between two documents. -/
structure Changes where
  wanted : List DesiredInstance
  gone : List AppId

/-- What a host knows of the document it is on. -/
structure ConvergeHost (Digest : Type) where
  /-- What the report carries. -/
  acceptedDigest : Option Digest
  acceptedRevision : Option String
  desiredRefusal : Option String
  deferredWork : Bool
  /-- What `DesiredStateCache` holds. -/
  latest : Option RevisedDocument
  /-- The id the host goes by; this, the row and the tables outlive the daemon. -/
  hostId : Option String
  /-- The one row of `accepted_document`. -/
  row : Option (AcceptedDocument Digest)
  tables : CronTables
  /-- The passes so far, and the document each ran over. -/
  passes : List (Trigger × RevisedDocument)

namespace ConvergeHost

variable {Bytes Digest : Type}

/-- A host that was never given a document. -/
def fresh : ConvergeHost Digest where
  acceptedDigest := none
  acceptedRevision := none
  desiredRefusal := none
  deferredWork := false
  latest := none
  hostId := none
  row := none
  tables := ∅
  passes := []

def changesIn (s : ConvergeHost Digest) (next : RevisedDocument) : Changes :=
  let before := (s.latest.map (·.instances)).getD []
  let sameAsk (wanted : DesiredInstance) := before.any fun held =>
    held.appId = wanted.appId && held.deploymentId = wanted.deploymentId &&
      held.desiredState = wanted.desiredState
  { wanted := next.instances.filter fun wanted => !sameAsk wanted
    gone := (before.filter fun held => !next.instances.any (·.appId = held.appId)).map (·.appId) }

/-- What moved, when the document did; nothing when it stood still. -/
def accept (s : ConvergeHost Digest) (desired : RevisedDocument) :
    Except CronRegistryError (ConvergeHost Digest × Option Changes) :=
  match s.tables.synchronize desired.deployments with
  | .error error => .error error
  | .ok tables =>
    let changes := s.changesIn desired
    let moved := !s.latest.any fun held => asksTheSame held desired
    .ok ({ s with tables, latest := some desired }, if moved then some changes else none)

/-- A pass, as far as the documents go: it has the registry follow its own first. What it defers
is up to the host. -/
def reconcile (s : ConvergeHost Digest) (desired : RevisedDocument) (trigger : Trigger)
    (defers : Bool) : ConvergeHost Digest :=
  match s.tables.synchronize desired.deployments with
  | .error _ => s
  | .ok tables =>
    { s with
      tables
      deferredWork := defers
      passes := s.passes ++ [(trigger, desired)] }

/-- The row is written only when the bytes moved. -/
def rememberAcceptedDocument [DecidableEq Digest] (s : ConvergeHost Digest)
    (document : AcceptedDocument Digest) : ConvergeHost Digest :=
  let moved := s.acceptedDigest ≠ some document.digest
  { s with
    hostId := some document.desired.hostId
    acceptedDigest := some document.digest
    acceptedRevision := some document.desired.revision
    row := if moved then some document else s.row }

/-- A new daemon reads back what the last one wrote down. -/
def load (s : ConvergeHost Digest) : ConvergeHost Digest where
  acceptedDigest := s.row.map (·.digest)
  acceptedRevision := s.row.map (·.desired.revision)
  desiredRefusal := none
  deferredWork := false
  latest := none
  hostId := (s.row.map (·.desired.hostId)).or s.hostId
  row := s.row
  tables := s.tables
  passes := s.passes

def convergeAccepted (s : ConvergeHost Digest) (defers : Bool) : ConvergeHost Digest × Bool :=
  match s.row with
  | none => (s, false)
  | some accepted =>
    match s.accept accepted.desired with
    | .ok (s, some _) => (s.reconcile accepted.desired .restart defers, true)
    | .ok (s, none) => (s, false)
    | .error _ => (s, false)

def convergeOnce [DecidableEq Digest] (reader : DocumentReader Bytes Digest)
    (s : ConvergeHost Digest) (file : DesiredFile Bytes) (defers : Bool) :
    ConvergeHost Digest × Bool :=
  match readDesiredState reader file with
  | .ok (some document) =>
    -- taken up before the registry is asked
    let s := { s with desiredRefusal := none }.rememberAcceptedDocument document
    match s.accept document.desired with
    | .ok (s, some _) => (s.reconcile document.desired .change defers, true)
    | .ok (s, none) =>
      if s.deferredWork then (s.reconcile document.desired .deferred defers, true) else (s, false)
    | .error _ => (s, false)
  | .ok none => (s, false)
  | .error message => ({ s with desiredRefusal := some message }, false)

def convergeOnTick (s : ConvergeHost Digest) (defers : Bool) : ConvergeHost Digest × Bool :=
  match s.latest with
  | none => (s, false)
  | some desired =>
    (s.reconcile desired (if s.deferredWork then .deferred else .tick) defers, true)

end ConvergeHost

/-- A step of a host, or of a guest that registers its jobs. -/
inductive ConvergeMove (Bytes : Type) where
  | once (file : DesiredFile Bytes) (defers : Bool)
  | tick (defers : Bool)
  | restart (defers : Bool)
  | register (table : CronTable)

namespace ConvergeHost

variable {Bytes Digest : Type} (reader : DocumentReader Bytes Digest)

def step [DecidableEq Digest] (s : ConvergeHost Digest) : ConvergeMove Bytes → ConvergeHost Digest
  | .once file defers => (s.convergeOnce reader file defers).1
  | .tick defers => (s.convergeOnTick defers).1
  | .restart defers => (s.load.convergeAccepted defers).1
  | .register table =>
    match s.tables.replace table with
    | .ok tables => { s with tables }
    | .error _ => s

/-! ### One document -/

/-- The document reported, the one persisted, the one passed over and the one the cron tables
follow are the same, or there is none of them. -/
structure Agrees (s : ConvergeHost Digest) : Prop where
  digest : s.acceptedDigest = s.row.map (·.digest)
  revision : s.acceptedRevision = s.row.map (·.desired.revision)
  latest : s.latest = s.row.map (·.desired)
  tables : s.tables.Follow ((s.latest.map (·.deployments)).getD [])

variable (files : Set Bytes)

/-- What holds whatever the files say: the report is of the row, the row was read from a file, and
the document passed over names no app twice. -/
structure Known (s : ConvergeHost Digest) : Prop where
  digest : s.acceptedDigest = s.row.map (·.digest)
  revision : s.acceptedRevision = s.row.map (·.desired.revision)
  read : ∀ document, s.row = some document →
    ∃ bytes ∈ files, readDesiredState reader (.contents bytes) = .ok (some document)
  latest : ∀ desired, s.latest = some desired → desired.Distinct

/-- The step reads one of the files, if it reads any. -/
def ReadsFrom : ConvergeMove Bytes → Prop
  | .once (.contents bytes) _ => bytes ∈ files
  | _ => True

/-- A document the step reads names no app twice. -/
def ReadsDistinct : ConvergeMove Bytes → Prop
  | .once file _ => ∀ document, readDesiredState reader file = .ok (some document) →
    document.desired.Distinct
  | _ => True

variable {reader files} {s s' : ConvergeHost Digest} {desired : RevisedDocument}

theorem digest_of_read {bytes : Bytes} {document : AcceptedDocument Digest}
    (h : readDesiredState reader (.contents bytes) = .ok (some document)) :
    document.digest = reader.digestOf bytes := by
  rw [readDesiredState] at h
  split at h <;> cases h
  rfl

/-- A document is accepted when the registry follows it. -/
theorem accept_eq_ok {changes : Option Changes} (h : s.accept desired = .ok (s', changes)) :
    desired.Distinct ∧ ∃ tables, tables.Follow desired.deployments ∧
      s' = { s with tables, latest := some desired } := by
  rw [accept] at h
  by_cases hd : desired.Distinct
  · obtain ⟨tables, htables, hfollow⟩ :=
      CronTables.synchronize_of_nodup s.tables (by rwa [desired.map_fst_deployments])
    rw [htables] at h
    cases h
    exact ⟨hd, tables, hfollow, rfl⟩
  · rw [CronTables.synchronize_eq_duplicate (by rwa [desired.map_fst_deployments])] at h
    cases h

theorem accept_of_distinct (s : ConvergeHost Digest) (hd : desired.Distinct) :
    ∃ accepted, s.accept desired = .ok accepted := by
  obtain ⟨tables, htables, -⟩ :=
    CronTables.synchronize_of_nodup s.tables (by rwa [desired.map_fst_deployments])
  exact ⟨_, by rw [accept, htables]⟩

section Reconcile

variable (s) (desired) (trigger : Trigger) (defers : Bool)

/-- A pass moves none of the copies but the tables. -/
theorem reconcile_eq : ∃ tables deferredWork passes,
    s.reconcile desired trigger defers = { s with tables, deferredWork, passes } := by
  rw [reconcile]
  split
  · exact ⟨s.tables, s.deferredWork, s.passes, rfl⟩
  · exact ⟨_, _, _, rfl⟩

variable {s desired}

theorem follow_reconcile (hd : desired.Distinct) :
    (s.reconcile desired trigger defers).tables.Follow desired.deployments := by
  obtain ⟨tables, htables, hfollow⟩ :=
    CronTables.synchronize_of_nodup s.tables (by rwa [desired.map_fst_deployments])
  rw [reconcile, htables]
  exact hfollow

theorem Known.reconcile (hs : s.Known reader files) :
    (s.reconcile desired trigger defers).Known reader files := by
  obtain ⟨tables, deferredWork, passes, heq⟩ := reconcile_eq s desired trigger defers
  rw [heq]
  exact ⟨hs.digest, hs.revision, hs.read, hs.latest⟩

/-- A pass over the document that is passed over keeps the copies together. -/
theorem Agrees.reconcile (hs : s.Agrees) (hlatest : s.latest = some desired)
    (hd : desired.Distinct) : (s.reconcile desired trigger defers).Agrees := by
  have hfollow := follow_reconcile (s := s) trigger defers hd
  obtain ⟨tables, deferredWork, passes, heq⟩ := reconcile_eq s desired trigger defers
  rw [heq] at hfollow ⊢
  refine ⟨hs.digest, hs.revision, hs.latest, ?_⟩
  change tables.Follow ((s.latest.map (·.deployments)).getD [])
  rw [hlatest]
  exact hfollow

end Reconcile

theorem Known.accept (hs : s.Known reader files) {changes : Option Changes}
    (h : s.accept desired = .ok (s', changes)) : s'.Known reader files := by
  obtain ⟨hd, tables, -, rfl⟩ := accept_eq_ok h
  refine ⟨hs.digest, hs.revision, hs.read, fun latest hlatest => ?_⟩
  cases hlatest
  exact hd

/-- Accepting the document of the row brings the copies together. -/
theorem Known.agrees_of_accept (hs : s.Known reader files) {document : AcceptedDocument Digest}
    (hrow : s.row = some document) {changes : Option Changes}
    (h : s.accept document.desired = .ok (s', changes)) :
    s'.Agrees ∧ s'.latest = some document.desired := by
  obtain ⟨-, tables, hfollow, rfl⟩ := accept_eq_ok h
  refine ⟨⟨hs.digest, hs.revision, ?_, hfollow⟩, rfl⟩
  change some document.desired = s.row.map (·.desired)
  rw [hrow, Option.map_some]

/-- A document is remembered as what was read, and the report and the row are of it: bytes with
the digest the host has are the bytes it has read. -/
theorem Known.remember [DecidableEq Digest] (hs : s.Known reader files)
    (hinj : Set.InjOn reader.digestOf files) {bytes : Bytes} (hbytes : bytes ∈ files)
    {document : AcceptedDocument Digest}
    (hread : readDesiredState reader (.contents bytes) = .ok (some document)) :
    let taken := { s with desiredRefusal := none }.rememberAcceptedDocument document
    taken.Known reader files ∧ taken.row = some document := by
  intro taken
  have hrow : taken.row = some document := by
    change (if s.acceptedDigest ≠ some document.digest then some document else s.row) = _
    split
    · rfl
    · rename_i hsame
      rw [not_not, hs.digest] at hsame
      obtain ⟨held, hheld, hdigest⟩ := Option.map_eq_some_iff.mp hsame
      obtain ⟨before, hbefore, hreadBefore⟩ := hs.read held hheld
      rw [digest_of_read hreadBefore, digest_of_read hread] at hdigest
      rw [hinj hbefore hbytes hdigest, hread] at hreadBefore
      cases hreadBefore
      exact hheld
  refine ⟨⟨?_, ?_, fun held hheld => ?_, hs.latest⟩, hrow⟩
  · rw [hrow]
    rfl
  · rw [hrow]
    rfl
  · rw [hrow] at hheld
    cases hheld
    exact ⟨bytes, hbytes, hread⟩

/-! ### One step -/

theorem Known.load (hs : s.Known reader files) : s.load.Known reader files :=
  ⟨rfl, rfl, hs.read, fun _ h => by cases h⟩

theorem Known.convergeAccepted (hs : s.Known reader files) (defers : Bool) :
    (s.convergeAccepted defers).1.Known reader files := by
  rw [ConvergeHost.convergeAccepted]
  split
  · exact hs
  · split
    · rename_i h
      exact (hs.accept h).reconcile _ _
    · rename_i h
      exact hs.accept h
    · exact hs

/-- The document a restart converges on is the one the row holds. -/
theorem Agrees.restart (hs : s.Agrees) (hk : s.Known reader files) (defers : Bool) :
    (s.load.convergeAccepted defers).1.Agrees := by
  have hlatest := hs.latest
  cases hrow : s.row with
  | none =>
    rw [hrow, Option.map_none] at hlatest
    have hload : s.load.row = none := hrow
    rw [ConvergeHost.convergeAccepted, hload]
    have htables := hs.tables
    rw [hlatest] at htables
    exact ⟨rfl, rfl, by rw [hload]; rfl, htables⟩
  | some document =>
    rw [hrow, Option.map_some] at hlatest
    have hd := hk.latest _ hlatest
    have hload : s.load.row = some document := hrow
    rw [ConvergeHost.convergeAccepted, hload]
    simp only
    split
    · rename_i h
      obtain ⟨hagrees, hlatest⟩ := hk.load.agrees_of_accept hload h
      exact hagrees.reconcile _ _ hlatest hd
    · rename_i h
      exact (hk.load.agrees_of_accept hload h).1
    · rename_i h
      obtain ⟨accepted, hok⟩ := accept_of_distinct s.load hd
      rw [hok] at h
      cases h

variable [DecidableEq Digest] {e : ConvergeMove Bytes}

theorem Known.step (hs : s.Known reader files) (hinj : Set.InjOn reader.digestOf files)
    (he : ReadsFrom files e) : (s.step reader e).Known reader files := by
  cases e with
  | once file defers =>
    rw [ConvergeHost.step, convergeOnce]
    split
    -- a document that reads is remembered first, whatever becomes of it then
    · rename_i document hread
      cases file with
      | missing => cases hread
      | unreadable message => cases hread
      | contents bytes =>
        have htaken := (hs.remember hinj he hread).1
        simp only
        split
        · rename_i h
          exact (htaken.accept h).reconcile _ _
        · rename_i h
          split
          · exact (htaken.accept h).reconcile _ _
          · exact htaken.accept h
        · exact htaken
    · exact hs
    · exact ⟨hs.digest, hs.revision, hs.read, hs.latest⟩
  | tick defers =>
    rw [ConvergeHost.step, convergeOnTick]
    split
    · exact hs
    · exact hs.reconcile _ _
  | restart defers => exact hs.load.convergeAccepted defers
  | register table =>
    rw [ConvergeHost.step]
    split
    · exact ⟨hs.digest, hs.revision, hs.read, hs.latest⟩
    · exact hs

/-- **A document is taken up as a whole or not at all** where it names no app twice. -/
theorem Agrees.step (hs : s.Agrees) (hk : s.Known reader files)
    (hinj : Set.InjOn reader.digestOf files) (he : ReadsFrom files e)
    (hd : ReadsDistinct reader e) : (s.step reader e).Agrees := by
  cases e with
  | once file defers =>
    rw [ConvergeHost.step, convergeOnce]
    split
    · rename_i document hread
      have hdistinct := hd document hread
      cases file with
      | missing => cases hread
      | unreadable message => cases hread
      | contents bytes =>
        obtain ⟨htaken, hrow⟩ := hk.remember hinj he hread
        simp only
        split
        · rename_i h
          obtain ⟨hagrees, hlatest⟩ := htaken.agrees_of_accept hrow h
          exact hagrees.reconcile _ _ hlatest hdistinct
        · rename_i h
          obtain ⟨hagrees, hlatest⟩ := htaken.agrees_of_accept hrow h
          split
          · exact hagrees.reconcile _ _ hlatest hdistinct
          · exact hagrees
        · rename_i h
          -- it is not refused: it names no app twice
          obtain ⟨accepted, hok⟩ := accept_of_distinct
            ({ s with desiredRefusal := none }.rememberAcceptedDocument document) hdistinct
          rw [hok] at h
          cases h
    · exact hs
    · exact ⟨hs.digest, hs.revision, hs.latest, hs.tables⟩
  | tick defers =>
    rw [ConvergeHost.step, convergeOnTick]
    split
    · exact hs
    · rename_i desired hlatest
      exact hs.reconcile _ _ hlatest (hk.latest desired hlatest)
  | restart defers => exact hs.restart hk defers
  | register table =>
    rw [ConvergeHost.step]
    split
    · rename_i tables hreplace
      refine ⟨hs.digest, hs.revision, hs.latest, fun app deployment => ?_⟩
      change tables.deploymentOf app = some deployment ↔ _
      rw [CronTables.deploymentOf_replace hreplace]
      exact hs.tables app deployment
    · exact hs

/-- A document that names an app twice is reported and persisted, and never passed over. -/
theorem Known.not_agrees_step (hk : s.Known reader files)
    (hinj : Set.InjOn reader.digestOf files) (he : ReadsFrom files e)
    (hd : ¬ReadsDistinct reader e) : ¬(s.step reader e).Agrees := by
  cases e with
  | once file defers =>
    simp only [ReadsDistinct, not_forall] at hd
    obtain ⟨document, hread, hdistinct⟩ := hd
    cases file with
    | missing => cases hread
    | unreadable message => cases hread
    | contents bytes =>
      obtain ⟨htaken, hrow⟩ := hk.remember hinj he hread
      -- it is remembered and persisted, and the registry refuses it
      have hstep : s.step reader (.once (.contents bytes) defers) =
          { s with desiredRefusal := none }.rememberAcceptedDocument document := by
        rw [ConvergeHost.step, convergeOnce, hread]
        simp only
        split
        · rename_i h
          exact absurd (accept_eq_ok h).1 hdistinct
        · rename_i h
          exact absurd (accept_eq_ok h).1 hdistinct
        · rfl
      intro hagrees
      rw [hstep] at hagrees
      have hlatest := hagrees.latest
      rw [hrow, Option.map_some] at hlatest
      exact hdistinct (htaken.latest _ hlatest)
  | _ => exact absurd trivial hd

/-! ### Every run -/

/-- The bytes the run reads from the file. -/
def contentsOf (es : List (ConvergeMove Bytes)) : Set Bytes :=
  {bytes | ∃ defers, .once (.contents bytes) defers ∈ es}

/-- **One document.** Over any sequence of file contents, and any order of convergences, ticks,
restarts and registrations from a fresh host: after every step the document reported, the one
persisted, the one passed over and the one the cron tables follow are the same, exactly when no
readable document of the run names an app twice. The digest is to tell the contents of the run
apart. -/
theorem accepted_document_agrees_iff (reader : DocumentReader Bytes Digest)
    (es : List (ConvergeMove Bytes)) (hinj : Set.InjOn reader.digestOf (contentsOf es)) :
    (∀ before after, es = before ++ after → (Run.run (step reader) fresh before).Agrees) ↔
      ∀ e ∈ es, ReadsDistinct reader e := by
  have hfresh : (fresh : ConvergeHost Digest).Known reader (contentsOf es) :=
    ⟨rfl, rfl, fun _ h => (nomatch h), fun _ h => (nomatch h)⟩
  have hreads : ∀ e ∈ es, ReadsFrom (contentsOf es) e := by
    intro e he
    match e with
    | .once (.contents bytes) defers => exact ⟨defers, he⟩
    | .once .missing _ | .once (.unreadable _) _ | .tick _ | .restart _ | .register _ => trivial
  constructor
  · intro hagrees e he
    by_contra hd
    obtain ⟨before, after, rfl⟩ := List.append_of_mem he
    -- whatever came before, the report is of the row when the step is taken
    have hknown : (Run.run (step reader) fresh before).Known reader _ :=
      Run.Meets.invariant (fun s e hs he => hs.step hinj he) hfresh
        (Run.meets_of_forall (fun e he => hreads e (List.mem_append_left _ he)) _)
    have hafter := hagrees (before ++ [e]) after (by simp)
    rw [Run.run_append] at hafter
    exact hknown.not_agrees_step hinj (hreads e he) hd hafter
  · rintro hd before after rfl
    have hstart : (fresh : ConvergeHost Digest).Agrees :=
      ⟨rfl, rfl, rfl, fun app deployment => by simp [fresh, CronTables.deploymentOf]⟩
    have hmeets : Run.Meets (step reader)
        (fun _ e => ReadsFrom (contentsOf (before ++ after)) e ∧ ReadsDistinct reader e) fresh
        before :=
      Run.meets_of_forall (fun e he => ⟨hreads e (List.mem_append_left _ he),
        hd e (List.mem_append_left _ he)⟩) _
    have hboth := Run.Meets.invariant
      (I := fun s => s.Known reader (contentsOf (before ++ after)) ∧ s.Agrees)
      (fun s e hs he => ⟨hs.1.step hinj he.1, hs.2.step hs.1 hinj he.1 he.2⟩) ⟨hfresh, hstart⟩
      hmeets
    exact hboth.2

/-- A document that asks for nothing. -/
def emptyDocument (revision : String) : RevisedDocument where
  volumes := []
  instances := []
  checkpoints := []
  exports := []
  hostId := "host-1"
  revision := revision

/-- The text of `emptyDocument`. -/
def emptyDocumentText (revision : String) : String :=
  "\x7b\"hostId\":\"host-1\",\"revision\":\"" ++ revision ++
    "\",\"volumes\":[],\"instances\":[],\"checkpoints\":[],\"exports\":[]\x7d"

/-- The reader on the first two revisions of a document that asks for nothing; the digests are
what `sha256sum` says of their texts. -/
def emptyDocumentReader : DocumentReader String String where
  parse text :=
    if text = emptyDocumentText "1" then .ok (some (emptyDocument "1"))
    else if text = emptyDocumentText "2" then .ok (some (emptyDocument "2"))
    else .error "not the document this host reads"
  digestOf text :=
    if text = emptyDocumentText "1" then
      "81a75f89ed8f43e15520af3eb2349719fdf37f1e1e0bfbc896dd0baac3b8a75e"
    else "682b36488f2367506c06b1408d4112f23e996a34262772680c03ceaa4e4016b7"

/-- Two revisions, a tick, a restart, and the second revision again. -/
def twoRevisions : List (ConvergeMove String) :=
  [.once (.contents (emptyDocumentText "1")) false, .once (.contents (emptyDocumentText "2")) true,
    .tick false, .restart false, .once (.contents (emptyDocumentText "2")) false]

theorem accepted_document_agrees_over_two_revisions :
    Set.InjOn emptyDocumentReader.digestOf (contentsOf twoRevisions) ∧
      (Run.run (step emptyDocumentReader) fresh twoRevisions).Agrees := by
  have hcontents : ∀ bytes ∈ contentsOf twoRevisions,
      bytes = emptyDocumentText "1" ∨ bytes = emptyDocumentText "2" := by
    rintro bytes ⟨defers, hmem⟩
    simp only [twoRevisions, List.mem_cons, ConvergeMove.once.injEq, DesiredFile.contents.injEq,
      List.not_mem_nil, or_false, reduceCtorEq, false_or] at hmem
    tauto
  have hinj : Set.InjOn emptyDocumentReader.digestOf (contentsOf twoRevisions) := by
    intro a ha b hb heq
    rcases hcontents a ha with rfl | rfl <;> rcases hcontents b hb with rfl | rfl
    · rfl
    · exact absurd heq (by decide +kernel)
    · exact absurd heq (by decide +kernel)
    · rfl
  refine ⟨hinj, (accepted_document_agrees_iff emptyDocumentReader twoRevisions hinj).mpr ?_
    twoRevisions [] (List.append_nil _).symm⟩
  intro e _
  match e with
  | .once .missing _ | .once (.unreadable _) _ => exact fun document h => by cases h
  | .once (.contents text) _ =>
    intro document h
    simp only [readDesiredState, emptyDocumentReader] at h
    split_ifs at h <;> cases h <;> exact List.nodup_nil
  | .tick _ | .restart _ | .register _ => trivial

/-- An app, listed twice. -/
def twiceListed : RevisedDocument where
  toHostDesiredState :=
    let wanted : DesiredInstance :=
      { appId := ⟨"app-1"⟩, deploymentId := ⟨"dep-1"⟩, volumeId := ⟨"vol-1"⟩,
        desiredState := .running, layers := [⟨"layer"⟩], config := default, hostnames := [] }
    { volumes := [⟨⟨"vol-1"⟩, ⟨"app-1"⟩, 1073741824, .present⟩], instances := [wanted, wanted],
      checkpoints := [], exports := [] }
  hostId := "host-1"
  revision := "2"

/-- A reader that is given the documents themselves, each of which is its own digest. -/
def readAsIs : DocumentReader RevisedDocument RevisedDocument where
  parse desired := .ok (some desired)
  digestOf desired := desired

/-- A document that lists an app twice, after one that asks for nothing: the report and the row
are of the second, and the host converges on the first. -/
theorem twice_listed_is_reported_and_not_converged_on :
    ∃ s, s = Run.run (step readAsIs) fresh
        [.once (.contents (emptyDocument "1")) false, .once (.contents twiceListed) false] ∧
      s.acceptedDigest = some twiceListed ∧ s.acceptedRevision = some "2" ∧
      s.row.map (·.desired) = some twiceListed ∧ s.latest = some (emptyDocument "1") ∧
      ¬s.Agrees := by
  refine ⟨_, rfl, by decide +kernel, by decide +kernel, by decide +kernel, by decide +kernel,
    fun hagrees => ?_⟩
  have hlatest := hagrees.latest
  revert hlatest
  decide +kernel

end ConvergeHost

end Nibrunner
