import Nibrunner.Activity.Ledger
import Nibrunner.Daemon.Tasks

/-!
# Meters that only grow

Every meter is added to under the lock of the state, so no pass carries away what another has
added. But the activity pass keeps the meters only of the apps that have a record or a volume that
stores bytes at that moment, and a reconcile pass drops the record of an app it replaces or
recovers and puts it back when it starts the app again. Where no volume of the app is reported as
storing bytes in between, its meters are gone: `meters_dropped_mid_replace`.

`Metered` is the condition under which that, a restart over older notes and an overflow stay out,
and `meters_only_grow` is what then holds of every run.
-/

namespace Nibrunner

open Std

namespace Watch

/-- The meters of an app. -/
def meters (w : Watch) (app : AppId) : UsageMeters := meterOf w.ledger.meters app

/-- What the meters are loaded from. -/
def readable (w : Watch) : Bool → WrittenDown
  | true => w.written
  | false => .empty

/-- The step counts the app: a pass that stores finds a record of it or a volume of it that stores
bytes, or has no meters of it to lose; nothing it adds overflows; and a restart reads back no less
than there was. -/
def Metered (app : AppId) (w : Watch) : WatchMove → Prop
  | .storePass => ∀ nowMs next, w.pass = .storing nowMs next →
    w.meters app = .zero ∨
      (w.ledger.meterInputs nowMs next.traffic).Counts app ∧
        (w.meters app).Fits ((w.ledger.meterInputs nowMs next.traffic).gains app)
  | .measure taken _ _ => CpuFits w.ledger.computeTicks app w.ledger.meters taken
  | .restart _ readable => (w.meters app).Le (meterOf (w.readable readable).meters app)
  | _ => True

/-- **No step that counts the app takes from its meters.** -/
theorem meters_le_step {app : AppId} {w : Watch} {e : WatchMove} (h : Metered app w e) :
    (w.meters app).Le ((w.step e).meters app) := by
  -- three steps write the meters: a store adds traffic, a measurement ticks, a restart reads them
  cases e with
  | tick ms => exact .refl _
  | host h => exact .refl _
  | timePass | snapshotPass | measurePass taken requestsOpen =>
    rw [step]
    split
    · exact .refl _
    · exact .refl _
  | storePass =>
    rw [step]
    split
    · rename_i nowMs next heq
      rcases h nowMs next heq with hzero | ⟨hcounts, hfits⟩
      · rw [hzero]
        exact UsageMeters.zero_le _
      · exact meterOf_le_meteredAfter hcounts hfits
    · exact .refl _
  | callMark other => exact .refl _
  | landMark mark =>
    rw [step]
    split
    · exact .refl _
    · exact .refl _
  | measure taken volumeUsage computeTicks => exact meterOf_le_cpuMeteredAfter h
  | copyDown => exact .refl _
  | writeDown copy outcome =>
    rw [step]
    split
    · exact .refl _
    · exact .refl _
  | restart h' readable =>
    cases readable with
    | true => exact h
    | false => exact h

/-- **Meters only grow.** Along every run whose steps count the app, from any state of the daemon,
no counter of the app's is ever below what it was. -/
theorem meters_only_grow {app : AppId} {w : Watch} {es : List WatchMove}
    (hes : Run.Meets step (Metered app) w es) {before after : List WatchMove}
    (hsplit : es = before ++ after) :
    ((Run.run step w before).meters app).Le ((Run.run step w es).meters app) := by
  subst hsplit
  rw [Run.meets_append] at hes
  rw [Run.run_append]
  obtain ⟨-, hafter⟩ := hes
  generalize Run.run step w before = v at hafter ⊢
  induction after generalizing v with
  | nil => exact .refl _
  | cons e after ih => exact (meters_le_step hafter.1).trans (ih _ hafter.2)

/-! ### A deployment replaced right after a restart -/

/-- The small host as a daemon that was started again finds it: nothing is reported of its volumes
before the first pass has seen to them. -/
def restartedHost : Host := { awakeHost with volumeReports := [] }

/-- The document with a new deployment of the app. -/
def redeployed : HostDesiredState :=
  ⟨[soleVolume], [{ onRequestInstance with deploymentId := ⟨"dep-2"⟩ }], [], []⟩

/-- The host in the middle of the pass over it: what is to go is stopped, nothing started yet. -/
def midReplace : Host :=
  (restartedHost.syncDesired redeployed).applyStops
    (planReconcile redeployed (restartedHost.observe redeployed))

/-- Five seconds of running are on the meters that were written down. -/
def fiveSeconds : UsageMeters := { UsageMeters.zero with runningMs := 5000 }

def restartedWatch : Watch where
  ledger := .load restartedHost
    { WrittenDown.empty with
      meters := (∅ : ExtTreeMap AppId UsageMeters).insert ⟨"app-1"⟩ fiveSeconds }
  clockMs := 0
  pass := .resting
  marks := []
  writing := []
  written := .empty

/-- An activity pass over a firewall without counters. -/
def activityPass : List WatchMove := [.timePass, .snapshotPass, .measurePass ∅ ∅, .storePass]

/-- Two passes that find the record. What the first stored is written down, and the daemon is
started again between them. -/
def startedBetween : List WatchMove :=
  activityPass ++ [.tick 5000, .copyDown, .writeDown 0 .done, .restart restartedHost true] ++
    activityPass

theorem meters_only_grow_startedBetween :
    fiveSeconds.Le ((Run.run step restartedWatch startedBetween).meters ⟨"app-1"⟩) := by
  have hmeets : Run.Meets step (Metered ⟨"app-1"⟩) restartedWatch startedBetween := by
    refine ⟨trivial, trivial, trivial, ?_, trivial, trivial, trivial, ?_, trivial, trivial,
      trivial, ?_, trivial⟩
    · rintro nowMs next ⟨⟩
      exact .inr ⟨by decide +kernel, by constructor <;> decide +kernel⟩
    · constructor <;> decide +kernel
    · rintro nowMs next ⟨⟩
      exact .inr ⟨by decide +kernel, by constructor <;> decide +kernel⟩
  exact meters_only_grow hmeets (List.nil_append _).symm

/-- The app is named with its volume by the document that is being applied. Its record is dropped
in the middle of the pass, and an activity pass that stores then takes five seconds from its
meters. -/
theorem meters_dropped_mid_replace :
    ((⟨"app-1"⟩ : AppId) ∈ redeployed.appIds ∧ soleVolume ∈ redeployed.volumes ∧
      soleVolume.appId = ⟨"app-1"⟩ ∧ soleVolume.desiredState = .present) ∧
    (restartedWatch.meters ⟨"app-1"⟩).runningMs = 5000 ∧
    ((Run.run step restartedWatch (.host midReplace :: activityPass)).meters
      ⟨"app-1"⟩).runningMs = 0 ∧
    (@Host.reconcile .plain restartedHost redeployed (.succeed .change 0)).isUp ⟨"app-1"⟩ := by
  refine ⟨?_, ?_, ?_, ?_⟩
  all_goals decide +kernel

end Watch

end Nibrunner
