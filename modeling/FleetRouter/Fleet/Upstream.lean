import Mathlib.Data.List.Sigma
import FleetRouter.Fleet.Quarantine
import FleetRouter.Fleet.Stale

/-!
# The state of an upstream as a whole

The monitor writes what an upstream reports, and the sessions of a listener write where it dropped
them; the views are built from what both leave.  Neither reads what only the other writes, so it
does not matter in which order their writes come.
-/

namespace FleetRouter.Fleet

open Ship Transition

/-- All that is kept of an upstream. -/
structure UpstreamState extends Monitored, StrikeState

namespace UpstreamState

/-- The monitor writes. -/
def onMonitor (f : Monitored → Monitored) (u : UpstreamState) : UpstreamState :=
  { u with toMonitored := f u.toMonitored }

/-- A session writes. -/
def onStrikes (f : StrikeState → StrikeState) (u : UpstreamState) : UpstreamState :=
  let written := f u.toStrikeState
  { u with
    toMonitored := { u.toMonitored with toServerState := written.toServerState }
    blockFailures := written.blockFailures
    blockStrikes := written.blockStrikes }

end UpstreamState

/-! ## Who writes what -/

def Monitored.withQuarantines (s : Monitored) (quarantines : List BlockQuarantine) : Monitored :=
  { s with quarantines }

/-- The upstream `base` with the exclusions of `s`. -/
def StrikeState.withServer (s : StrikeState) (base : ServerState) : StrikeState :=
  { s with toServerState := { base with quarantines := s.quarantines } }

/-- Exclusions are neither read nor written. -/
def LeavesQuarantines (f : Monitored → Monitored) : Prop :=
  ∀ s quarantines, f (s.withQuarantines quarantines) = (f s).withQuarantines quarantines

/-- Only exclusions and strikes are read and written. -/
def LeavesServer (f : StrikeState → StrikeState) : Prop :=
  ∀ s base, f (s.withServer base) = (f s).withServer base

theorem leavesQuarantines_markOffline (now : Nat) :
    LeavesQuarantines fun s => s.markOffline now := by
  intro s quarantines
  rfl

theorem Monitored.warnRoleHints_withQuarantines (s : Monitored)
    (quarantines : List BlockQuarantine) (previousEnd : Option (Fin (2 ^ 32))) :
    (s.withQuarantines quarantines).warnRoleHints previousEnd =
      (s.warnRoleHints previousEnd).withQuarantines quarantines := by
  have role : (s.withQuarantines quarantines).role = s.role := rfl
  unfold warnRoleHints
  rw [role]
  split <;> rfl

theorem Monitored.accept_withQuarantines (s : Monitored) (quarantines : List BlockQuarantine)
    (variant : UInt8) (r : StatusReport) (now : Nat) :
    (s.withQuarantines quarantines).accept variant r now =
      (s.accept variant r now).withQuarantines quarantines := by
  unfold accept
  dsimp only
  symm
  exact (warnRoleHints_withQuarantines _ quarantines _).symm

theorem leavesQuarantines_applyReport (peer : Option Checksum) (variant : UInt8)
    (r : StatusReport) (now : Nat) :
    LeavesQuarantines fun s => s.applyReport peer variant r now := by
  intro s quarantines
  have accepts (warned : Bool) :
      Monitored.accept { s.withQuarantines quarantines with chainIdUnverifiedWarned := warned }
          variant r now =
        (Monitored.accept { s with chainIdUnverifiedWarned := warned } variant r
          now).withQuarantines quarantines :=
    Monitored.accept_withQuarantines { s with chainIdUnverifiedWarned := warned } quarantines ..
  have expected : (s.withQuarantines quarantines).expectedChainId = s.expectedChainId := rfl
  have require : (s.withQuarantines quarantines).requireChainId = s.requireChainId := rfl
  unfold Monitored.applyReport
  simp only [expected, require]
  repeat' split
  all_goals first
    | rfl
    | exact accepts _

theorem leavesQuarantines_look (last counter : Nat) :
    LeavesQuarantines fun s => (ProgressTracker.look last counter s).state := by
  intro s quarantines
  have role : (s.withQuarantines quarantines).role = s.role := rfl
  have block : (s.withQuarantines quarantines).chainStateEndBlock = s.chainStateEndBlock := rfl
  simp only [ProgressTracker.look, role, block]
  split
  · rfl
  · split <;> rfl

theorem leavesServer_clearQuarantines : LeavesServer StrikeState.clearQuarantines := by
  intro s base
  rfl

theorem leavesServer_recordBlockFailure (horizon : Nat) (block : Fin (2 ^ 32)) (now : Nat)
    (policy : Option BlockFailureQuarantine) :
    LeavesServer fun s => (s.recordBlockFailure horizon block now policy).2 := by
  intro s base
  cases policy with
  | none => rfl
  | some policy =>
      have excludes : ((s.withServer base).quarantinedFor block now).1 =
          (s.quarantinedFor block now).1 := rfl
      have strikes (t : StrikeState) : (t.countFailure.pruneExpiredQuarantines now).pushStrike
          block now (fromSecs policy.windowSecs) =
            t.pushStrike block now (fromSecs policy.windowSecs) := rfl
      have pushes : (s.withServer base).pushStrike block now (fromSecs policy.windowSecs) =
          s.pushStrike block now (fromSecs policy.windowSecs) := rfl
      simp only [StrikeState.recordBlockFailure, StrikeState.quarantinedFor_pruned, excludes,
        strikes, pushes]
      cases (s.quarantinedFor block now).1 with
      | true => rfl
      | false =>
          simp only [Bool.false_eq_true, if_false]
          split_ifs <;> rfl

/-! ## The order of writes -/

namespace UpstreamState

variable {f : Monitored → Monitored} {g : StrikeState → StrikeState}

/-- What the monitor leaves of the exclusions is what was there. -/
theorem quarantines_of_leaves (leaves : LeavesQuarantines f) (s : Monitored) :
    (f s).quarantines = s.quarantines := by
  have same : f s = (f s).withQuarantines s.quarantines := leaves s s.quarantines
  have kept := congrArg (fun s : Monitored => s.quarantines) same
  exact kept

theorem server_of_leaves (leaves : LeavesServer g) (s : StrikeState) :
    (g s).toServerState = { s.toServerState with quarantines := (g s).quarantines } := by
  have same : g s = (g s).withServer s.toServerState := leaves s s.toServerState
  have kept := congrArg StrikeState.toServerState same
  exact kept

/-- The monitor and the sessions can write in any order. -/
theorem onMonitor_onStrikes (monitor : LeavesQuarantines f) (strikes : LeavesServer g)
    (u : UpstreamState) : (u.onStrikes g).onMonitor f = (u.onMonitor f).onStrikes g := by
  have server := server_of_leaves strikes u.toStrikeState
  have seen : (u.onMonitor f).toStrikeState =
      u.toStrikeState.withServer (f u.toMonitored).toServerState := by
    have kept : (f u.toMonitored).quarantines = u.quarantines :=
      quarantines_of_leaves monitor u.toMonitored
    change StrikeState.mk (f u.toMonitored).toServerState _ _ =
      StrikeState.mk { (f u.toMonitored).toServerState with quarantines := u.quarantines } _ _
    rw [← kept]
    rfl
  have written : (u.onStrikes g).toMonitored =
      u.toMonitored.withQuarantines (g u.toStrikeState).quarantines := by
    change { u.toMonitored with toServerState := (g u.toStrikeState).toServerState } = _
    rw [server]
    rfl
  have left : (u.onStrikes g).onMonitor f =
      ⟨(f u.toMonitored).withQuarantines (g u.toStrikeState).quarantines,
        (g u.toStrikeState).blockFailures, (g u.toStrikeState).blockStrikes⟩ := by
    rw [← monitor, ← written]
    rfl
  have right : (u.onMonitor f).onStrikes g =
      ⟨(f u.toMonitored).withQuarantines (g u.toStrikeState).quarantines,
        (g u.toStrikeState).blockFailures, (g u.toStrikeState).blockStrikes⟩ := by
    unfold onStrikes
    rw [seen, strikes]
    rfl
  rw [left, right]

end UpstreamState

/-- What the monitor and the loop that flags stale upstreams do. -/
inductive MonitorWrite where
  | offline (now : Nat)
  | report (peer : Option Checksum) (variant : UInt8) (r : StatusReport) (now : Nat)
  | look (last counter : Nat)

def MonitorWrite.apply : MonitorWrite → Monitored → Monitored
  | offline now => fun s => s.markOffline now
  | report peer variant r now => fun s => s.applyReport peer variant r now
  | look last counter => fun s => (ProgressTracker.look last counter s).state

/-- What sessions and the operator do. -/
inductive StrikeWrite where
  | drop (horizon : Nat) (block : Fin (2 ^ 32)) (now : Nat)
      (policy : Option BlockFailureQuarantine)
  | clear

def StrikeWrite.apply : StrikeWrite → StrikeState → StrikeState
  | drop horizon block now policy => fun s => (s.recordBlockFailure horizon block now policy).2
  | clear => StrikeState.clearQuarantines

theorem UpstreamState.writes_commute (monitor : MonitorWrite) (strikes : StrikeWrite)
    (u : UpstreamState) :
    (u.onStrikes strikes.apply).onMonitor monitor.apply =
      (u.onMonitor monitor.apply).onStrikes strikes.apply := by
  apply onMonitor_onStrikes
  · cases monitor with
    | offline now => exact leavesQuarantines_markOffline now
    | report peer variant r now => exact leavesQuarantines_applyReport peer variant r now
    | look last counter => exact leavesQuarantines_look last counter
  · cases strikes with
    | drop horizon block now policy =>
        exact leavesServer_recordBlockFailure horizon block now policy
    | clear => exact leavesServer_clearQuarantines

/-! ## The map a view is built from -/

namespace StateDb

variable {db previous : StateDb}

/-- Every upstream has its own index. -/
def Distinct (db : StateDb) : Prop := (db.entries.map fun e => e.2.index).Nodup

def stateMap (db : StateDb) (distinct : db.Distinct) : StateMap where
  entries := db.entries.map fun e => (e.1, e.2.toServerState)
  nodup := by
    rw [List.map_map]
    exact db.nodup
  distinct := by
    rw [List.map_map]
    exact distinct

theorem distinct_build (servers : List Server) (expectedChainId : Option Checksum)
    (requireChainId : Bool) : (build servers expectedChainId requireChainId).Distinct := by
  refine List.Nodup.sublist ((collect_sublist _).map _) ?_
  rw [List.map_map]
  exact List.nodup_zipIdx_map_snd _

theorem Distinct.inheritObservations (distinct : db.Distinct) :
    (db.inheritObservations previous).Distinct := by
  have same : (db.inheritObservations previous).entries.map (fun e => e.2.index) =
      db.entries.map fun e => e.2.index := by
    rw [StateDb.inheritObservations, List.map_map]
    apply List.map_congr_left
    intro e _
    simp only [Function.comp_apply]
    cases previous.get e.1 <;> rfl
  rw [Distinct, same]
  exact distinct

end StateDb

theorem ProgressTracker.index_tick (t : ProgressTracker) (entries : List (String × Monitored)) :
    (t.tick entries).entries.map (fun e => e.2.index) = entries.map fun e => e.2.index := by
  induction entries generalizing t with
  | nil => rfl
  | cons e rest ih =>
      have same : (t.lookAt e.1 e.2).state.index = e.2.index := by
        unfold lookAt look
        dsimp only
        split
        · rfl
        · split <;> rfl
      rw [tick, List.map_cons, List.map_cons, same, ih]

/-- What is kept of the upstreams of a listener is always a map that a view can be built from. -/
theorem Progress.exists_stateMap {servers : List Server} {expectedChainId : Option Checksum}
    {requireChainId : Bool} {allowed : Progress → ProgressEvent → Prop} {s : Progress}
    (reachable : Reachable (progressMachine servers expectedChainId requireChainId) allowed s) :
    ∃ states : StateMap,
      states.entries = s.monitor.db.entries.map fun e => (e.1, e.2.toServerState) := by
  have distinct : s.monitor.db.Distinct := by
    apply reachable.invariant (P := fun s => s.monitor.db.Distinct)
    · rintro s ⟨previous, rfl⟩
      have built := StateDb.distinct_build servers expectedChainId requireChainId
      revert built
      generalize StateDb.build servers expectedChainId requireChainId = db
      intro built
      induction previous generalizing db with
      | nil => exact built
      | cons generation previous ih =>
          exact ih (db.inheritObservations generation) built.inheritObservations
    · intro s e s' _ distinct _ step
      cases e with
      | tick =>
          cases step
          unfold StateDb.Distinct Progress.onTick
          rw [ProgressTracker.index_tick]
          exact distinct
      | monitor e =>
          obtain ⟨monitor, moved, rfl⟩ := Option.map_eq_some_iff.mp step
          have same := Monitor.map_step (g := fun e => e.2.index) moved fun _ _ _ kept => kept
          change (monitor.db.entries.map fun e => e.2.index).Nodup
          rw [same]
          exact distinct
  exact ⟨s.monitor.db.stateMap distinct, rfl⟩

end FleetRouter.Fleet
