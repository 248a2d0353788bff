import Mathlib.Order.Fin.Basic
import FleetRouter.Session.State

/-!
# The fleet view

A published snapshot of one listener's fleet: what each upstream covers and
what the fleet covers together.  Instants are numbers, and the connection
counter of an upstream is the value a reader sees.
-/

namespace FleetRouter.Fleet

open Ship Session

/-- The logs a SHiP status reports a range for. -/
inductive Log where
  | trace
  | chainState
  | finality
  deriving DecidableEq, Repr

def Log.all : List Log := [.trace, .chainState, .finality]

@[simp] theorem Log.mem_all (log : Log) : log ∈ Log.all := by
  cases log <;> simp [Log.all]

/-- Sticky coverage of one log over the enabled upstreams. -/
structure LogCoverage where
  /-- Merged segments. -/
  components : List Range
  /-- The component status reports, `(0, 0)` if there is none. -/
  top : Range
  /-- Holes between components. -/
  gaps : List Range
  /-- Parts of `top` that no online upstream covers. -/
  offlineOnly : List Range
  /-- Live coverage is open-ended above this block. -/
  liveTailBegin : Option (Fin (2 ^ 32))
  deriving DecidableEq, Repr

/-- The coverage of a log nobody has. -/
def LogCoverage.empty : LogCoverage where
  components := []
  top := ⟨0, 0⟩
  gaps := []
  offlineOnly := []
  liveTailBegin := none

/-- Membership used by the planner. -/
def LogCoverage.has (coverage : LogCoverage) (n : Fin (2 ^ 32)) : Bool :=
  (coverage.liveTailBegin.any fun begin => begin ≤ n)
    || coverage.components.any fun range => range.contains n

/-- One upstream skipped for `[block, block + range)` until `until_`. -/
structure BlockQuarantine where
  block : Fin (2 ^ 32)
  range : Fin (2 ^ 32)
  until_ : Nat
  deriving DecidableEq, Repr

namespace BlockQuarantine

/-- One past the quarantined blocks, unless that overflows. -/
def stop (q : BlockQuarantine) : Option (Fin (2 ^ 32)) :=
  if fits : q.block.val + q.range.val < 2 ^ 32 then some ⟨q.block.val + q.range.val, fits⟩
  else none

def covers (q : BlockQuarantine) (n : Fin (2 ^ 32)) : Bool :=
  match q.stop with
  | some stop => q.block ≤ n && n < stop
  | none => q.block ≤ n

def active (q : BlockQuarantine) (now : Nat) : Bool := now < q.until_

end BlockQuarantine

/-- One upstream as the planner sees it. -/
structure UpstreamView where
  index : Nat
  endpoint : String
  role : Role
  enabled : Bool
  operatorDisabled : Bool
  online : Bool
  stale : Bool
  known : Bool
  trace : Range
  chainState : Range
  finality : Range
  head : Option BlockPos
  lib : Option BlockPos
  connections : Nat
  maxSessions : Option Nat
  priority : Nat
  weight : Nat
  quarantines : List BlockQuarantine
  abiFp : Option UInt64
  /-- False when the listener excludes this upstream for its ABI. -/
  abiOk : Bool
  legacyStatus : Bool
  noBlockLog : Bool
  deriving DecidableEq, Repr

namespace UpstreamView

variable (u : UpstreamView)

/-- Whether a session may be routed here. -/
def routable : Bool := u.enabled && !u.operatorDisabled

def range : Log → Range
  | .trace => u.trace
  | .chainState => u.chainState
  | .finality => u.finality

/-- Whether this upstream has the log at all. -/
def hasLog (log : Log) : Bool :=
  match u.role with
  | .live => 0 < (u.range log).end
  | .frozen => !(u.range log).isEmpty

/-- The logs this upstream has. -/
def logs : List Log := Log.all.filter u.hasLog

/-- Lowest begin over the logs this upstream has. -/
def idsBegin : Option (Fin (2 ^ 32)) := (u.logs.map fun log => (u.range log).begin).min?

/-- Highest end over the logs this upstream has. -/
def maxEnd : Fin (2 ^ 32) := (u.logs.map fun log => (u.range log).end).max?.getD 0

/-- A live log is open-ended; a frozen one covers exactly its range. -/
def covers (log : Log) (n : Fin (2 ^ 32)) : Bool :=
  match u.role with
  | .live => 0 < (u.range log).end && (u.range log).begin ≤ n
  | .frozen => (u.range log).contains n

/-- Whether this upstream knows the id of block `n`. -/
def coversIds (n : Fin (2 ^ 32)) : Bool := Log.all.any fun log => u.covers log n

/-- At `max_sessions` without the slots the asking session holds itself. -/
def atCapacityBesides (own : Nat) : Bool := u.maxSessions.any fun max => max ≤ u.connections - own

def atCapacity : Bool := u.atCapacityBesides 0

/-- Whether an active quarantine excludes a request starting at `n`. -/
def quarantinedAt (n : Fin (2 ^ 32)) (now : Nat) : Bool :=
  u.quarantines.any fun q => q.active now && q.covers n

end UpstreamView

/-- An ABI an upstream sent, with its fingerprint. -/
structure AbiEntry where
  text : String
  fp : UInt64
  compatible : Bool
  deriving DecidableEq, Repr

/-- Where the canonical ABI of a stitched listener comes from. -/
inductive AbiSource where
  | file
  /-- A live upstream, by index. -/
  | live (index : Nat)
  /-- A frozen upstream, by index, used until a live ABI is seen. -/
  | provisional (index : Nat)
  deriving DecidableEq, Repr

/-- A published snapshot of one listener's fleet.  The ids coverage is the union
of the three logs, so a block it has is in the coverage of one of them. -/
structure FleetView where
  generation : Nat
  topology : Topology
  chainId : Option Checksum
  head : Option BlockPos
  lib : Option BlockPos
  trace : LogCoverage
  chainState : LogCoverage
  finality : LogCoverage
  ids : LogCoverage
  upstreams : List UpstreamView
  abi : Option AbiEntry
  abiSource : Option AbiSource
  /-- Enabled frozen upstreams without a reported or declared range. -/
  frozenUnknown : Nat
  statusReady : Bool
  liveConfigured : Bool
  online : Nat
  liveOnline : Nat
  /-- For trace and chain state: highest frozen end minus lowest online live
  begin. -/
  liveOverlap : Option Int × Option Int
  /-- Positions in `upstreams` of the live upstreams the tip came from. -/
  anchors : List Nat
  ids_has : ∀ n, ids.has n = true → trace.has n ∨ chainState.has n ∨ finality.has n

namespace FleetView

/-- The view of a listener before its first build. -/
def empty (topology : Topology) (chainId : Option Checksum) : FleetView where
  generation := 0
  topology := topology
  chainId := chainId
  head := none
  lib := none
  trace := .empty
  chainState := .empty
  finality := .empty
  ids := .empty
  upstreams := []
  abi := none
  abiSource := none
  frozenUnknown := 0
  statusReady := false
  liveConfigured := false
  online := 0
  liveOnline := 0
  liveOverlap := (none, none)
  anchors := []
  ids_has := fun _ has => .inl has

def cov (v : FleetView) : Log → LogCoverage
  | .trace => v.trace
  | .chainState => v.chainState
  | .finality => v.finality

/-- The upstream with the given index. -/
def up (v : FleetView) (index : Nat) : Option UpstreamView :=
  match v.upstreams[index]? with
  | some u => if u.index = index then some u else v.upstreams.find? fun u => u.index = index
  | none => v.upstreams.find? fun u => u.index = index

/-- The first block whose id the fleet knows. -/
def idsBegin (v : FleetView) : Option (Fin (2 ^ 32)) :=
  v.ids.components.head?.map fun range => range.begin

theorem up_mem {v : FleetView} {index : Nat} {u : UpstreamView} (found : v.up index = some u) :
    u ∈ v.upstreams ∧ u.index = index := by
  have search (hit : v.upstreams.find? (fun u => decide (u.index = index)) = some u) :
      u ∈ v.upstreams ∧ u.index = index :=
    ⟨List.mem_of_find?_eq_some hit, by simpa using List.find?_some hit⟩
  unfold up at found
  split at found
  · rename_i w direct
    split at found
    · rename_i same
      cases found
      exact ⟨List.mem_of_getElem? direct, same⟩
    · exact search found
  · exact search found

end FleetView

/-! ## Ranges of an upstream -/

/-- A block a frozen upstream covers is below the highest end of its logs. -/
theorem UpstreamView.lt_maxEnd {u : UpstreamView} (frozen : u.role = .frozen) {log : Log}
    {n : Fin (2 ^ 32)} (nonempty : n < (u.range log).end)
    (present : ¬(u.range log).isEmpty) : n < u.maxEnd := by
  have has : log ∈ u.logs := by
    simpa [logs, hasLog, frozen] using present
  have member : (u.range log).end ∈ u.logs.map fun log => (u.range log).end :=
    List.mem_map_of_mem has
  obtain ⟨top, highest⟩ : ∃ top, (u.logs.map fun log => (u.range log).end).max? = some top := by
    cases maximum : (u.logs.map fun log => (u.range log).end).max? with
    | none => simp [List.max?_eq_none_iff.mp maximum] at member
    | some top => exact ⟨top, rfl⟩
  have bound := (List.max?_eq_some_iff.mp highest).2 _ member
  rw [maxEnd, highest]
  exact nonempty.trans_le bound

end FleetRouter.Fleet
