import FleetRouter.Session.Judge

/-!
# What the end of a link leads to

The link-end table: whether the upstream gets a strike, whether the end uses up the
budget of its block, how long the session waits, and what it avoids next.  Durations
are in milliseconds.
-/

namespace FleetRouter.Session

open Ship

/-- After an unknown frame of the client, how long a drop is the client's doing. -/
def clientInducedWindow : Nat := 5000

/-- The pause before a failover that is not an unclean drop. -/
def cleanDelay : Nat := 100

/-- How long an upstream is not dialed again after a failed dial or request. -/
def dialExclusion : Nat := 2000

/-- How long an upstream that jumped past the cursor on a resume is avoided. -/
def uncoveredExclusion : Nat := 30000

/-- What a session does about the upstream it leaves. -/
inductive Exclusion where
  | none
  /-- Prefer another upstream of the same rank. -/
  | soft
  /-- Never pick it again for this long. -/
  | hard (ttl : Nat)
  deriving DecidableEq, Repr

inductive FailoverReason where
  | unclean
  | clean
  | idle
  | stall
  | offline
  | violation
  | uncovered
  | discontinuity
  | send
  | silent
  | operator
  | noBlockLog
  deriving DecidableEq, Repr

/-- What a link end leads to. -/
inductive EndAction where
  | closeClient (code : Nat) (reason : String) (tooLarge : Bool)
  | failover (strike budget : Bool) (delay : Nat) (exclusion : Exclusion)
      (reason : FailoverReason)
  deriving DecidableEq, Repr

/-- What the classification needs to know about the link that ended. -/
structure EndFacts where
  role : Role
  /-- When an unknown frame of the client was last forwarded on it. -/
  unknownForwardedAt : Option Nat
  deriving DecidableEq, Repr

/-- The link-end table. -/
def classify (reason : UpEnd) (facts : EndFacts) (cursor : Fin (2 ^ 32)) (now : Nat) : EndAction :=
  match reason with
  | .unclean =>
      if facts.unknownForwardedAt.any fun since => now - since ≤ clientInducedWindow then
        .closeClient 1003 "unsupported request" false
      else .failover true true cleanDelay .soft .unclean
  | .clean _ => .failover false false cleanDelay .none .clean
  | .idle => .failover false false cleanDelay .none .idle
  | .stall =>
      match facts.role with
      | .live => .failover false false cleanDelay .soft .stall
      | .frozen => .failover true true cleanDelay .soft .stall
  | .monitorOffline => .failover false false cleanDelay .soft .offline
  | .violation _ => .failover true true cleanDelay .soft .violation
  | .uncovered => .failover false false 0 (.hard uncoveredExclusion) .uncovered
  | .discontinuity => .failover false false 0 (.hard uncoveredExclusion) .discontinuity
  | .tooLarge =>
      .closeClient 1011 s!"block {cursor} exceeds max_message_bytes" true
  | .sendFailed => .failover false false cleanDelay (.hard dialExclusion) .send
  | .silent => .failover false false cleanDelay .soft .silent
  | .moved => .failover false false cleanDelay .soft .operator
  | .noBlockLog => .failover false false 0 .soft .noBlockLog

/-! ## The budget of a block -/

/-- How often a stream may die at one block before the client is closed. -/
def maxSameBlockFailures : Nat := 5

/-- 100 ms, doubled by each further failure at the block, up to 3.2 s. -/
def sameBlockBackoff (failures : Nat) : Nat := min (100 <<< min (failures - 1) 5) 3200

def blockUnavailableReason (block : Fin (2 ^ 32)) : String :=
  s!"block {block} unavailable on all upstreams"

/-- The next failover step. -/
structure SameBlockPlan where
  /-- Set when the budget of the block is used up. -/
  closeReason : Option String
  delay : Nat
  failures : Fin (2 ^ 32)
  deriving DecidableEq, Repr

/-- A failover that does not touch the budget. -/
def SameBlockPlan.passthrough (delay : Nat) : SameBlockPlan := ⟨none, delay, 0⟩

/-- Decide the next failover step; also the block the session is stuck at and its
failures there. -/
def planSameBlockFailover (stuckAt : Option (Fin (2 ^ 32) × Fin (2 ^ 32))) (budget : Bool)
    (nextBlock : Option (Fin (2 ^ 32))) (delay : Nat) :
    SameBlockPlan × Option (Fin (2 ^ 32) × Fin (2 ^ 32)) :=
  if !budget then (.passthrough delay, stuckAt)
  else
    match nextBlock with
    | none => (.passthrough delay, stuckAt)
    | some block =>
        let failures := match stuckAt with
          | some (stuckBlock, seen) => if stuckBlock = block then saturatingAdd seen 1 else 1
          | none => 1
        let plan : SameBlockPlan :=
          if maxSameBlockFailures ≤ failures.val then
            ⟨some (blockUnavailableReason block), cleanDelay, failures⟩
          else ⟨none, sameBlockBackoff failures.val, failures⟩
        (plan, some (block, failures))

end FleetRouter.Session
