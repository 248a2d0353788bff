import Mathlib.Data.List.Basic
import FleetRouter.Lib.Transition
import FleetRouter.Fleet.Build

/-!
# Exclusion of an upstream at a bad block

Unclean drops at one block, from any session of the listener, exclude an upstream for a
few blocks and for a while.  The state keeps a window of strikes shared by all blocks and
a list of exclusions that every call prunes; both stand for the history of the calls.
Instants count nanoseconds up to the last one the platform's clock can represent.
-/

namespace FleetRouter.Fleet

open Transition

/-- When drops at one block exclude an upstream, for which blocks and how long. -/
structure BlockFailureQuarantine where
  strikes : Fin (2 ^ 32)
  windowSecs : Fin (2 ^ 64)
  ttlSecs : Fin (2 ^ 64)
  range : Fin (2 ^ 32)
  deriving DecidableEq, Repr

def listenerPrefix : Option String → String
  | some name => "listener '" ++ name ++ "': "
  | none => ""

def validateBlockFailureQuarantine (policy : BlockFailureQuarantine)
    (listenerCtx : Option String) : Except String Unit :=
  let positive (field : String) : String :=
    listenerPrefix listenerCtx ++ "block_failure_quarantine." ++ field ++ " must be greater than 0"
  if policy.strikes = 0 then .error (positive "strikes")
  else if policy.windowSecs = 0 then .error (positive "window_secs")
  else if policy.ttlSecs = 0 then .error (positive "ttl_secs")
  else if policy.range = 0 then .error (positive "range")
  else .ok ()

/-- Seconds as a duration. -/
def fromSecs (secs : Nat) : Nat := secs * 10 ^ 9

/-- The instant a duration later, unless no instant of the clock is that late. -/
def checkedAdd (horizon now duration : Nat) : Option Nat :=
  if now + duration ≤ horizon then some (now + duration) else none

def quarantineDeadline (horizon now ttlSecs : Nat) : Nat :=
  (checkedAdd horizon now (fromSecs ttlSecs)).getD
    ((checkedAdd horizon now (fromSecs (86400 * 365))).getD now)

structure BlockStrike where
  block : Fin (2 ^ 32)
  at_ : Nat
  deriving DecidableEq, Repr

/-- An upstream's state with its drops. -/
structure StrikeState extends ServerState where
  blockFailures : Fin (2 ^ 64)
  blockStrikes : List BlockStrike
  deriving DecidableEq, Repr

namespace StrikeState

def pruneExpiredQuarantines (s : StrikeState) (now : Nat) : StrikeState :=
  { s with quarantines := s.quarantines.filter fun q => q.active now }

/-- Whether a request starting at `block` must skip this upstream. -/
def quarantinedFor (s : StrikeState) (block : Fin (2 ^ 32)) (now : Nat) : Bool × StrikeState :=
  let s := s.pruneExpiredQuarantines now
  (s.quarantines.any fun q => q.covers block, s)

def anyQuarantineActive (s : StrikeState) (now : Nat) : Bool × StrikeState :=
  let s := s.pruneExpiredQuarantines now
  (!s.quarantines.isEmpty, s)

/-- Lowest start block among the active exclusions. -/
def activeQuarantineBlock (s : StrikeState) (now : Nat) : Option (Fin (2 ^ 32)) × StrikeState :=
  let s := s.pruneExpiredQuarantines now
  ((s.quarantines.map fun q => q.block).min?, s)

def clearQuarantines (s : StrikeState) : StrikeState :=
  { s with quarantines := [], blockStrikes := [] }

/-- Saturating count of the drops. -/
def countFailure (s : StrikeState) : StrikeState :=
  { s with blockFailures := ⟨min (s.blockFailures.val + 1) (2 ^ 64 - 1), by omega⟩ }

/-- The strikes within the window, with a new one. -/
def pushStrike (s : StrikeState) (block : Fin (2 ^ 32)) (now window : Nat) : List BlockStrike :=
  (s.blockStrikes ++ [BlockStrike.mk block now]).filter fun strike => now - strike.at_ ≤ window

/-- Records a drop at `block`; whether it arms a new exclusion. -/
def recordBlockFailure (horizon : Nat) (s : StrikeState) (block : Fin (2 ^ 32)) (now : Nat)
    (policy : Option BlockFailureQuarantine) : Bool × StrikeState :=
  let s := s.countFailure.pruneExpiredQuarantines now
  match policy with
  | none => (false, s)
  | some policy =>
      let check := s.quarantinedFor block now
      let s := check.2
      if check.1 then (false, s)
      else
        let strikes := s.pushStrike block now (fromSecs policy.windowSecs)
        let count := (strikes.filter fun strike => strike.block = block).length
        if count < policy.strikes.val then (false, { s with blockStrikes := strikes })
        else
          (true,
            { s with
              blockStrikes := strikes.filter fun strike => strike.block ≠ block
              quarantines := (s.quarantines.filter fun q => q.block ≠ block) ++
                [⟨block, policy.range, quarantineDeadline horizon now policy.ttlSecs⟩] })

end StrikeState

/-! ## The history -/

/-- What the history says of a call; the newest entry stands first. -/
inductive Entry where
  /-- A drop, and whether it armed an exclusion. -/
  | failure (block : Fin (2 ^ 32)) (at_ : Nat) (armed : Bool)
  | clear
  deriving DecidableEq, Repr

/-- The blocks and instants of the armings since the last clear. -/
def armings : List Entry → List (Fin (2 ^ 32) × Nat)
  | [] => []
  | .clear :: _ => []
  | .failure block at_ armed :: older =>
      if armed then (block, at_) :: armings older else armings older

/-- Whether some arming since the last clear excludes block `b` at instant `t`, where an
exclusion armed at `a` ends at `ends a`. -/
def Excluded (ends : Nat → Nat) (range : Fin (2 ^ 32)) (entries : List Entry)
    (b : Fin (2 ^ 32)) (t : Nat) : Prop :=
  ∃ armed ∈ armings entries, armed.2 ≤ t ∧ t < ends armed.2 ∧
    armed.1 ≤ b ∧ (armed.1.val + range.val < 2 ^ 32 → b.val < armed.1.val + range.val)

instance (ends : Nat → Nat) (range : Fin (2 ^ 32)) (entries : List Entry) (b : Fin (2 ^ 32))
    (t : Nat) : Decidable (Excluded ends range entries b t) :=
  inferInstanceAs (Decidable (∃ armed ∈ armings entries, _))

/-- The drops at block `b` since the last arming there and the last clear, within the
window of `t`, at which `b` was not excluded. -/
def strikesAt (ends : Nat → Nat) (policy : BlockFailureQuarantine) (b : Fin (2 ^ 32)) (t : Nat) :
    List Entry → Nat
  | [] => 0
  | .clear :: _ => 0
  | .failure block at_ armed :: older =>
      if block = b then
        if armed then 0
        else
          strikesAt ends policy b t older +
            if t - at_ ≤ fromSecs policy.windowSecs ∧ ¬ Excluded ends policy.range older b at_
            then 1 else 0
      else strikesAt ends policy b t older

/-- An upstream, the latest instant any call was made at and the calls so far. -/
structure Watch where
  state : StrikeState
  clock : Nat
  entries : List Entry
  deriving DecidableEq, Repr

inductive QuarantineCall where
  | recordBlockFailure (block : Fin (2 ^ 32)) (now : Nat)
  | quarantinedFor (block : Fin (2 ^ 32)) (now : Nat)
  | anyQuarantineActive (now : Nat)
  | activeQuarantineBlock (now : Nat)
  | clearQuarantines
  deriving DecidableEq, Repr

/-- Calls are made at non-decreasing instants. -/
def InOrder (w : Watch) : QuarantineCall → Prop
  | .recordBlockFailure _ now => w.clock ≤ now
  | .quarantinedFor _ now => w.clock ≤ now
  | .anyQuarantineActive now => w.clock ≤ now
  | .activeQuarantineBlock now => w.clock ≤ now
  | .clearQuarantines => True

instance (w : Watch) : (call : QuarantineCall) → Decidable (InOrder w call)
  | .recordBlockFailure _ now => inferInstanceAs (Decidable (w.clock ≤ now))
  | .quarantinedFor _ now => inferInstanceAs (Decidable (w.clock ≤ now))
  | .anyQuarantineActive now => inferInstanceAs (Decidable (w.clock ≤ now))
  | .activeQuarantineBlock now => inferInstanceAs (Decidable (w.clock ≤ now))
  | .clearQuarantines => .isTrue trivial

namespace Watch

def fresh (w : Watch) : Prop :=
  w.state.quarantines = [] ∧ w.state.blockStrikes = [] ∧ w.clock = 0 ∧ w.entries = []

def step (horizon : Nat) (policy : BlockFailureQuarantine) (w : Watch) : QuarantineCall → Watch
  | .recordBlockFailure block now =>
      let outcome := w.state.recordBlockFailure horizon block now (some policy)
      { state := outcome.2, clock := now, entries := .failure block now outcome.1 :: w.entries }
  | .quarantinedFor block now =>
    { w with state := (w.state.quarantinedFor block now).2, clock := now }
  | .anyQuarantineActive now =>
    { w with state := (w.state.anyQuarantineActive now).2, clock := now }
  | .activeQuarantineBlock now =>
      { w with state := (w.state.activeQuarantineBlock now).2, clock := now }
  | .clearQuarantines =>
    { w with state := w.state.clearQuarantines, entries := .clear :: w.entries }

/-- The calls on one upstream under a fixed policy. -/
def machine (horizon : Nat) (policy : BlockFailureQuarantine) : Machine Watch QuarantineCall where
  init := fresh
  step w call := some (w.step horizon policy call)

end Watch

theorem validateBlockFailureQuarantine_ok {policy : BlockFailureQuarantine} {ctx : Option String}
    (valid : validateBlockFailureQuarantine policy ctx = .ok ()) : 0 < policy.range.val := by
  by_contra notPositive
  have noRange : policy.range = 0 := Fin.ext (by simpa using notPositive)
  simp only [validateBlockFailureQuarantine, noRange] at valid
  split_ifs at valid

theorem BlockQuarantine.covers_iff (q : BlockQuarantine) (n : Fin (2 ^ 32)) :
    q.covers n = true ↔
      q.block ≤ n ∧ (q.block.val + q.range.val < 2 ^ 32 → n.val < q.block.val + q.range.val) := by
  simp only [covers, stop]
  by_cases fits : q.block.val + q.range.val < 2 ^ 32
  · simp only [dif_pos fits, Bool.and_eq_true, decide_eq_true_eq]
    exact and_congr_right fun _ => ⟨fun below _ => below, fun below => below fits⟩
  · simp only [dif_neg fits, decide_eq_true_eq]
    exact ⟨fun above => ⟨above, fun isFit => absurd isFit fits⟩, And.left⟩

theorem BlockQuarantine.active_mono {q : BlockQuarantine} {now later : Nat}
    (order : now ≤ later) (active : q.active later = true) : q.active now = true := by
  simp only [BlockQuarantine.active, decide_eq_true_eq] at active ⊢
  omega

namespace StrikeState

variable (s : StrikeState) (b : Fin (2 ^ 32)) (now : Nat)

theorem quarantinedFor_pruned :
    ((s.countFailure.pruneExpiredQuarantines now).quarantinedFor b now) =
      ((s.quarantinedFor b now).1, s.countFailure.pruneExpiredQuarantines now) := by
  simp [quarantinedFor, pruneExpiredQuarantines, countFailure, List.filter_filter]

variable (horizon : Nat) (policy : BlockFailureQuarantine)

/-- The three things a drop can do. -/
inductive Recorded : Bool × StrikeState → Prop
  /-- An active exclusion covers the block. -/
  | excluded : (s.quarantinedFor b now).1 = true →
      Recorded (false, s.countFailure.pruneExpiredQuarantines now)
  | struck : (s.quarantinedFor b now).1 = false →
      (s.pushStrike b now (fromSecs policy.windowSecs)).countP (fun strike => strike.block = b) <
        policy.strikes.val →
      Recorded (false, { s.countFailure.pruneExpiredQuarantines now with
        blockStrikes := s.pushStrike b now (fromSecs policy.windowSecs) })
  | armed : (s.quarantinedFor b now).1 = false →
      policy.strikes.val ≤
        (s.pushStrike b now (fromSecs policy.windowSecs)).countP (fun strike => strike.block = b) →
      Recorded (true, { s.countFailure.pruneExpiredQuarantines now with
        blockStrikes := (s.pushStrike b now (fromSecs policy.windowSecs)).filter
          fun strike => strike.block ≠ b
        quarantines :=
          ((s.pruneExpiredQuarantines now).quarantines.filter fun q => q.block ≠ b) ++
            [⟨b, policy.range, quarantineDeadline horizon now policy.ttlSecs⟩] })

theorem recordBlockFailure_recorded :
    Recorded s b now horizon policy (s.recordBlockFailure horizon b now (some policy)) := by
  have same : (s.countFailure.pruneExpiredQuarantines now).pushStrike b now
      (fromSecs policy.windowSecs) = s.pushStrike b now (fromSecs policy.windowSecs) := rfl
  simp only [recordBlockFailure, quarantinedFor_pruned, same, ← List.countP_eq_length_filter]
  cases isExcluded : (s.quarantinedFor b now).1 with
  | true => exact .excluded isExcluded
  | false =>
      simp only [Bool.false_eq_true, if_false]
      split_ifs with few
      · exact .struck isExcluded few
      · exact .armed isExcluded (Nat.le_of_not_lt few)

/-- A strike that leaves the window has left it for good. -/
theorem countP_pushStrike (window : Nat) {t : Nat} (order : now ≤ t) (b' : Fin (2 ^ 32)) :
    (s.pushStrike b now window).countP
        (fun strike => strike.block = b' ∧ t - strike.at_ ≤ window) =
      s.blockStrikes.countP (fun strike => strike.block = b' ∧ t - strike.at_ ≤ window) +
        if b = b' ∧ t - now ≤ window then 1 else 0 := by
  have absorb : ∀ strike : BlockStrike,
      (decide (strike.block = b' ∧ t - strike.at_ ≤ window) &&
        decide (now - strike.at_ ≤ window)) =
      decide (strike.block = b' ∧ t - strike.at_ ≤ window) := by
    intro strike
    by_cases within : t - strike.at_ ≤ window
    · have still : now - strike.at_ ≤ window := by omega
      simp [still]
    · simp [within]
  simp only [pushStrike, List.countP_filter, absorb, List.countP_append]
  simp [List.countP_cons]

/-- The strikes at the block itself all lie within the window. -/
theorem countP_pushStrike_block (window : Nat) :
    (s.pushStrike b now window).countP (fun strike => strike.block = b) =
      s.blockStrikes.countP (fun strike => strike.block = b ∧ now - strike.at_ ≤ window) + 1 := by
  have within : (s.pushStrike b now window).countP (fun strike => strike.block = b) =
      (s.pushStrike b now window).countP
        (fun strike => strike.block = b ∧ now - strike.at_ ≤ window) := by
    apply List.countP_congr
    intro strike listed
    have recent := (List.mem_filter.mp listed).2
    simp_all
  rw [within, countP_pushStrike s b now window le_rfl b]
  simp

/-- An arming takes the strikes at its block and no others. -/
theorem countP_disarmed (window : Nat) {t : Nat} (order : now ≤ t) (b' : Fin (2 ^ 32)) :
    ((s.pushStrike b now window).filter fun strike => strike.block ≠ b).countP
        (fun strike => strike.block = b' ∧ t - strike.at_ ≤ window) =
      if b = b' then 0
      else s.blockStrikes.countP (fun strike => strike.block = b' ∧ t - strike.at_ ≤ window) := by
  split_ifs with same
  · apply List.countP_eq_zero.mpr
    intro strike listed
    have other := (List.mem_filter.mp listed).2
    simp_all
  · have untouched := countP_pushStrike s b now window order b'
    simp only [same, false_and, if_false, add_zero] at untouched
    rw [← untouched, List.countP_filter]
    apply List.countP_congr
    intro strike _
    simp only [Bool.and_eq_true, decide_eq_true_eq, and_iff_left_iff_imp]
    rintro ⟨rfl, -⟩
    exact fun eq => same eq.symm

end StrikeState

section Mirror

variable (horizon : Nat) (policy : BlockFailureQuarantine)

/-- When an exclusion armed at an instant ends. -/
def exclusionEnd (a : Nat) : Nat := quarantineDeadline horizon a policy.ttlSecs

/-- The exclusion an arming leaves. -/
def exclusion (armed : Fin (2 ^ 32) × Nat) : BlockQuarantine :=
  ⟨armed.1, policy.range, exclusionEnd horizon policy armed.2⟩

/-- From now on the state says what the history says. -/
structure Mirrors (w : Watch) : Prop where
  exclusions : ∀ q t, w.clock ≤ t → q.active t = true →
    (q ∈ w.state.quarantines ↔ ∃ armed ∈ armings w.entries, q = exclusion horizon policy armed)
  strikes : ∀ b t, w.clock ≤ t →
    w.state.blockStrikes.countP (fun strike =>
      strike.block = b ∧ t - strike.at_ ≤ fromSecs policy.windowSecs) =
    strikesAt (exclusionEnd horizon policy) policy b t w.entries
  past : ∀ armed ∈ armings w.entries, armed.2 ≤ w.clock

end Mirror

namespace Mirrors

variable {horizon : Nat} {policy : BlockFailureQuarantine} {w : Watch}
  {outcome : Bool × StrikeState}

theorem quarantinedFor_iff (mirrors : Mirrors horizon policy w) {t : Nat} (later : w.clock ≤ t)
    (b : Fin (2 ^ 32)) :
    (w.state.quarantinedFor b t).1 = true ↔
      Excluded (exclusionEnd horizon policy) policy.range w.entries b t := by
  simp only [StrikeState.quarantinedFor, StrikeState.pruneExpiredQuarantines, List.any_eq_true,
    List.mem_filter]
  constructor
  · rintro ⟨q, ⟨listed, active⟩, covers⟩
    obtain ⟨armed, isArmed, rfl⟩ := (mirrors.exclusions q t later active).mp listed
    have within := (BlockQuarantine.covers_iff _ _).mp covers
    have before := mirrors.past armed isArmed
    exact ⟨armed, isArmed, before.trans later, of_decide_eq_true active, within⟩
  · rintro ⟨armed, isArmed, -, ends, within⟩
    have active : (exclusion horizon policy armed).active t = true := decide_eq_true ends
    have listed := (mirrors.exclusions _ t later active).mpr ⟨armed, isArmed, rfl⟩
    exact ⟨_, ⟨listed, active⟩, (BlockQuarantine.covers_iff _ _).mpr within⟩

theorem start (isFresh : w.fresh) : Mirrors horizon policy w := by
  obtain ⟨noQuarantines, noStrikes, -, noEntries⟩ := isFresh
  constructor <;> simp [noQuarantines, noStrikes, noEntries, armings, strikesAt]

theorem cleared (w : Watch) (horizon : Nat) (policy : BlockFailureQuarantine) :
    Mirrors horizon policy (w.step horizon policy .clearQuarantines) := by
  constructor <;> simp [Watch.step, StrikeState.clearQuarantines, armings, strikesAt]

/-- A check only prunes. -/
theorem pruned (mirrors : Mirrors horizon policy w) {now : Nat} (later : w.clock ≤ now) :
    Mirrors horizon policy
      { w with state := w.state.pruneExpiredQuarantines now, clock := now } where
  exclusions q t order active := by
    have before := mirrors.exclusions q t (later.trans order) active
    simpa [StrikeState.pruneExpiredQuarantines,
      BlockQuarantine.active_mono order active] using before
  strikes b t order := mirrors.strikes b t (later.trans order)
  past armed isArmed := (mirrors.past armed isArmed).trans later

/-- No active exclusion at a block that is not excluded. -/
theorem block_ne (mirrors : Mirrors horizon policy w) (positive : 0 < policy.range.val)
    {now : Nat} {b : Fin (2 ^ 32)} (later : w.clock ≤ now)
    (free : (w.state.quarantinedFor b now).1 = false) {q : BlockQuarantine}
    (listed : q ∈ w.state.quarantines) (active : q.active now = true) : q.block ≠ b := by
  rintro rfl
  obtain ⟨armed, isArmed, rfl⟩ := (mirrors.exclusions q now later active).mp listed
  have covers : (exclusion horizon policy armed).covers (exclusion horizon policy armed).block := by
    refine (BlockQuarantine.covers_iff _ _).mpr ⟨le_rfl, fun _ => ?_⟩
    exact Nat.lt_add_of_pos_right positive
  simp only [StrikeState.quarantinedFor, StrikeState.pruneExpiredQuarantines, List.any_eq_false,
    List.mem_filter] at free
  exact free _ ⟨listed, active⟩ covers

theorem strikes_recorded (mirrors : Mirrors horizon policy w) {now : Nat} (b : Fin (2 ^ 32))
    (later : w.clock ≤ now)
    (isOutcome : StrikeState.Recorded w.state b now horizon policy outcome) (b' : Fin (2 ^ 32))
    {t : Nat} (order : now ≤ t) :
    outcome.2.blockStrikes.countP (fun strike =>
        strike.block = b' ∧ t - strike.at_ ≤ fromSecs policy.windowSecs) =
      strikesAt (exclusionEnd horizon policy) policy b' t
        (.failure b now outcome.1 :: w.entries) := by
  have counted := mirrors.strikes b' t (later.trans order)
  have isExcluded := mirrors.quarantinedFor_iff later b
  cases isOutcome with
  | excluded found =>
      refine counted.trans ?_
      by_cases same : b = b'
      · subst same
        simp [strikesAt, isExcluded.mp found]
      · simp [strikesAt, same]
  | struck isFree few =>
      have free := isExcluded.not.mp (by simp [isFree])
      rw [StrikeState.countP_pushStrike w.state b now _ order b', counted]
      by_cases same : b = b'
      · subst same
        simp [strikesAt, free]
      · simp [strikesAt, same]
  | armed isFree enough =>
      rw [StrikeState.countP_disarmed w.state b now _ order b', counted]
      simp [strikesAt]

/-- An arming adds its exclusion to the active ones. -/
theorem exclusions_recorded (mirrors : Mirrors horizon policy w)
    (positive : 0 < policy.range.val) {now : Nat} (b : Fin (2 ^ 32)) (later : w.clock ≤ now)
    (isOutcome : StrikeState.Recorded w.state b now horizon policy outcome) (q : BlockQuarantine)
    {t : Nat} (order : now ≤ t) (active : q.active t = true) :
    q ∈ outcome.2.quarantines ↔
      ∃ armed ∈ armings (.failure b now outcome.1 :: w.entries),
        q = exclusion horizon policy armed := by
  have before := (mirrors.pruned later).exclusions q t order active
  cases isOutcome with
  | excluded | struck => exact before
  | armed isFree enough =>
      have activeNow := BlockQuarantine.active_mono order active
      have stays : q ∈ w.state.quarantines → q.block ≠ b := fun listed =>
        mirrors.block_ne positive later isFree listed activeNow
      simp only [StrikeState.pruneExpiredQuarantines, List.mem_filter, activeNow,
        and_true] at before
      simp only [StrikeState.pruneExpiredQuarantines, List.mem_append, List.mem_filter, activeNow,
        and_true, List.not_mem_nil, or_false, armings, if_true, List.mem_cons, exists_eq_or_imp,
        ← before, decide_eq_true_eq]
      constructor
      · rintro (⟨listed, -⟩ | new)
        · exact .inr listed
        · exact .inl new
      · rintro (new | listed)
        · exact .inr new
        · exact .inl ⟨listed, stays listed⟩

theorem recorded (mirrors : Mirrors horizon policy w) (positive : 0 < policy.range.val)
    {now : Nat} (b : Fin (2 ^ 32)) (later : w.clock ≤ now)
    (isOutcome : StrikeState.Recorded w.state b now horizon policy outcome) :
    Mirrors horizon policy ⟨outcome.2, now, .failure b now outcome.1 :: w.entries⟩ where
  exclusions q _ order active :=
    mirrors.exclusions_recorded positive b later isOutcome q order active
  strikes b' _ order := mirrors.strikes_recorded b later isOutcome b' order
  past armed isArmed := by
    simp only [armings] at isArmed
    split at isArmed
    · cases List.mem_cons.mp isArmed with
      | inl new => exact new ▸ le_rfl
      | inr old => exact (mirrors.past armed old).trans later
    · exact (mirrors.past armed isArmed).trans later

/-- State and history agree after every run. -/
theorem of_reachable (positive : 0 < policy.range.val)
    (reachable : Reachable (Watch.machine horizon policy) InOrder w) :
    Mirrors horizon policy w := by
  refine reachable.invariant (P := Mirrors horizon policy) (fun _ isFresh => start isFresh) ?_
  intro w call w' _ mirrors inOrder stepped
  cases stepped
  cases call with
  | recordBlockFailure block now =>
      exact mirrors.recorded positive block inOrder
        (StrikeState.recordBlockFailure_recorded w.state block now horizon policy)
  | quarantinedFor | anyQuarantineActive | activeQuarantineBlock => exact mirrors.pruned inOrder
  | clearQuarantines => exact cleared w horizon policy

/-- A drop arms an exclusion when its block is free and has had enough strikes. -/
theorem arms_iff (mirrors : Mirrors horizon policy w) {now : Nat} (b : Fin (2 ^ 32))
    (later : w.clock ≤ now)
    (isOutcome : StrikeState.Recorded w.state b now horizon policy outcome) :
    outcome.1 = true ↔
      ¬ Excluded (exclusionEnd horizon policy) policy.range w.entries b now ∧
        policy.strikes.val ≤
          strikesAt (exclusionEnd horizon policy) policy b now
            (.failure b now false :: w.entries) := by
  have isExcluded := mirrors.quarantinedFor_iff later b
  have counted := mirrors.strikes b now later
  cases isOutcome with
  | excluded found => simp [isExcluded.mp found]
  | struck isFree few =>
      have free := isExcluded.not.mp (by simp [isFree])
      rw [StrikeState.countP_pushStrike_block, counted] at few
      simp [strikesAt, free, few]
  | armed isFree enough =>
      have free := isExcluded.not.mp (by simp [isFree])
      rw [StrikeState.countP_pushStrike_block, counted] at enough
      simp [strikesAt, free, enough]

/-- A drop keeps every active exclusion as it is. -/
theorem keeps (mirrors : Mirrors horizon policy w) (positive : 0 < policy.range.val) {now : Nat}
    (b : Fin (2 ^ 32)) (later : w.clock ≤ now)
    (isOutcome : StrikeState.Recorded w.state b now horizon policy outcome) {q : BlockQuarantine}
    (listed : q ∈ w.state.quarantines) (active : q.active now = true) :
    q ∈ outcome.2.quarantines := by
  have stays : q ∈ (w.state.pruneExpiredQuarantines now).quarantines :=
    List.mem_filter.mpr ⟨listed, active⟩
  cases isOutcome with
  | excluded | struck => exact stays
  | armed isFree enough =>
      have other := mirrors.block_ne positive later isFree listed active
      exact List.mem_append_left _ (List.mem_filter.mpr ⟨stays, by simpa using other⟩)

end Mirrors

/-- The exclusions after a drop: old ones, and the one it arms. -/
theorem StrikeState.Recorded.old_or_armed {s : StrikeState} {b : Fin (2 ^ 32)} {now horizon : Nat}
    {policy : BlockFailureQuarantine} {outcome : Bool × StrikeState}
    (isOutcome : Recorded s b now horizon policy outcome) {q : BlockQuarantine}
    (listed : q ∈ outcome.2.quarantines) :
    q ∈ s.quarantines ∨ outcome.1 = true ∧ q = exclusion horizon policy (b, now) := by
  cases isOutcome with
  | excluded | struck => exact .inl (List.mem_filter.mp listed).1
  | armed isFree enough =>
      cases List.mem_append.mp listed with
      | inl old => exact .inl (List.mem_filter.mp (List.mem_filter.mp old).1).1
      | inr new => exact .inr ⟨rfl, List.mem_singleton.mp new⟩

/-- After any calls under a valid policy, a drop arms an exclusion exactly when no
exclusion covers its block and the strikes there are enough; it changes no active
exclusion; and a block is excluded exactly by the armings since the last clear, each
until its deadline. -/
theorem quarantine_follows_history (horizon : Nat) {policy : BlockFailureQuarantine}
    (ctx : Option String) (valid : validateBlockFailureQuarantine policy ctx = .ok ()) {w : Watch}
    (reachable : Reachable (Watch.machine horizon policy) InOrder w) {t : Nat}
    (later : w.clock ≤ t) (b : Fin (2 ^ 32)) :
    ((w.state.recordBlockFailure horizon b t (some policy)).1 = true ↔
      ¬ Excluded (exclusionEnd horizon policy) policy.range w.entries b t ∧
        policy.strikes.val ≤
          strikesAt (exclusionEnd horizon policy) policy b t (.failure b t false :: w.entries)) ∧
    (∀ q ∈ w.state.quarantines, q.active t = true →
      q ∈ (w.state.recordBlockFailure horizon b t (some policy)).2.quarantines) ∧
    (∀ q ∈ (w.state.recordBlockFailure horizon b t (some policy)).2.quarantines,
      q ∈ w.state.quarantines ∨
        (w.state.recordBlockFailure horizon b t (some policy)).1 = true ∧
          q = exclusion horizon policy (b, t)) ∧
    ((w.state.quarantinedFor b t).1 = true ↔
      Excluded (exclusionEnd horizon policy) policy.range w.entries b t) := by
  have positive := validateBlockFailureQuarantine_ok valid
  have mirrors := Mirrors.of_reachable positive reachable
  have isOutcome := StrikeState.recordBlockFailure_recorded w.state b t horizon policy
  refine ⟨mirrors.arms_iff b later isOutcome, ?_, ?_, mirrors.quarantinedFor_iff later b⟩
  · intro q listed active
    exact mirrors.keeps positive b later isOutcome listed active
  · intro q listed
    exact isOutcome.old_or_armed listed

section Samples

/-- The last instant of a clock of 64-bit seconds and nanoseconds. -/
def unixHorizon : Nat := 2 ^ 63 * 10 ^ 9 - 1

/-- A new upstream. -/
def newUpstream : StrikeState where
  index := 0
  role := .live
  enabled := true
  operatorDisabled := false
  online := true
  stale := false
  priority := 0
  weight := 1
  chainId := none
  traceBeginBlock := 0
  traceEndBlock := 0
  chainStateBeginBlock := 0
  chainStateEndBlock := 0
  finalityDataBeginBlock := 0
  finalityDataEndBlock := 0
  quarantines := []
  declared := none
  maxSessions := none
  connections := 0
  head := none
  lib := none
  rangesKnown := false
  statusV1 := none
  abi := none
  noBlockLog := false
  blockFailures := 0
  blockStrikes := []

/-- Two strikes within ten seconds exclude one block for thirty. -/
def twoStrikes : BlockFailureQuarantine := ⟨2, 10, 30, 1⟩

/-- One strike excludes a block for as long as the configuration can say. -/
def longest : BlockFailureQuarantine := ⟨1, 1, 18446744073709551615, 1⟩

/-- The second drop at block 115 arms an exclusion of that block. -/
theorem quarantine_follows_history_sample :
    ∃ w, Reachable (Watch.machine unixHorizon twoStrikes) InOrder w ∧
      (w.state.recordBlockFailure unixHorizon 115 (fromSecs 2) (some twoStrikes)).1 = true := by
  have found : ∃ w, Reachable (Watch.machine unixHorizon twoStrikes) InOrder w ∧
      (w.clock ≤ fromSecs 2 ∧
        w.entries = [.failure 116 (fromSecs 1) false, .failure 115 0 false]) := by
    refine exists_reachable_of_run (s := ⟨newUpstream, 0, []⟩)
      [.recordBlockFailure 115 0, .recordBlockFailure 116 (fromSecs 1)] ?_ (by decide +kernel)
    exact ⟨rfl, rfl, rfl, rfl⟩
  obtain ⟨w, reachable, later, history⟩ := found
  refine ⟨w, reachable, ?_⟩
  refine (quarantine_follows_history unixHorizon none rfl reachable later 115).1.mpr ?_
  rw [history]
  decide +kernel

/-- With the longest time to live the exclusion ends after a year. -/
theorem exclusion_ends_before_ttl :
    validateBlockFailureQuarantine longest none = .ok () ∧
    ∃ w, Reachable (Watch.machine unixHorizon longest) InOrder w ∧
      w.clock ≤ fromSecs (86400 * 365) ∧ fromSecs (86400 * 365) ≤ unixHorizon ∧
      ¬ ((w.state.quarantinedFor 115 (fromSecs (86400 * 365))).1 = true ↔
        Excluded (fun a => a + fromSecs longest.ttlSecs) longest.range w.entries 115
          (fromSecs (86400 * 365))) := by
  refine ⟨rfl, ?_⟩
  refine exists_reachable_of_run (s := ⟨newUpstream, 0, []⟩) [.recordBlockFailure 115 0] ?_
    (by decide +kernel)
  exact ⟨rfl, rfl, rfl, rfl⟩

end Samples

end FleetRouter.Fleet
