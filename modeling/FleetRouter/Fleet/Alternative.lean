import FleetRouter.Fleet.Pool
import FleetRouter.Session.Failover

/-!
# Leaving a link for another upstream

A session gives a live link up for a jump or a discontinuity only when another
upstream could serve the block.  For a pool session that check and the ranking of its
next pick are written apart from each other; here they are shown to agree.
-/

namespace FleetRouter.Fleet

open Ship Session

namespace Excludes

variable (ex : Excludes)

/-- Excludes an endpoint for some time and forgets what has expired. -/
def addHard (endpoint : String) (ttl now : Nat) : Excludes :=
  { ex with
    hard := (ex.hard.filter fun entry => now < entry.2 && entry.1 ≠ endpoint)
      ++ [(endpoint, now + ttl)] }

/-- What a session avoids after it left an upstream. -/
def leave (endpoint : String) (now : Nat) : Exclusion → Excludes
  | .none => { ex with soft := none }
  | .soft => { ex with soft := some endpoint }
  | .hard ttl => { ex with soft := none }.addHard endpoint ttl now

theorem hardActive_addHard (endpoint other : String) {ttl : Nat} (now : Nat) (positive : 0 < ttl) :
    (ex.addHard endpoint ttl now).hardActive other now =
      (decide (other = endpoint) || ex.hardActive other now) := by
  by_cases same : other = endpoint
  · subst same
    simp [addHard, hardActive, positive]
  · have differs : endpoint ≠ other := Ne.symm same
    simp only [addHard, hardActive, List.any_append, List.any_filter, List.any_cons, List.any_nil,
      differs, same, decide_false, Bool.false_and, Bool.or_false, Bool.false_or]
    congr 1
    funext entry
    by_cases here : entry.1 = other
    · simp [here, same]
    · simp [here]

end Excludes

/-- Whether another upstream than `endpoint` could serve block `k` of the request
now; for a stitched session, whether the planner would serve it from one. -/
def alternativeFor (stitched : Bool) (p : Planning) (creq : BlocksRequest) (endpoint : String)
    (k : Fin (2 ^ 32)) : Bool :=
  if stitched then
    match Planning.nextStep
        { p with ex := p.ex.addHard endpoint 60000 p.now, allowOffline := false }
        (Shape.of creq) k with
    | .serve _ => true
    | _ => false
  else
    p.view.upstreams.any fun u =>
      u.endpoint ≠ endpoint && u.routable && u.online && !p.ex.hardActive u.endpoint p.now
        && !u.atCapacity && eligible p.view u (Need.of creq) k .online p.now

/-- Whether the request asks for the log. -/
def Need.wants (need : Need) : Log → Bool
  | .trace => need.traces
  | .chainState => need.deltas
  | .finality => need.finality

/-- An upstream that covers a block has every log that is asked for and that some
online upstream has there. -/
theorem covers_of_eligibleWith {v : FleetView} {u : UpstreamView} {need : Need}
    {n : Fin (2 ^ 32)} {union : Union} {now : Nat} {checkQuarantine : Bool}
    (serves : eligibleWith v u need n union now checkQuarantine = true) {log : Log}
    (wanted : need.wants log = true) (has : unionHas v union n log = true) :
    u.covers log n = true := by
  by_contra lacks
  rw [Bool.not_eq_true] at lacks
  unfold eligibleWith at serves
  cases log <;> simp_all [Need.wants]

/-- The pick of a pool session that has left `endpoint` at block `k`. -/
def PicksServing (p : Planning) (need : Need) (k : Fin (2 ^ 32)) (endpoint : String)
    (ex : Excludes) : Prop :=
  ∃ u ∈ p.view.upstreams, ∃ rank ≤ 1,
    poolRank p.view (some (need, k)) ex true p.sid p.lag p.now = some (u.index, rank) ∧
      u.endpoint ≠ endpoint ∧ u.online = true ∧ u.quarantinedAt k p.now = false ∧
      u.atCapacity = false ∧
      ∀ log, need.wants log = true →
        (∃ w ∈ p.view.upstreams, w.routable = true ∧ w.online = true ∧ w.covers log k = true) →
          u.covers log k = true

/-- Eligibility is coverage and no quarantine. -/
theorem eligible_iff {v : FleetView} {u : UpstreamView} {need : Need} {n : Fin (2 ^ 32)}
    {union : Union} {now : Nat} :
    eligible v u need n union now = true ↔
      u.quarantinedAt n now = false ∧ eligibleWith v u need n union now false = true := by
  unfold eligible eligibleWith
  cases u.quarantinedAt n now <;> simp

/-- What makes an upstream a candidate of the next pick. -/
theorem mem_poolCandidates {v : FleetView} {need : Need} {k : Fin (2 ^ 32)} {ex : Excludes}
    {now : Nat} {u : UpstreamView} :
    u ∈ poolCandidates v (some (need, k)) ex true now ↔
      u ∈ v.upstreams ∧ u.routable = true ∧ ex.hardActive u.endpoint now = false ∧
        u.atCapacity = false ∧ u.quarantinedAt k now = false := by
  simp [poolCandidates, and_assoc]

/-- A block is covered at ranks `0` and `1`. -/
theorem coverageRank_le_one {v : FleetView} {need : Need} {k lag : Fin (2 ^ 32)} {now : Nat}
    {u : UpstreamView} :
    coverageRank v (some (need, k)) lag now u ≤ 1 ↔
      eligibleWith v u need k .online now false = true := by
  have fresh := Bool.toNat_le (u.stale || laggingFor v u k lag)
  simp only [coverageRank]
  cases eligibleWith v u need k .online now false with
  | false =>
      simp
      omega
  | true => simpa using fresh

/-- An alternative is ranked, so the pick without a soft exclusion is one. -/
theorem picksServing_of_alternative {p : Planning} {creq : BlocksRequest} {endpoint : String}
    {k : Fin (2 ^ 32)} {ttl : Nat} (positive : 0 < ttl)
    (alternative : alternativeFor false p creq endpoint k = true) :
    PicksServing p (Need.of creq) k endpoint (p.ex.leave endpoint p.now (.hard ttl)) := by
  have excluded (other : String) :=
    Excludes.hardActive_addHard { p.ex with soft := none } endpoint other p.now positive
  simp only [alternativeFor, Bool.false_eq_true, if_false, List.any_eq_true, Bool.and_eq_true,
    decide_eq_true_eq, Bool.not_eq_true', eligible_iff] at alternative
  obtain ⟨w, listed, ⟨⟨⟨⟨differs, routable⟩, online⟩, allowed⟩, room⟩, free, covers⟩ := alternative
  have candidate : w ∈ poolCandidates p.view (some (Need.of creq, k))
      (p.ex.leave endpoint p.now (.hard ttl)) true p.now := by
    refine mem_poolCandidates.mpr ⟨listed, routable, ?_, room, free⟩
    rw [Excludes.leave, excluded, decide_eq_false differs]
    exact allowed
  cases found : minBy PoolRanked.compare ((poolCandidates p.view (some (Need.of creq, k))
      (p.ex.leave endpoint p.now (.hard ttl)) true p.now).map
        (poolRanked p.view (some (Need.of creq, k)) p.sid p.lag p.now)) with
  | none =>
      simp [List.map_eq_nil_iff.mp (minBy_eq_none.mp found)] at candidate
  | some best =>
      obtain ⟨u, member, rfl, isOnline, least⟩ := best_online found ⟨w, candidate, online⟩
      obtain ⟨isListed, -, isAllowed, hasRoom, isFree⟩ := mem_poolCandidates.mp member
      have rank := (least w candidate online).trans (coverageRank_le_one.mpr covers)
      refine ⟨u, isListed, _, rank, ?_, ?_, isOnline, isFree, hasRoom, ?_⟩
      · simp only [poolRank, poolChoice, found, Option.map_some]
        rfl
      · intro same
        rw [Excludes.leave, excluded, same] at isAllowed
        simp at isAllowed
      · intro log wanted has
        apply covers_of_eligibleWith (coverageRank_le_one.mp rank) wanted
        simpa [unionHas, and_assoc] using has

section Judge

variable {c : ClientSide} {st : LinkState} {creq : BlocksRequest} {lr : LinkReq} {h : ResultHead}
  {lacks : Fin (2 ^ 32) → Lacks} {alternative : Fin (2 ^ 32) → Bool} {reason : UpEnd}

theorem placeResult_ended {cls : Classified}
    (placed : placeResult c st lr h alternative cls = .error (.ended reason)) :
    (∃ kind, reason = .violation kind) ∨ alternative c.cursor = true := by
  simp only [placeResult] at placed
  split at placed
  · cases placed
  · split_ifs at placed
    all_goals cases placed
    · exact .inl ⟨_, rfl⟩
    · exact .inl ⟨_, rfl⟩
    · rename_i uncovered
      exact .inr ((Bool.and_eq_true _ _).mp uncovered).2

theorem checkContinuity_error (broken : checkContinuity c st lr h alternative = .error reason) :
    (∃ kind, reason = .violation kind) ∨ alternative c.cursor = true := by
  simp only [checkContinuity] at broken
  split at broken
  · split_ifs at broken with apart frozen moves
    all_goals cases broken
    · exact .inl ⟨_, rfl⟩
    · exact .inr ((Bool.and_eq_true _ _).mp moves).2
  · cases broken

/-- A judgement ends a link for a broken contract, or because there is an
alternative. -/
theorem judge_ended (judged : judge c st creq lr h lacks alternative = .ended reason) :
    (∃ kind, reason = .violation kind) ∨ alternative c.cursor = true := by
  cases Judged.of_judge judged with
  | @contract kind broken => exact .inl ⟨kind, rfl⟩
  | place misplaced => exact placeResult_ended misplaced
  | continuity broken => exact checkContinuity_error broken
  | credit => exact .inl ⟨_, rfl⟩

end Judge

/-- A pool session that leaves a live link for a jump or a discontinuity is sent to
another upstream that is online and serves the block: with an alternative, the pick
after the end's exclusion is not the upstream it left, is online, not quarantined at
the block, below its capacity and of rank at most `1`, so that it covers the block in
every requested log some online upstream has there. -/
theorem left_link_has_serving_pick (p : Planning) (creq : BlocksRequest) (endpoint : String)
    (reason : UpEnd) (left : reason = .uncovered ∨ reason = .discontinuity) (facts : EndFacts) :
    (∃ why, ∀ cursor now, classify reason facts cursor now =
        .failover false false 0 (.hard uncoveredExclusion) why) ∧
      (∀ k, alternativeFor false p creq endpoint k = true →
        PicksServing p (Need.of creq) k endpoint
          (p.ex.leave endpoint p.now (.hard uncoveredExclusion))) ∧
      ∀ c st lr h lacks, judge c st creq lr h lacks (alternativeFor false p creq endpoint) =
          .ended reason →
        PicksServing p (Need.of creq) c.cursor endpoint
          (p.ex.leave endpoint p.now (.hard uncoveredExclusion)) := by
  have serves (k : Fin (2 ^ 32)) (alternative : alternativeFor false p creq endpoint k = true) :
      PicksServing p (Need.of creq) k endpoint
        (p.ex.leave endpoint p.now (.hard uncoveredExclusion)) :=
    picksServing_of_alternative (by decide) alternative
  refine ⟨?_, serves, ?_⟩
  · rcases left with rfl | rfl
    · exact ⟨.uncovered, fun _ _ => rfl⟩
    · exact ⟨.discontinuity, fun _ _ => rfl⟩
  · intro c st lr h lacks judged
    rcases judge_ended judged with ⟨kind, rfl⟩ | alternative
    · rcases left with wrong | wrong <;> cases wrong
    · exact serves _ alternative

/-- Two live upstreams with the same blocks. -/
def twinMap : StateMap where
  entries := [("up", liveServer 0 1 150 140), ("twin", liveServer 1 1 150 140)]
  nodup := by decide
  distinct := by decide

def twinPlanning : Planning where
  view := (buildView { sampleCtx with topology := .pool } twinMap [] (.new 0) 0).1
  tip := (none, none)
  ex := ⟨some "up", []⟩
  own := []
  sid := 7
  historyPreference := .any
  lag := 0
  allowOffline := false
  now := 0

/-- Traces from block 90 on. -/
def twinRequest : BlocksRequest where
  v1 := false
  start := 90
  «end» := 200
  maxInFlight := 10
  havePositions := []
  irreversibleOnly := false
  fetchBlock := true
  fetchTraces := true
  fetchDeltas := false
  fetchFinalityData := false

theorem left_link_has_serving_pick_twin :
    alternativeFor false twinPlanning twinRequest "up" 100 = true ∧
      PicksServing twinPlanning (Need.of twinRequest) 100 "up"
        (twinPlanning.ex.leave "up" 0 (.hard uncoveredExclusion)) := by
  have alternative : alternativeFor false twinPlanning twinRequest "up" 100 = true := by
    decide +kernel
  exact ⟨alternative, (left_link_has_serving_pick twinPlanning twinRequest "up" .uncovered
    (.inl rfl) ⟨.live, none⟩).2.1 100 alternative⟩

end FleetRouter.Fleet
