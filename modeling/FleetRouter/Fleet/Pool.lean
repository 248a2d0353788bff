import Mathlib.Data.Prod.Lex
import FleetRouter.Fleet.Build
import FleetRouter.Fleet.Planner

/-!
# Picking an upstream for a pool session

On a failover an offline upstream is a candidate too, ranked behind every online
one.  The soft exclusion is applied after the ranking, to a peer that ranks as
well; that second choice does not look at whether the peer is online.
-/

namespace FleetRouter.Fleet

open Ship Session

/-- A candidate of a pool session with its ranking keys. -/
structure PoolRanked where
  up : UpstreamView
  offline : Bool
  /-- Coverage and freshness, `0` best. -/
  rank : Nat
  conns : Nat
  hash : UInt64
  deriving DecidableEq, Repr

/-- The request's need and start block, before the first request none. -/
abbrev Route : Type := Option (Need × Fin (2 ^ 32))

/-- Every upstream a pool session may be sent to. -/
def poolCandidates (v : FleetView) (route : Route) (ex : Excludes) (failover : Bool)
    (now : Nat) : List UpstreamView :=
  v.upstreams.filter fun u =>
    u.routable && (u.online || failover) && !ex.hardActive u.endpoint now && !u.atCapacity
      && route.all fun r => !u.quarantinedAt r.2 now

/-- Whether an upstream covers the requested block and is fresh, `0` best. -/
def coverageRank (v : FleetView) (route : Route) (lag : Fin (2 ^ 32)) (now : Nat)
    (u : UpstreamView) : Nat :=
  match route with
  | none => (u.stale || laggingFor v u ⟨u32Max, u32Max_lt⟩ lag).toNat
  | some (need, b) =>
      (!eligibleWith v u need b .online now false).toNat * 2
        + (u.stale || laggingFor v u b lag).toNat

def poolRanked (v : FleetView) (route : Route) (sid : UInt64) (lag : Fin (2 ^ 32)) (now : Nat)
    (u : UpstreamView) : PoolRanked where
  up := u
  offline := !u.online
  rank := coverageRank v route lag now u
  conns := u.connections
  hash := rendezvous sid u.endpoint

def PoolRanked.compare (a b : PoolRanked) : Ordering :=
  ((Ord.compare a.offline b.offline).then (Ord.compare a.rank b.rank)).then
    ((preference a.up a.conns b.up b.conns).then (Ord.compare a.hash b.hash))

/-- The peers of the best: other endpoints that rank as well. -/
def softPeers (ranked : List PoolRanked) (best : PoolRanked) : List PoolRanked :=
  ranked.filter fun c => c.up.endpoint ≠ best.up.endpoint && c.rank ≤ best.rank

/-- The soft exclusion moves a pick to a peer, if there is one. -/
def softPick (ex : Excludes) (ranked : List PoolRanked) (best : PoolRanked) : PoolRanked :=
  if ex.soft = some best.up.endpoint then
    (minBy PoolRanked.compare (softPeers ranked best)).getD best
  else best

/-- The candidate a pool session is sent to. -/
def poolChoice (v : FleetView) (route : Route) (ex : Excludes) (failover : Bool) (sid : UInt64)
    (lag : Fin (2 ^ 32)) (now : Nat) : Option PoolRanked :=
  let ranked := (poolCandidates v route ex failover now).map (poolRanked v route sid lag now)
  (minBy PoolRanked.compare ranked).map (softPick ex ranked)

/-- The pick and its rank. -/
def poolRank (v : FleetView) (route : Route) (ex : Excludes) (failover : Bool) (sid : UInt64)
    (lag : Fin (2 ^ 32)) (now : Nat) : Option (Nat × Nat) :=
  (poolChoice v route ex failover sid lag now).map fun pick => (pick.up.index, pick.rank)

/-! ## Ranking -/

/-- What the ranking looks at first. -/
def PoolRanked.key (c : PoolRanked) : Bool ×ₗ Nat := toLex (c.offline, c.rank)

theorem PoolRanked.key_lt {a b : PoolRanked} :
    a.key < b.key ↔ a.offline < b.offline ∨ a.offline = b.offline ∧ a.rank < b.rank := by
  simp [key, Prod.Lex.toLex_lt_toLex]

theorem PoolRanked.compare_lt {a b : PoolRanked} (less : a.key < b.key) :
    PoolRanked.compare a b = .lt := by
  rcases key_lt.mp less with online | ⟨same, better⟩
  · simp [PoolRanked.compare, compare_lt_iff_lt.mpr online]
  · simp [PoolRanked.compare, same, compare_lt_iff_lt.mpr better]

theorem PoolRanked.compare_gt {a b : PoolRanked} (less : b.key < a.key) :
    PoolRanked.compare a b ≠ .lt := by
  rcases key_lt.mp less with online | ⟨same, better⟩
  · simp [PoolRanked.compare, compare_gt_iff_gt.mpr online]
  · simp [PoolRanked.compare, same, compare_gt_iff_gt.mpr better]

theorem minBy_pool_le {ranked : List PoolRanked} {best : PoolRanked}
    (found : minBy PoolRanked.compare ranked = some best) : ∀ c ∈ ranked, best.key ≤ c.key :=
  minBy_key_le (fun _ _ => PoolRanked.compare_lt) (fun _ _ => PoolRanked.compare_gt) found

/-! ## The last resort -/

/-- The soft-excluded endpoint has every best online candidate, and an offline
candidate of another endpoint ranks as well. -/
def OfflinePeer (v : FleetView) (route : Route) (ex : Excludes) (lag : Fin (2 ^ 32))
    (now : Nat) : Prop :=
  let rank := coverageRank v route lag now
  ∃ s ∈ poolCandidates v route ex true now, s.online ∧ ex.soft = some s.endpoint ∧
    (∀ a ∈ poolCandidates v route ex true now, a.online →
      rank s ≤ rank a ∧ (a.endpoint ≠ s.endpoint → rank s < rank a)) ∧
    ∃ b ∈ poolCandidates v route ex true now,
      b.online = false ∧ b.endpoint ≠ s.endpoint ∧ rank b ≤ rank s

theorem softPick_mem (ex : Excludes) {ranked : List PoolRanked} {best : PoolRanked}
    (member : best ∈ ranked) : softPick ex ranked best ∈ ranked := by
  rw [softPick]
  split
  · cases peers : minBy PoolRanked.compare (softPeers ranked best) with
    | none => exact member
    | some peer => exact (List.mem_filter.mp (minBy_mem peers)).1
  · exact member

section Pick

variable {v : FleetView} {route : Route} {ex : Excludes} {sid : UInt64} {lag : Fin (2 ^ 32)}
  {now : Nat}

/-- The best of the candidates is online when one of them is, and no online one
ranks better. -/
theorem best_online {best : PoolRanked}
    (found : minBy PoolRanked.compare ((poolCandidates v route ex true now).map
      (poolRanked v route sid lag now)) = some best)
    (good : ∃ u ∈ poolCandidates v route ex true now, u.online) :
    ∃ u ∈ poolCandidates v route ex true now, best = poolRanked v route sid lag now u ∧
      u.online ∧ ∀ a ∈ poolCandidates v route ex true now, a.online →
        coverageRank v route lag now u ≤ coverageRank v route lag now a := by
  obtain ⟨u, member, rfl⟩ := List.mem_map.mp (minBy_mem found)
  have least := minBy_pool_le found
  obtain ⟨w, isGood, up⟩ := good
  have online : u.online := by
    by_contra offline
    rw [Bool.not_eq_true] at offline
    refine absurd (least _ (List.mem_map_of_mem isGood)) (not_le.mpr (PoolRanked.key_lt.mpr ?_))
    simp [poolRanked, up, offline]
  refine ⟨u, member, rfl, online, fun a candidate up => ?_⟩
  by_contra better
  refine absurd (least _ (List.mem_map_of_mem candidate)) (not_le.mpr (PoolRanked.key_lt.mpr ?_))
  exact .inr ⟨by simp [poolRanked, online, up], not_le.mp better⟩

theorem mem_softPeers {us : List UpstreamView} {u : UpstreamView} {c : PoolRanked} :
    c ∈ softPeers (us.map (poolRanked v route sid lag now)) (poolRanked v route sid lag now u) ↔
      ∃ w ∈ us, poolRanked v route sid lag now w = c ∧ w.endpoint ≠ u.endpoint ∧
        coverageRank v route lag now w ≤ coverageRank v route lag now u := by
  simp only [softPeers, List.mem_filter, List.mem_map, Bool.and_eq_true, decide_eq_true_eq]
  constructor
  · rintro ⟨⟨w, listed, rfl⟩, differs, asWell⟩
    exact ⟨w, listed, rfl, differs, asWell⟩
  · rintro ⟨w, listed, rfl, differs, asWell⟩
    exact ⟨⟨w, listed, rfl⟩, differs, asWell⟩

/-- With an online candidate, the pick is online unless the soft exclusion meets
an offline peer that ranks as well. -/
theorem softPick_online {best : PoolRanked}
    (found : minBy PoolRanked.compare ((poolCandidates v route ex true now).map
      (poolRanked v route sid lag now)) = some best)
    (good : ∃ u ∈ poolCandidates v route ex true now, u.online) :
    (softPick ex ((poolCandidates v route ex true now).map
      (poolRanked v route sid lag now)) best).up.online ↔ ¬OfflinePeer v route ex lag now := by
  obtain ⟨u, member, rfl, online, least⟩ := best_online found good
  rw [softPick]
  split
  · rename_i excluded
    have endpoint {s : UpstreamView} (soft : ex.soft = some s.endpoint) :
        s.endpoint = u.endpoint := Option.some.inj (soft.symm.trans excluded)
    cases peers : minBy PoolRanked.compare (softPeers ((poolCandidates v route ex true now).map
        (poolRanked v route sid lag now)) (poolRanked v route sid lag now u)) with
    | none =>
        simp only [Option.getD_none, poolRanked, online, true_iff]
        rintro ⟨s, -, -, soft, best, b, other, -, differs, asWell⟩
        rw [minBy_eq_none, List.eq_nil_iff_forall_not_mem] at peers
        exact peers _ (mem_softPeers.mpr ⟨b, other, rfl, endpoint soft ▸ differs,
          asWell.trans (best u member online).1⟩)
    | some peer =>
        obtain ⟨w, candidate, rfl, differs, asWell⟩ := mem_softPeers.mp (minBy_mem peers)
        constructor
        · rintro up ⟨s, isCandidate, online', soft, best, -⟩
          have less := (best w candidate up).2 (by rwa [endpoint soft])
          exact absurd (less.trans_le asWell) (not_lt.mpr (least s isCandidate online'))
        · intro spared
          by_contra offline
          have down : w.online = false := Bool.not_eq_true _ ▸ offline
          refine spared ⟨u, member, online, excluded, fun a isCandidate up =>
            ⟨least a isCandidate up, fun other => ?_⟩, w, candidate, down, differs, asWell⟩
          by_contra better
          have first := minBy_pool_le peers _
            (mem_softPeers.mpr ⟨a, isCandidate, rfl, other, not_lt.mp better⟩)
          refine absurd first (not_le.mpr (PoolRanked.key_lt.mpr (.inl ?_)))
          simp [poolRanked, up, down]
  · rename_i kept
    simp only [poolRanked, online, true_iff]
    rintro ⟨s, isCandidate, up, soft, best, -⟩
    have differs : u.endpoint ≠ s.endpoint := fun same => kept (by rw [soft, ← same]; rfl)
    exact absurd ((best u member online).2 differs) (not_lt.mpr (least s isCandidate up))

end Pick

/-- On a pool failover with an upstream that is in service, online, not
hard-excluded, below `max_sessions` and not quarantined at the block, the pick is
online exactly when the soft-excluded endpoint does not hold every best online
candidate beside an offline peer that ranks as well. -/
theorem failover_pick_online {v : FleetView} {route : Route} {ex : Excludes}
    {lag : Fin (2 ^ 32)} {now : Nat} (sid : UInt64)
    (good : ∃ u ∈ v.upstreams, u.routable ∧ u.online ∧ ex.hardActive u.endpoint now = false ∧
      u.atCapacity = false ∧ ∀ r ∈ route, u.quarantinedAt r.2 now = false) :
    (∃ pick, poolChoice v route ex true sid lag now = some pick ∧
      poolRank v route ex true sid lag now = some (pick.up.index, pick.rank) ∧
      pick.up ∈ v.upstreams ∧ pick.up.online) ↔ ¬OfflinePeer v route ex lag now := by
  have good : ∃ u ∈ poolCandidates v route ex true now, u.online := by
    obtain ⟨u, listed, routable, online, allowed, room, free⟩ := good
    refine ⟨u, List.mem_filter.mpr ⟨listed, ?_⟩, online⟩
    simp only [routable, online, allowed, room, Bool.true_or, Bool.and_self, Bool.not_false,
      Bool.true_and]
    cases route with
    | none => rfl
    | some r => simpa using free r rfl
  cases found : minBy PoolRanked.compare ((poolCandidates v route ex true now).map
      (poolRanked v route sid lag now)) with
  | none =>
      obtain ⟨u, member, -⟩ := good
      simp [List.map_eq_nil_iff.mp (minBy_eq_none.mp found)] at member
  | some best =>
      have picked : poolChoice v route ex true sid lag now =
          some (softPick ex ((poolCandidates v route ex true now).map
            (poolRanked v route sid lag now)) best) := by
        simp only [poolChoice, found, Option.map_some]
      rw [← softPick_online found good]
      constructor
      · rintro ⟨pick, isPick, -, -, online⟩
        rw [picked, Option.some.injEq] at isPick
        exact isPick ▸ online
      · intro online
        refine ⟨_, picked, by rw [poolRank, picked, Option.map_some], ?_, online⟩
        obtain ⟨u, member, same⟩ := List.mem_map.mp (softPick_mem ex (minBy_mem found))
        rw [← same]
        exact (List.mem_filter.mp member).1

/-- Two live upstreams with the same blocks; the second is offline. -/
def pairMap : StateMap where
  entries :=
    [("up", liveServer 0 1 150 140), ("down", { liveServer 1 1 150 140 with online := false })]
  nodup := by decide
  distinct := by decide

def pairView : FleetView := (buildView { sampleCtx with topology := .pool } pairMap [] (.new 0) 0).1

/-- The session asks for traces from block 100, and its link to the online
upstream has just failed. -/
def pairRoute : Route := some (⟨true, false, false, false⟩, 100)

/-- The failover leaves an upstream that is online for one that is not. -/
theorem failover_picks_offline :
    (∃ u ∈ pairView.upstreams, u.routable ∧ u.online ∧
      Excludes.hardActive ⟨some "up", []⟩ u.endpoint 0 = false ∧ u.atCapacity = false ∧
      ∀ r ∈ pairRoute, u.quarantinedAt r.2 0 = false) ∧
    ∃ u ∈ pairView.upstreams, u.online = false ∧
      poolRank pairView pairRoute ⟨some "up", []⟩ true 7 0 0 = some (u.index, 0) := by
  decide +kernel

theorem failover_pick_online_sample :
    ∃ pick, poolChoice pairView pairRoute ⟨none, []⟩ true 7 0 0 = some pick ∧
      poolRank pairView pairRoute ⟨none, []⟩ true 7 0 0 = some (pick.up.index, pick.rank) ∧
      pick.up ∈ pairView.upstreams ∧ pick.up.online := by
  refine (failover_pick_online 7 (by decide +kernel)).mpr ?_
  rintro ⟨s, -, -, soft, -⟩
  cases soft

end FleetRouter.Fleet
