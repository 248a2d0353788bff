import Mathlib.Algebra.Order.Field.Basic
import Mathlib.Algebra.Order.Field.Rat
import FleetRouter.Lib.Comparator
import FleetRouter.Fleet.Pool

/-!
# Ranking upstreams

The rankings of stitched and pool sessions compare one key after another.  Load is
compared without dividing; it is the comparison of connections per unit of weight as
rational numbers.  Candidates whose rendezvous hashes differ never tie, so the choice
does not depend on the order the view lists its upstreams in.
-/

namespace FleetRouter.Fleet

open Ship Session Comparator

/-! ## Load -/

/-- Connections per unit of weight. -/
def load (conns weight : Nat) : ℚ := conns / (max weight 1 : Nat)

theorem load_lt_iff {aConns aWeight bConns bWeight : Nat} :
    load aConns aWeight < load bConns bWeight ↔
      aConns * max bWeight 1 < bConns * max aWeight 1 := by
  have positive (weight : Nat) : (0 : ℚ) < (max weight 1 : Nat) := by
    exact_mod_cast Nat.lt_of_lt_of_le one_pos (le_max_right ..)
  rw [load, load, div_lt_div_iff₀ (positive aWeight) (positive bWeight)]
  exact_mod_cast Iff.rfl

/-- Comparing the products is comparing the quotients. -/
theorem compare_load (aConns aWeight bConns bWeight : Nat) :
    compare (aConns * max bWeight 1) (bConns * max aWeight 1) =
      compare (load aConns aWeight) (load bConns bWeight) := by
  rcases lt_trichotomy (aConns * max bWeight 1) (bConns * max aWeight 1) with less | same | more
  · rw [compare_lt_iff_lt.mpr less, compare_lt_iff_lt.mpr (load_lt_iff.mpr less)]
  · have equal : load aConns aWeight = load bConns bWeight :=
      le_antisymm (not_lt.mp fun less => (load_lt_iff.mp less).ne same.symm)
        (not_lt.mp fun less => (load_lt_iff.mp less).ne same)
    rw [compare_eq_iff_eq.mpr same, compare_eq_iff_eq.mpr equal]
  · rw [compare_gt_iff_gt.mpr more, compare_gt_iff_gt.mpr (load_lt_iff.mpr more)]

/-- The products of the source fit its 128 bits. -/
theorem load_fits {conns weight : Nat} (isUsize : conns < 2 ^ 64) (isU32 : weight < 2 ^ 32) :
    conns * max weight 1 < 2 ^ 128 := by
  have product := Nat.mul_le_mul isUsize.le (max_le isU32.le (by decide : 1 ≤ 2 ^ 32))
  exact product.trans_lt (by decide)

/-- Preference by priority, load and weight. -/
theorem preference_eq (a : UpstreamView) (aConns : Nat) (b : UpstreamView) (bConns : Nat) :
    preference a aConns b bConns =
      (compare a.priority b.priority).then
        ((compare (load aConns a.weight) (load bConns b.weight)).then
          (compare (max b.weight 1) (max a.weight 1))) := by
  rw [← compare_load]
  rfl

/-! ## Both rankings are total preorders -/

/-- The keys of a stitched session, the first to decide first. -/
def Ranked.keys : List (Ranked → Ranked → Ordering) :=
  [ compareOn Ranked.head
  , compareOn fun c => c.up.priority
  , descending Ranked.run
  , compareOn fun c => load c.conns c.up.weight
  , descending fun c => max c.up.weight 1
  , compareOn Ranked.hash ]

/-- The keys of a pool session. -/
def PoolRanked.keys : List (PoolRanked → PoolRanked → Ordering) :=
  [ compareOn PoolRanked.offline
  , compareOn PoolRanked.rank
  , compareOn fun c => c.up.priority
  , compareOn fun c => load c.conns c.up.weight
  , descending fun c => max c.up.weight 1
  , compareOn PoolRanked.hash ]

/-- Preference compares priority again; it is equal by then. -/
theorem Ranked.compare_eq : Ranked.compare = lexAll Ranked.keys := by
  funext a b
  simp only [Ranked.compare, preference_eq, Ranked.keys, lexAll_cons, compareOn, descending]
  cases Ord.compare a.up.priority b.up.priority <;>
    simp [lexAll, Ordering.then_assoc]

theorem PoolRanked.compare_eq : PoolRanked.compare = lexAll PoolRanked.keys := by
  funext a b
  simp only [PoolRanked.compare, preference_eq, PoolRanked.keys, lexAll_cons, compareOn,
    descending]
  simp [lexAll, Ordering.then_assoc]

instance : Std.TransCmp Ranked.compare := by
  rw [Ranked.compare_eq]
  apply transCmp_lexAll
  simp only [Ranked.keys, List.forall_mem_cons]
  refine ⟨?_, ?_, ?_, ?_, ?_, ?_, List.forall_mem_nil _⟩ <;> infer_instance

instance : Std.TransCmp PoolRanked.compare := by
  rw [PoolRanked.compare_eq]
  apply transCmp_lexAll
  simp only [PoolRanked.keys, List.forall_mem_cons]
  refine ⟨?_, ?_, ?_, ?_, ?_, ?_, List.forall_mem_nil _⟩ <;> infer_instance

/-- Equal candidates have equal hashes. -/
theorem Ranked.hash_eq_of_compare {a b : Ranked} (tie : Ranked.compare a b = .eq) :
    a.hash = b.hash := by
  simp only [Ranked.compare, Ordering.then_eq_eq] at tie
  exact Std.LawfulEqOrd.eq_of_compare tie.2.2.2.2

theorem PoolRanked.hash_eq_of_compare {a b : PoolRanked} (tie : PoolRanked.compare a b = .eq) :
    a.hash = b.hash := by
  simp only [PoolRanked.compare, Ordering.then_eq_eq] at tie
  exact Std.LawfulEqOrd.eq_of_compare tie.2.2

/-! ## The least candidate -/

theorem minBy_isLeast {α : Type} {cmp : α → α → Ordering} [Std.TransCmp cmp] {xs : List α}
    {chosen : α} (found : minBy cmp xs = some chosen) : IsLeast cmp xs chosen := by
  refine ⟨minBy_mem found, ?_⟩
  apply minBy_le (r := fun x y => (cmp x y).isLE) _ _ _ _ found
  · intro x
    simp [Std.ReflCmp.compare_self]
  · exact fun _ _ _ => Std.TransCmp.isLE_trans
  · intro x y less
    simp [less]
  · intro x y notLess
    have swap : cmp y x = (cmp x y).swap := Std.OrientedCmp.eq_swap
    rw [swap]
    cases order : cmp x y <;> simp_all

/-- Without ties the choice does not depend on the order of the list. -/
theorem minBy_perm {α : Type} {cmp : α → α → Ordering} [Std.TransCmp cmp] {xs ys : List α}
    (perm : xs.Perm ys) (noTies : ∀ a ∈ xs, ∀ b ∈ xs, cmp a b = .eq → a = b) :
    minBy cmp xs = minBy cmp ys := by
  cases first : minBy cmp xs with
  | none =>
      rw [minBy_eq_none] at first
      subst first
      rw [List.nil_perm.mp perm]
      rfl
  | some x =>
      cases second : minBy cmp ys with
      | none =>
          rw [minBy_eq_none] at second
          subst second
          rw [List.perm_nil.mp perm] at first
          cases first
      | some y =>
          rw [(minBy_isLeast first).eq_of_perm perm noTies (minBy_isLeast second)]

/-! ## A view with its upstreams in another order -/

/-- The same view with its upstreams listed in another order. -/
def FleetView.relist (v : FleetView) (upstreams : List UpstreamView) : FleetView :=
  { v with upstreams }

@[simp] theorem FleetView.relist_upstreams (v : FleetView) (us : List UpstreamView) :
    (v.relist us).upstreams = us := rfl

section Relist

variable {v : FleetView} {us : List UpstreamView}

theorem unionHas_relist (perm : us.Perm v.upstreams) (union : Union) (n : Fin (2 ^ 32))
    (log : Log) :
    unionHas (v.relist us) union n log = unionHas v union n log := by
  cases union with
  | sticky => cases log <;> rfl
  | online => exact perm.any_eq

theorem eligibleWith_relist (perm : us.Perm v.upstreams) (u : UpstreamView) (need : Need)
    (n : Fin (2 ^ 32)) (union : Union) (now : Nat) (checkQuarantine : Bool) :
    eligibleWith (v.relist us) u need n union now checkQuarantine =
      eligibleWith v u need n union now checkQuarantine := by
  simp only [eligibleWith, unionHas_relist perm]

theorem breakpoints_relist (perm : us.Perm v.upstreams) (u : UpstreamView) (now : Nat) :
    (breakpoints (v.relist us) u now).Perm (breakpoints v u now) := by
  unfold breakpoints
  exact (((perm.filter _).flatMap fun _ _ => .refl _).append_right _).append_right _

/-- Sorting forgets the order of the list. -/
theorem insertionSort_perm {xs ys : List (Fin (2 ^ 32))} (perm : xs.Perm ys) :
    xs.insertionSort (· ≤ ·) = ys.insertionSort (· ≤ ·) := by
  have sorted := List.pairwise_insertionSort (α := Fin (2 ^ 32)) (· ≤ ·)
  apply List.Perm.eq_of_pairwise' (sorted xs) (sorted ys)
  exact (List.perm_insertionSort _ xs).trans (perm.trans (List.perm_insertionSort _ ys).symm)

theorem runStops_relist (perm : us.Perm v.upstreams) (u : UpstreamView) (need : Need)
    (now : Nat) : runStops (v.relist us) u need now = runStops v u need now := by
  have holders (b : Fin (2 ^ 32)) :
      holderAt (v.relist us) u need now b = holderAt v u need now b := by
    funext w
    simp only [holderAt, eligible, eligibleWith_relist perm]
  funext b
  simp only [runStops, holders, eligible, eligibleWith_relist perm, FleetView.relist_upstreams,
    perm.any_eq]

theorem runPoints_relist (perm : us.Perm v.upstreams) (u : UpstreamView) (need : Need)
    (start : Fin (2 ^ 32)) (now : Nat) :
    runPoints (v.relist us) u need start now = runPoints v u need start now := by
  have others : (otherBounds (v.relist us) u need now).Perm (otherBounds v u need now) := by
    unfold otherBounds
    split
    · exact (perm.filter _).flatMap fun _ _ => .refl _
    · exact .refl _
  unfold runPoints
  rw [insertionSort_perm (((breakpoints_relist perm u now).append others).filter _)]

theorem runEnd_relist (perm : us.Perm v.upstreams) (u : UpstreamView) (need : Need)
    (start : Fin (2 ^ 32)) (now : Nat) :
    runEnd (v.relist us) u need start now = runEnd v u need start now := by
  rw [runEnd, runStops_relist perm, runPoints_relist perm, runEnd]

theorem candidate_relist (perm : us.Perm v.upstreams) (u : UpstreamView) (sh : Shape)
    (start : Fin (2 ^ 32)) (ex : Excludes) (now : Nat) :
    candidate (v.relist us) u sh start ex now = candidate v u sh start ex now := by
  simp only [candidate, eligible, eligibleWith_relist perm]
  rfl

theorem tipRegion_relist (perm : us.Perm v.upstreams) (n : Fin (2 ^ 32)) :
    tipRegion (v.relist us) n = tipRegion v n := by
  have covering := perm.filter fun u => u.enabled && u.known && u.coversIds n
  simp only [tipRegion, FleetView.relist_upstreams, covering.isEmpty_eq, covering.all_eq]

end Relist

/-! ## The choice does not depend on the order -/

/-- Candidates made from upstreams with different hashes do not tie. -/
theorem noTies_of_nodup {α : Type} {cmp : α → α → Ordering} (hash : α → UInt64) {sid : UInt64}
    (rank : UpstreamView → α) {us : List UpstreamView}
    (ties : ∀ a b, cmp a b = .eq → hash a = hash b)
    (hashed : ∀ u, hash (rank u) = rendezvous sid u.endpoint)
    (nodup : (us.map fun u => rendezvous sid u.endpoint).Nodup) :
    ∀ a ∈ us.map rank, ∀ b ∈ us.map rank, cmp a b = .eq → a = b := by
  intro a aMember b bMember tie
  obtain ⟨x, xMember, rfl⟩ := List.mem_map.mp aMember
  obtain ⟨y, yMember, rfl⟩ := List.mem_map.mp bMember
  have same := ties _ _ tie
  rw [hashed, hashed] at same
  rw [List.inj_on_of_nodup_map nodup xMember yMember same]

/-- The planning over the view with its upstreams in another order. -/
def Planning.relist (p : Planning) (us : List UpstreamView) : Planning :=
  { p with view := p.view.relist us }

theorem Planning.rank_relist {p : Planning} {us : List UpstreamView}
    (perm : us.Perm p.view.upstreams) (sh : Shape) (start : Fin (2 ^ 32)) :
    (p.relist us).rank sh start = p.rank sh start := by
  funext u
  simp only [rank, relist, runEnd_relist perm]
  rfl

theorem Planning.best_relist {p : Planning} {us : List UpstreamView} {sh : Shape}
    {start : Fin (2 ^ 32)} (perm : us.Perm p.view.upstreams)
    (distinct : ((p.view.upstreams.filter fun u =>
      candidate p.view u sh start p.ex p.now).map fun u => rendezvous p.sid u.endpoint).Nodup) :
    (p.relist us).best sh start = p.best sh start := by
  have listed : ((p.relist us).view.upstreams.filter fun u =>
      candidate (p.relist us).view u sh start (p.relist us).ex (p.relist us).now) =
      us.filter fun u => candidate p.view u sh start p.ex p.now := by
    simp only [relist, FleetView.relist_upstreams, candidate_relist perm]
  rw [best, best, listed, rank_relist perm]
  symm
  apply minBy_perm ((perm.symm.filter _).map _)
  have hashed (u : UpstreamView) : (p.rank sh start u).hash = rendezvous p.sid u.endpoint := by
    rw [rank]
  exact noTies_of_nodup Ranked.hash _ (fun _ _ => Ranked.hash_eq_of_compare) hashed distinct

theorem Planning.nextStep_relist {p : Planning} {us : List UpstreamView} {sh : Shape}
    {start : Fin (2 ^ 32)} (perm : us.Perm p.view.upstreams)
    (distinct : ((p.view.upstreams.filter fun u =>
      candidate p.view u sh start p.ex p.now).map fun u => rendezvous p.sid u.endpoint).Nodup) :
    (p.relist us).nextStep sh start = p.nextStep sh start := by
  have hold : (p.relist us).holdReason start = p.holdReason start := by
    simp only [holdReason, relist, FleetView.relist_upstreams, perm.any_eq]
  have tip : tipRegion (p.relist us).view start = tipRegion p.view start :=
    tipRegion_relist perm start
  rw [nextStep, nextStep, best_relist perm distinct, hold, tip]
  rfl

section Pool

variable {v : FleetView} {us : List UpstreamView} (route : Route) (ex : Excludes)
  (sid : UInt64) (lag : Fin (2 ^ 32)) (now : Nat)

theorem poolRanked_relist (perm : us.Perm v.upstreams) :
    poolRanked (v.relist us) route sid lag now = poolRanked v route sid lag now := by
  funext u
  simp only [poolRanked, coverageRank, eligibleWith_relist perm]
  rfl

/-- The soft exclusion looks for the least of the peers, in any order. -/
theorem softPick_perm {ranked relisted : List PoolRanked} (perm : ranked.Perm relisted)
    (noTies : ∀ a ∈ ranked, ∀ b ∈ ranked, PoolRanked.compare a b = .eq → a = b) :
    softPick ex ranked = softPick ex relisted := by
  funext best
  have peers : minBy PoolRanked.compare (softPeers ranked best) =
      minBy PoolRanked.compare (softPeers relisted best) := by
    apply minBy_perm (perm.filter _)
    intro a aMember b bMember
    exact noTies a (List.mem_of_mem_filter aMember) b (List.mem_of_mem_filter bMember)
  rw [softPick, softPick, peers]

theorem poolRank_relist (failover : Bool) (perm : us.Perm v.upstreams)
    (distinct : ((poolCandidates v route ex failover now).map fun u =>
      rendezvous sid u.endpoint).Nodup) :
    poolRank (v.relist us) route ex failover sid lag now =
      poolRank v route ex failover sid lag now := by
  have candidates : (poolCandidates v route ex failover now).Perm
      (poolCandidates (v.relist us) route ex failover now) := perm.symm.filter _
  have ranked := candidates.map (poolRanked v route sid lag now)
  have hashed (u : UpstreamView) :
      (poolRanked v route sid lag now u).hash = rendezvous sid u.endpoint := by
    rw [poolRanked]
  have noTies := noTies_of_nodup PoolRanked.hash (poolRanked v route sid lag now)
    (fun _ _ => PoolRanked.hash_eq_of_compare) hashed distinct
  rw [poolRank, poolRank, poolChoice, poolChoice]
  simp only [poolRanked_relist _ _ _ _ perm]
  rw [minBy_perm ranked noTies, softPick_perm ex ranked noTies]

end Pool

/-- Both rankings are total preorders that look at their keys in order, the load
products fit their 128 bits, and with distinct hashes no choice depends on the order
the view lists its upstreams in. -/
theorem choice_ignores_list_order :
    (IsTotalPreorder Ranked.compare ∧ InKeyOrder Ranked.compare Ranked.keys) ∧
    (IsTotalPreorder PoolRanked.compare ∧ InKeyOrder PoolRanked.compare PoolRanked.keys) ∧
    (∀ conns weight : Nat, conns < 2 ^ 64 → weight < 2 ^ 32 →
      conns * max weight 1 < 2 ^ 128) ∧
    (∀ (p : Planning) (us : List UpstreamView) (sh : Shape) (start : Fin (2 ^ 32)),
      us.Perm p.view.upstreams →
      ((p.view.upstreams.filter fun u => candidate p.view u sh start p.ex p.now).map fun u =>
        rendezvous p.sid u.endpoint).Nodup →
      (p.relist us).nextStep sh start = p.nextStep sh start) ∧
    ∀ (v : FleetView) (us : List UpstreamView) (route : Route) (ex : Excludes)
      (failover : Bool) (sid : UInt64) (lag : Fin (2 ^ 32)) (now : Nat),
      us.Perm v.upstreams →
      ((poolCandidates v route ex failover now).map fun u => rendezvous sid u.endpoint).Nodup →
      poolRank (v.relist us) route ex failover sid lag now =
        poolRank v route ex failover sid lag now := by
  refine ⟨⟨isTotalPreorder_of_transCmp, ?_⟩, ⟨isTotalPreorder_of_transCmp, ?_⟩, ?_, ?_, ?_⟩
  · rw [Ranked.compare_eq]
    exact inKeyOrder_lexAll _
  · rw [PoolRanked.compare_eq]
    exact inKeyOrder_lexAll _
  · intro conns weight isUsize isU32
    exact load_fits isUsize isU32
  · intro p us sh start perm distinct
    exact Planning.nextStep_relist perm distinct
  · intro v us route ex failover sid lag now perm distinct
    exact poolRank_relist route ex sid lag now failover perm distinct

theorem choice_ignores_list_order_pair :
    (pairView.upstreams.reverse.Perm pairView.upstreams ∧
      ((poolCandidates pairView pairRoute ⟨none, []⟩ true 0).map fun u =>
        rendezvous 7 u.endpoint).Nodup) ∧
    poolRank (pairView.relist pairView.upstreams.reverse) pairRoute ⟨none, []⟩ true 7 0 0 =
      poolRank pairView pairRoute ⟨none, []⟩ true 7 0 0 := by
  have reversed := List.reverse_perm pairView.upstreams
  have distinct : ((poolCandidates pairView pairRoute ⟨none, []⟩ true 0).map fun u =>
      rendezvous 7 u.endpoint).Nodup := by
    decide +kernel
  exact ⟨⟨reversed, distinct⟩,
    choice_ignores_list_order.2.2.2.2 _ _ _ _ _ _ _ _ reversed distinct⟩

end FleetRouter.Fleet
