import Mathlib.Data.Prod.Lex
import FleetRouter.Lib.Rotation
import FleetRouter.Fleet.Preference
import FleetRouter.ChainApi.Pick

/-!
# The turns of state calls

A state call rotates its candidates by the round-robin position and sorts them by
priority and load, so the position decides between the candidates that tie.  The
rotation is by the number of all candidates: a tied candidate also gets the turns of
the others that stand before it in index order.
-/

namespace FleetRouter.ChainApi

open Ship Session Fleet Comparator Rotation Finset

/-! ## Sorting by a comparison -/

section Sorting

variable {α : Type} {cmp : α → α → Ordering} {xs : List α} {x : α}

theorem sortBy_perm : (sortBy cmp xs).Perm xs := List.perm_insertionSort _ _

variable [Std.TransCmp cmp]

theorem pairwise_sortBy : (sortBy cmp xs).Pairwise fun a b => (cmp a b).isLE := by
  have order : IsTotalPreorder cmp := isTotalPreorder_of_transCmp
  have isLE_iff (a b : α) : cmp a b ≠ .gt ↔ (cmp a b).isLE := Ordering.isLE_iff_ne_gt.symm
  have : Std.Total fun a b => cmp a b ≠ .gt :=
    ⟨fun a b => by simpa only [isLE_iff] using order.total a b⟩
  have : IsTrans α fun a b => cmp a b ≠ .gt :=
    ⟨fun a b c => by simpa only [isLE_iff] using order.trans a b c⟩
  apply (List.pairwise_insertionSort (fun a b => cmp a b ≠ .gt) xs).imp
  intro a b
  exact (isLE_iff a b).mp

/-- Without ties, what comes first is the least element. -/
theorem head?_sortBy_iff (noTies : ∀ a ∈ xs, ∀ b ∈ xs, cmp a b = .eq → a = b) :
    (sortBy cmp xs).head? = some x ↔ IsLeast cmp xs x := by
  have headLeast {y : α} (first : (sortBy cmp xs).head? = some y) : IsLeast cmp xs y := by
    obtain ⟨rest, sorted⟩ := List.head?_eq_some_iff.mp first
    have pairs : (sortBy cmp xs).Pairwise fun a b => (cmp a b).isLE := pairwise_sortBy
    rw [sorted, List.pairwise_cons] at pairs
    refine ⟨mem_sortBy.mp (sorted ▸ List.mem_cons_self), ?_⟩
    intro z member
    rcases List.mem_cons.mp (sorted ▸ mem_sortBy.mpr member) with rfl | later
    · have same : cmp z z = .eq := Std.ReflCmp.compare_self
      simp [same]
    · exact pairs.1 z later
  constructor
  · exact headLeast
  · intro least
    cases first : (sortBy cmp xs).head? with
    | none =>
        have empty := List.head?_eq_none_iff.mp first
        have member : x ∈ sortBy cmp xs := mem_sortBy.mpr least.mem
        rw [empty] at member
        cases member
    | some y => rw [(headLeast first).eq_of_perm (.refl xs) noTies least]

end Sorting

/-! ## What the order of a state call compares -/

/-- Requests in flight per unit of weight. -/
def ApiView.load (a : ApiView) : ℚ := Fleet.load a.inFlight a.weight

/-- By priority and weighted load. -/
def prefer (a b : ApiView) : Ordering := (compare a.priority b.priority).then (byLoad a b)

/-- The keys of `prefer`, the first to decide first. -/
def prefer.keys : List (ApiView → ApiView → Ordering) :=
  [ compareOn ApiView.priority
  , compareOn ApiView.load
  , descending fun a => max a.weight 1 ]

theorem prefer_eq : prefer = lexAll prefer.keys := by
  funext a b
  simp only [prefer, byLoad, compare_load, prefer.keys, lexAll_cons, compareOn, descending]
  simp [lexAll, ApiView.load]

instance : Std.TransCmp prefer := by
  rw [prefer_eq]
  apply transCmp_lexAll
  simp only [prefer.keys, List.forall_mem_cons]
  refine ⟨?_, ?_, ?_, List.forall_mem_nil _⟩ <;> infer_instance

/-- What is not preferred less is not of greater priority number, and not more loaded
at the same priority. -/
theorem toLex_le_of_prefer {a b : ApiView} (le : (prefer a b).isLE) :
    toLex (a.priority, a.load) ≤ toLex (b.priority, b.load) := by
  rw [prefer_eq] at le
  simp only [prefer.keys, lexAll_cons, compareOn, Ordering.isLE_then_iff_and] at le
  rw [Prod.Lex.toLex_le_toLex]
  rcases lt_or_eq_of_le (compare_le_iff_le.mp (Ordering.isLE_iff_ne_gt.mp le.1)) with less | same
  · exact .inl less
  · rw [compare_eq_iff_eq.mpr same] at le
    simp only [reduceCtorEq, false_or] at le
    exact .inr ⟨same, compare_le_iff_le.mp (Ordering.isLE_iff_ne_gt.mp le.2.1)⟩

/-- Rank and API, by preference and then by rank. -/
def preferRanked (x y : Nat × ApiView) : Ordering :=
  (prefer x.2 y.2).then (compare x.1 y.1)

instance : Std.TransCmp preferRanked :=
  inferInstanceAs (Std.TransCmp (compareLex (Function.onFun prefer Prod.snd) (compareOn Prod.fst)))

/-! ## The candidates on the circle -/

/-- The candidates in index order, as they are rotated. -/
def ring (q : StateQuery) (apis : List ApiView) : List ApiView :=
  sortBy (fun a b => compare a.index b.index) (stateCandidates q apis)

/-- No candidate is preferred to this one. -/
def best (cands : List ApiView) (a : ApiView) : Bool := cands.all fun b => (prefer a b).isLE

/-- The candidates that tie for the best. -/
def tied (q : StateQuery) (apis : List ApiView) : List ApiView :=
  (stateCandidates q apis).filter (best (stateCandidates q apis))

/-- Whether the candidate in this place of the index order ties for the best. -/
def bestAt (q : StateQuery) (apis : List ApiView) (i : Nat) : Bool :=
  (ring q apis)[i]?.any (best (stateCandidates q apis))

/-- The candidates with their ranks for the query's round-robin position. -/
def ranked (q : StateQuery) (apis : List ApiView) : List (Nat × ApiView) :=
  let k := max (ring q apis).length 1
  (ring q apis).zipIdx.map fun (a, i) => (rank k (q.rr % k) i, a)

/-- The same call at another round-robin position. -/
def StateQuery.turn (q : StateQuery) (rr : Nat) : StateQuery := { q with rr }

section Ring

variable {q : StateQuery} {apis : List ApiView} {a b : ApiView} {i j rr : Nat}

theorem stateOrder_eq (q : StateQuery) (apis : List ApiView) :
    stateOrder q apis =
      ((sortBy preferRanked (ranked q apis)).take (max q.maxAttempts 1)).map (·.2.index) := by
  have same : (fun x y : Nat × ApiView => (compare x.2.priority y.2.priority).then
      ((byLoad x.2 y.2).then (compare x.1 y.1))) = preferRanked := by
    funext x y
    exact (Ordering.then_assoc ..).symm
  simp only [stateOrder, same]
  rfl

theorem stateCandidates_sublist : (stateCandidates q apis).Sublist apis := by
  simp only [stateCandidates]
  split
  · split
    · exact List.filter_sublist.trans List.filter_sublist
    · exact List.filter_sublist
  · exact List.filter_sublist

theorem ring_perm : (ring q apis).Perm (stateCandidates q apis) := sortBy_perm

theorem length_ring : (ring q apis).length = (stateCandidates q apis).length :=
  ring_perm.length_eq

theorem mem_ranked {x : Nat × ApiView} :
    x ∈ ranked q apis ↔ ∃ i, (ring q apis)[i]? = some x.2 ∧
      x.1 = rank (max (ring q apis).length 1) (q.rr % max (ring q apis).length 1) i := by
  simp only [ranked, List.mem_map, Prod.exists, List.mem_zipIdx_iff_getElem?]
  constructor
  · rintro ⟨a, i, placed, rfl⟩
    exact ⟨i, placed, rfl⟩
  · rintro ⟨i, placed, isRank⟩
    exact ⟨x.2, i, placed, by rw [← isRank]⟩

/-- A place of the index order is on the circle. -/
theorem lt_of_placed (placed : (ring q apis)[i]? = some a) : i < max (ring q apis).length 1 :=
  (List.getElem?_eq_some_iff.mp placed).1.trans_le (le_max_left ..)

theorem shift_lt : q.rr % max (ring q apis).length 1 < max (ring q apis).length 1 :=
  Nat.mod_lt _ (Nat.lt_of_lt_of_le one_pos (le_max_right ..))

/-- Ranks tell the candidates apart. -/
theorem ranked_noTies :
    ∀ x ∈ ranked q apis, ∀ y ∈ ranked q apis, preferRanked x y = .eq → x = y := by
  intro x isRanked y isOther tie
  obtain ⟨i, placed, isRank⟩ := mem_ranked.mp isRanked
  obtain ⟨j, otherPlaced, otherRank⟩ := mem_ranked.mp isOther
  have sameRank : x.1 = y.1 := compare_eq_iff_eq.mp (Ordering.then_eq_eq.mp tie).2
  have samePlace : i = j := by
    apply rank_injective shift_lt (lt_of_placed placed) (lt_of_placed otherPlaced)
    rw [← isRank, ← otherRank, sameRank]
  subst samePlace
  rw [placed, Option.some.injEq] at otherPlaced
  exact Prod.ext sameRank otherPlaced

theorem best_iff_ring :
    best (stateCandidates q apis) a = true ↔
      ∀ (j : Nat) (b : ApiView), (ring q apis)[j]? = some b → (prefer a b).isLE := by
  simp only [best, ← ring_perm.all_eq, List.all_eq_true, List.mem_iff_getElem?]
  constructor
  · intro le j b placed
    exact le b ⟨j, placed⟩
  · rintro le b ⟨j, placed⟩
    exact le j b placed

/-- What ties with a best candidate is one. -/
theorem best_of_prefer (isBest : best (stateCandidates q apis) a = true)
    (tie : (prefer b a).isLE) : best (stateCandidates q apis) b = true := by
  simp only [best, List.all_eq_true] at isBest ⊢
  intro c member
  exact Std.TransCmp.isLE_trans tie (isBest c member)

/-- First comes the best candidate that the rotation reaches first. -/
theorem isLeast_ranked_iff (placed : (ring q apis)[i]? = some a) :
    let k := max (ring q apis).length 1
    IsLeast preferRanked (ranked q apis) (rank k (q.rr % k) i, a) ↔
      best (stateCandidates q apis) a = true ∧ picks k (bestAt q apis) (q.rr % k) i := by
  intro k
  constructor
  · intro least
    have le (j : Nat) (b : ApiView) (other : (ring q apis)[j]? = some b) :
        (preferRanked (rank k (q.rr % k) i, a) (rank k (q.rr % k) j, b)).isLE :=
      least.le _ (mem_ranked.mpr ⟨j, other, rfl⟩)
    simp only [preferRanked, Ordering.isLE_then_iff_and] at le
    refine ⟨best_iff_ring.mpr fun j b other => (le j b other).1, ?_⟩
    intro j inside isBest
    obtain ⟨b, other, otherBest⟩ := (Option.any_eq_true ..).mp isBest
    have tie : prefer a b = .eq := Std.OrientedCmp.isLE_antisymm (le j b other).1
      (best_iff_ring.mp otherBest i a placed)
    have byRank := (le j b other).2
    simp only [tie, reduceCtorEq, false_or] at byRank
    exact compare_le_iff_le.mp (Ordering.isLE_iff_ne_gt.mp byRank)
  · rintro ⟨isBest, first⟩
    refine ⟨mem_ranked.mpr ⟨i, placed, rfl⟩, ?_⟩
    intro x isRanked
    obtain ⟨j, other, isRank⟩ := mem_ranked.mp isRanked
    have le := best_iff_ring.mp isBest j x.2 other
    simp only [preferRanked, Ordering.isLE_then_iff_and]
    refine ⟨le, ?_⟩
    cases order : prefer a x.2 with
    | lt => exact .inl rfl
    | gt => simp [order] at le
    | eq =>
        have swap : prefer x.2 a = (prefer a x.2).swap := Std.OrientedCmp.eq_swap
        have otherBest := best_of_prefer (b := x.2) isBest (by simp [swap, order])
        have reached := first j (lt_of_placed other) (by simp [bestAt, other, otherBest])
        rw [isRank]
        exact .inr (Ordering.isLE_iff_ne_gt.mpr (compare_le_iff_le.mpr reached))

end Ring

/-! ## Turns -/

/-- The API is asked first at this round-robin position. -/
def comesFirst (q : StateQuery) (apis : List ApiView) (a : ApiView) (rr : Nat) : Prop :=
  (stateOrder (q.turn rr) apis).head? = some a.index

instance (q : StateQuery) (apis : List ApiView) (a : ApiView) :
    DecidablePred (comesFirst q apis a) :=
  fun rr => inferInstanceAs (Decidable ((stateOrder (q.turn rr) apis).head? = some a.index))

/-- The candidates that tie for the best stand in equal distances in index order, going
round: from one to the next it is as many places as there are candidates for each. -/
def EvenlySpaced (q : StateQuery) (apis : List ApiView) : Prop :=
  ∀ i < (ring q apis).length, bestAt q apis i = true →
    gap (ring q apis).length (bestAt q apis) i * (tied q apis).length = (ring q apis).length

instance (q : StateQuery) (apis : List ApiView) : Decidable (EvenlySpaced q apis) :=
  inferInstanceAs (Decidable (∀ i < (ring q apis).length, bestAt q apis i = true →
    gap (ring q apis).length (bestAt q apis) i * (tied q apis).length = (ring q apis).length))

/-- Candidates by priority and load, each once, as many as the attempts allow. -/
structure IsAttemptOrder (q : StateQuery) (apis : List ApiView) (order : List Nat) : Prop where
  nodup : order.Nodup
  length : order.length = min (max q.maxAttempts 1) (stateCandidates q apis).length
  sorted : ∃ taken : List ApiView, order = taken.map ApiView.index ∧
    (∀ a ∈ taken, a ∈ stateCandidates q apis) ∧
    taken.Pairwise fun a b => toLex (a.priority, a.load) ≤ toLex (b.priority, b.load)

section Turns

variable {q : StateQuery} {dir : ApiDirectory} {a : ApiView} {i rr : Nat}

theorem ring_nodup : ((ring q dir.apis).map ApiView.index).Nodup := by
  apply (ring_perm.map ApiView.index).nodup_iff.mpr
  exact List.Nodup.sublist (stateCandidates_sublist.map ApiView.index) dir.nodup

/-- Candidates of one index stand in one place. -/
theorem place_eq {j : Nat} {b : ApiView} (placed : (ring q dir.apis)[i]? = some a)
    (other : (ring q dir.apis)[j]? = some b) (same : a.index = b.index) : i = j := by
  have first : ((ring q dir.apis).map ApiView.index)[i]? = some a.index := by
    rw [List.getElem?_map, placed, Option.map_some]
  have second : ((ring q dir.apis).map ApiView.index)[j]? = some a.index := by
    rw [List.getElem?_map, other, Option.map_some, same]
  have inside := (List.getElem?_eq_some_iff.mp first).1
  exact (List.getElem?_inj inside ring_nodup).mp (first.trans second.symm)

theorem head?_stateOrder (q : StateQuery) (apis : List ApiView) :
    (stateOrder q apis).head? =
      (sortBy preferRanked (ranked q apis)).head?.map (·.2.index) := by
  rw [stateOrder_eq, List.head?_map, List.head?_take, if_neg]
  exact (Nat.lt_of_lt_of_le one_pos (le_max_right ..)).ne'

/-- The candidate in a place comes first when it is best and reached first. -/
theorem comesFirst_iff (placed : (ring q dir.apis)[i]? = some a) :
    comesFirst q dir.apis a rr ↔
      best (stateCandidates q dir.apis) a = true ∧
        picks (ring q dir.apis).length (bestAt q dir.apis) (rr % (ring q dir.apis).length) i := by
  have isPlace : 1 ≤ (ring q dir.apis).length :=
    Nat.one_le_of_lt (List.getElem?_eq_some_iff.mp placed).1
  have circle : max (ring (q.turn rr) dir.apis).length 1 = (ring q dir.apis).length :=
    max_eq_left isPlace
  have least := isLeast_ranked_iff (q := q.turn rr) placed
  simp only [circle] at least
  rw [← head?_sortBy_iff ranked_noTies] at least
  refine Iff.trans ?_ least
  rw [comesFirst, head?_stateOrder, Option.map_eq_some_iff]
  constructor
  · rintro ⟨x, first, sameIndex⟩
    obtain ⟨j, other, isRank⟩ := mem_ranked.mp ((head?_sortBy_iff ranked_noTies).mp first).mem
    obtain rfl := place_eq other placed sameIndex
    rw [circle] at isRank
    rw [first]
    congr 1
    apply Prod.ext isRank
    exact Option.some.inj (other.symm.trans placed)
  · intro first
    exact ⟨_, first, rfl⟩

/-- Only a candidate that ties for the best comes first. -/
theorem tied_of_first (q : StateQuery) (dir : ApiDirectory) {index : Nat}
    (first : (stateOrder q dir.apis).head? = some index) :
    ∃ a ∈ tied q dir.apis, a.index = index := by
  rw [head?_stateOrder, Option.map_eq_some_iff] at first
  obtain ⟨x, first, rfl⟩ := first
  have least := (head?_sortBy_iff ranked_noTies).mp first
  obtain ⟨i, placed, isRank⟩ := mem_ranked.mp least.mem
  have same : x = (rank (max (ring q dir.apis).length 1)
      (q.rr % max (ring q dir.apis).length 1) i, x.2) := Prod.ext isRank rfl
  rw [same] at least
  have isBest := ((isLeast_ranked_iff placed).mp least).1
  have member := ring_perm.mem_iff.mp (List.mem_of_getElem? placed)
  exact ⟨x.2, List.mem_filter.mpr ⟨member, isBest⟩, rfl⟩

/-- Over whole turns a tied candidate comes first as often as its gap is wide. -/
theorem card_comesFirst (placed : (ring q dir.apis)[i]? = some a)
    (isBest : best (stateCandidates q dir.apis) a = true) (start turns : Nat) :
    #{rr ∈ Ico start (start + (ring q dir.apis).length * turns) | comesFirst q dir.apis a rr} =
      turns * gap (ring q dir.apis).length (bestAt q dir.apis) i := by
  classical
  have inside := (List.getElem?_eq_some_iff.mp placed).1
  have periodic : Function.Periodic (comesFirst q dir.apis a) (ring q dir.apis).length := by
    intro rr
    rw [eq_iff_iff, comesFirst_iff placed, comesFirst_iff placed, Nat.add_mod_right]
  rw [card_turns _ periodic start turns, ← card_picks inside]
  congr 2
  apply filter_congr
  intro rr isShift
  rw [comesFirst_iff placed, Nat.mod_eq_of_lt (mem_range.mp isShift)]
  simp [isBest]

theorem map_ranked : (ranked q dir.apis).map Prod.snd = ring q dir.apis := by
  simp [ranked, List.map_map, Function.comp_def]

/-- What a state call tries is an attempt order. -/
theorem stateOrder_isAttemptOrder (q : StateQuery) (dir : ApiDirectory) :
    IsAttemptOrder q dir.apis (stateOrder q dir.apis) := by
  have perm : ((sortBy preferRanked (ranked q dir.apis)).map Prod.snd).Perm
      (ring q dir.apis) := by
    rw [← map_ranked]
    exact sortBy_perm.map Prod.snd
  have taken : stateOrder q dir.apis =
      (((sortBy preferRanked (ranked q dir.apis)).map Prod.snd).take
        (max q.maxAttempts 1)).map ApiView.index := by
    rw [stateOrder_eq, ← List.map_take, List.map_map]
    rfl
  rw [taken]
  constructor
  · have nodup := (perm.map ApiView.index).nodup_iff.mpr ring_nodup
    exact List.Nodup.sublist ((List.take_sublist ..).map ApiView.index) nodup
  · rw [List.length_map, List.length_take, perm.length_eq, length_ring]
  · refine ⟨_, rfl, ?_, ?_⟩
    · intro a member
      exact ring_perm.mem_iff.mp (perm.mem_iff.mp (List.mem_of_mem_take member))
    · apply List.Pairwise.sublist (List.take_sublist ..)
      apply List.pairwise_map.mpr
      apply pairwise_sortBy.imp
      intro x y le
      exact toLex_le_of_prefer (Ordering.isLE_then_iff_and.mp le).1

/-- A tied candidate has a place. -/
theorem mem_tied_iff :
    a ∈ tied q dir.apis ↔
      ∃ i < (ring q dir.apis).length, (ring q dir.apis)[i]? = some a ∧
        best (stateCandidates q dir.apis) a = true := by
  rw [tied, List.mem_filter, ← ring_perm.mem_iff, List.mem_iff_getElem?]
  constructor
  · rintro ⟨⟨i, placed⟩, isBest⟩
    exact ⟨i, (List.getElem?_eq_some_iff.mp placed).1, placed, isBest⟩
  · rintro ⟨i, -, placed, isBest⟩
    exact ⟨⟨i, placed⟩, isBest⟩

/-- Each of the candidates that tie for the best comes first equally often exactly when
they are evenly spaced in index order.  Whatever their places, no other candidate comes
first, and every call lists candidates in order. -/
theorem state_calls_spread_iff (q : StateQuery) (dir : ApiDirectory) (start : Nat) :
    let k := (stateCandidates q dir.apis).length
    let m := (tied q dir.apis).length
    ((∀ a ∈ tied q dir.apis,
        #{rr ∈ Ico start (start + k * m) | comesFirst q dir.apis a rr} = k) ↔
      EvenlySpaced q dir.apis) ∧
    (∀ rr index, (stateOrder (q.turn rr) dir.apis).head? = some index →
      ∃ a ∈ tied q dir.apis, a.index = index) ∧
    ∀ rr, IsAttemptOrder (q.turn rr) dir.apis (stateOrder (q.turn rr) dir.apis) := by
  intro k m
  refine ⟨?_, fun rr index first => tied_of_first (q.turn rr) dir first,
    fun rr => stateOrder_isAttemptOrder (q.turn rr) dir⟩
  have count {a : ApiView} {i : Nat} (placed : (ring q dir.apis)[i]? = some a)
      (isBest : best (stateCandidates q dir.apis) a = true) :
      #{rr ∈ Ico start (start + k * m) | comesFirst q dir.apis a rr} =
        gap (ring q dir.apis).length (bestAt q dir.apis) i * m := by
    rw [Nat.mul_comm (gap ..), ← card_comesFirst placed isBest start m, length_ring]
  constructor
  · intro even i inside isBest
    obtain ⟨a, placed, isBest⟩ := (Option.any_eq_true ..).mp isBest
    rw [← count placed isBest, length_ring]
    exact even a (mem_tied_iff.mpr ⟨i, inside, placed, isBest⟩)
  · intro even a isTied
    obtain ⟨i, inside, placed, isBest⟩ := mem_tied_iff.mp isTied
    rw [count placed isBest, even i inside (by simp [bestAt, placed, isBest]), length_ring]

end Turns

/-- A live API with one request in flight or none. -/
def callApi (index inFlight : Nat) : ApiView where
  index := index
  endpoint := "api"
  role := .live
  priority := 0
  weight := 1
  up := true
  busy := false
  inFlight := inFlight
  full := false
  apis := none
  head := some 100
  lib := some 90
  earliest := none
  verified := false
  blocks := none
  declared := none

/-- Two idle APIs and a third with a request in flight. -/
def callDirectory : ApiDirectory where
  apis := [callApi 0 0, callApi 1 0, callApi 2 1]
  nodup := by decide

/-- A `get_account` call. -/
def accountCall : StateQuery where
  path := "/v1/chain/get_account"
  shipHead := some 100
  lag := 0
  rr := 0
  maxAttempts := 3

/-- Of the two idle APIs the first also gets the turns of the loaded one: of six calls
it is asked first four times, not three. -/
theorem state_calls_spread_unevenly :
    (stateCandidates accountCall callDirectory.apis).length = 3 ∧
      tied accountCall callDirectory.apis = [callApi 0 0, callApi 1 0] ∧
      #{rr ∈ Ico 0 (3 * 2) | comesFirst accountCall callDirectory.apis (callApi 0 0) rr} = 4 ∧
      #{rr ∈ Ico 0 (3 * 2) | comesFirst accountCall callDirectory.apis (callApi 1 0) rr} = 2 := by
  decide +kernel

end FleetRouter.ChainApi
