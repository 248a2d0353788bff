import FleetRouter.Fleet.Runs

/-!
# The legs of a request

What the planner answers over a view a build returned: a leg it serves can be
served in full, block by block; planned one after another, legs tile the request
and their number is bounded by the places where the fleet changes; and a request
is closed for a coverage gap exactly when there is one.
-/

namespace FleetRouter.Fleet

open Ship Session ChangePoints Intervals

/-- Some enabled upstream with usable ranges covers it, online or not. -/
def FleetView.Knows (v : FleetView) (covers : UpstreamView → Bool) : Prop :=
  ∃ w ∈ v.upstreams, w.enabled ∧ w.known ∧ covers w

/-! ## A leg is served in full -/

/-- The upstream has all the fleet has of what is asked at a block. -/
structure ServesBlock (p : Planning) (need : Need) (u : UpstreamView) (n : Fin (2 ^ 32)) :
    Prop where
  free : u.quarantinedAt n p.now = false
  traces : need.traces → p.view.Knows (fun w => w.covers .trace n) → u.covers .trace n
  deltas : need.deltas → p.view.Knows (fun w => w.covers .chainState n) → u.covers .chainState n
  finality : need.finality → p.view.Knows (fun w => w.covers .finality n) → u.covers .finality n
  ids : p.view.Knows (fun w => w.coversIds n) → u.coversIds n

/-- What holds of the upstream a leg is planned on. -/
structure ServeStep.ServedBy (p : Planning) (sh : Shape) (leg : ServeStep) (u : UpstreamView) :
    Prop where
  index : u.index = leg.up
  endpoint : u.endpoint = leg.endpoint
  role : u.role = leg.role
  routable : u.routable
  known : u.known
  abiOk : u.abiOk
  allowed : p.ex.hardActive u.endpoint p.now = false
  reachable : u.online ∨ p.allowOffline
  /-- Below `max_sessions`, not counting the session's own slots. -/
  room : u.atCapacityBesides (p.own.count u.index) = false
  /-- At or above the fleet's first id, every block of the leg is served. -/
  blocks : ∀ n, leg.start ≤ n → n < leg.reqEnd → (∀ first ∈ p.view.idsBegin, first ≤ n) →
    ServesBlock p sh.need u n
  archive : u.role = .frozen → leg.reqEnd ≤ u.maxEnd ∧
    ∃ gate, p.gate sh = some gate ∧ leg.reqEnd ≤ nextBlock gate.num

variable {v : FleetView} {u : UpstreamView} {p : Planning} {sh : Shape} {start : Fin (2 ^ 32)}

theorem servesBlock_of_eligible {need : Need} {n : Fin (2 ^ 32)} (sticky : p.view.Sticky)
    (served : eligible p.view u need n .sticky p.now) : ServesBlock p need u n := by
  have has (log : Log) : p.view.Knows (fun w => w.covers log n) ↔ (p.view.cov log).has n :=
    (sticky.has_iff log n).symm
  simp only [eligible, eligibleWith, unionHas] at served
  refine ⟨by grind, ?_, ?_, ?_, ?_⟩
  · rw [has]
    grind
  · rw [has]
    grind
  · rw [has]
    grind
  · rintro ⟨w, listed, enabled, known, covered⟩
    obtain ⟨log, -, covers⟩ := List.any_eq_true.mp covered
    have known : (p.view.cov log).has n := (has log).mp ⟨w, listed, enabled, known, covers⟩
    cases log <;> grind

/-- A candidate is in service, with usable ranges and an accepted ABI. -/
theorem usable_of_candidate {ex : Excludes} {now : Nat} (chosen : candidate v u sh start ex now) :
    u.routable ∧ u.known ∧ u.abiOk ∧ ex.hardActive u.endpoint now = false := by
  simp only [candidate, eligible, eligibleWith] at chosen
  grind

/-- A candidate may serve its whole run at or above the fleet's first id. -/
theorem FleetView.Sticky.eligible_of_candidate
    {start n : Fin (2 ^ 32)} {ex : Excludes} {now : Nat} (sticky : v.Sticky)
    (listed : u ∈ v.upstreams) (chosen : candidate v u sh start ex now) (above : start ≤ n)
    (before : n < runEnd v u sh.need start now) (named : ∀ first ∈ v.idsBegin, first ≤ n) :
    eligible v u sh.need n .sticky now := by
  simp only [candidate] at chosen
  split at chosen
  · cases chosen
  split at chosen
  · rename_i below
    obtain ⟨first, isFirst, after⟩ := (Option.any_eq_true _ _).mp below
    have point : first ∈ breakpoints v u now := by
      rw [breakpoints, isFirst]
      simp
    exact sticky.eligible_from_breakpoint listed sh.need now point (of_decide_eq_true after)
      (named first isFirst) before
  · exact sticky.eligible_of_lt_runEnd listed sh.need now chosen above before

/-- Every planned leg can be served in full: it begins at the cursor and ends
within the request, and its upstream is in service and has every block of it. -/
theorem planned_leg_served {p : Planning} {sh : Shape} {start : Fin (2 ^ 32)} {leg : ServeStep}
    (isBuild : p.view.IsBuild) (served : p.nextStep sh start = .serve leg) :
    leg.start = start ∧ leg.start < leg.reqEnd ∧ leg.reqEnd ≤ sh.end ∧
      ∃ u ∈ p.view.upstreams, leg.ServedBy p sh u := by
  have sticky := isBuild.sticky
  obtain ⟨open_, known, u, listed, chosen, reachable, room, gated, isLeg⟩ :=
    Planning.nextStep_serve served
  have bounded := gatedEnd_bounded open_ listed chosen known gated
  obtain ⟨routable, usable, accepted, allowed⟩ := usable_of_candidate chosen
  have within : leg.reqEnd ≤ runEnd p.view u sh.need start p.now := by
    rcases gatedEnd_cases gated with ⟨-, isEnd⟩ | ⟨-, gate, -, -, isEnd⟩ <;> rw [isEnd]
    · exact min_le_left ..
    · exact (min_le_left ..).trans (min_le_left ..)
  have archive (frozen : u.role = .frozen) : leg.reqEnd ≤ u.maxEnd ∧
      ∃ gate, p.gate sh = some gate ∧ leg.reqEnd ≤ nextBlock gate.num := by
    have capped := runEnd_le_runCap p.view u sh.need start p.now
    rcases gatedEnd_cases gated with ⟨live, -⟩ | ⟨-, gate, behind, -, isEnd⟩
    · simp [live] at frozen
    · simp only [runCap, frozen] at capped
      exact ⟨within.trans capped, gate, behind, isEnd ▸ min_le_right ..⟩
  rw [isLeg]
  refine ⟨rfl, bounded.nonempty, bounded.asked, u, listed, ?_⟩
  exact
    { index := rfl, endpoint := rfl, role := rfl, routable, known := usable, abiOk := accepted
      allowed, reachable, room, archive
      blocks := fun n above before named => servesBlock_of_eligible sticky
        (sticky.eligible_of_candidate listed chosen above (before.trans_le within) named) }

/-- Planning over the sample fleet, at its own tip. -/
def samplePlanning : Planning where
  view := sampleView
  tip := (sampleView.head, sampleView.lib)
  ex := { soft := none, hard := [] }
  own := []
  sid := 7
  historyPreference := .frozen
  lag := 0
  allowOffline := false
  now := 0

def sampleShape : Shape := ⟨tracesOnly, 200, false⟩

theorem nextStep_samplePlanning : samplePlanning.nextStep sampleShape 10 =
    .serve { up := 0, endpoint := "archive", role := .frozen, start := 10, reqEnd := 100 } := by
  decide +kernel

theorem planned_leg_served_sample :
    ∃ leg, samplePlanning.nextStep sampleShape 10 = .serve leg ∧ leg.reqEnd = 100 ∧
      ∃ u ∈ sampleView.upstreams, leg.ServedBy samplePlanning sampleShape u :=
  ⟨_, nextStep_samplePlanning, rfl,
    (planned_leg_served isBuild_sampleView nextStep_samplePlanning).2.2.2⟩

/-! ## Legs tile the request -/

/-- Every place where what the fleet serves may change. -/
def FleetView.changePoints (v : FleetView) (now : Nat) : List (Fin (2 ^ 32)) :=
  (v.upstreams.filter UpstreamView.counts).flatMap UpstreamView.bounds
    ++ v.upstreams.flatMap (fun u => quarantineBounds u now) ++ v.idsBegin.toList

theorem runPoints_subset_changePoints {need : Need} {now : Nat} (listed : u ∈ v.upstreams) :
    runPoints v u need start now ⊆ v.changePoints now := by
  have quarantine {w : UpstreamView} (listed : w ∈ v.upstreams) {b : Fin (2 ^ 32)}
      (bound : b ∈ quarantineBounds w now) : b ∈ v.changePoints now :=
    List.mem_append_left _ (List.mem_append_right _ (List.mem_flatMap.mpr ⟨w, listed, bound⟩))
  intro b member
  rcases (mem_runPoints.mp member).1 with point | other
  · rcases List.mem_append.mp point with ranged | first
    · rcases List.mem_append.mp ranged with bound | bound
      · exact List.mem_append_left _ (List.mem_append_left _ bound)
      · exact quarantine listed bound
    · exact List.mem_append_right _ first
  · rw [otherBounds] at other
    split at other
    · obtain ⟨w, isOther, bound⟩ := List.mem_flatMap.mp other
      exact quarantine (List.mem_filter.mp isOther).1 bound
    · cases other

/-- The highest end of a frozen upstream is the end of one of its logs. -/
theorem UpstreamView.maxEnd_mem_bounds (frozen : u.role = .frozen)
    {n : Fin (2 ^ 32)} (below : n < u.maxEnd) : u.maxEnd ∈ u.bounds := by
  cases highest : (u.logs.map fun log => (u.range log).end).max? with
  | none =>
      rw [maxEnd, highest] at below
      exact absurd below (Fin.not_lt_zero n)
  | some top =>
      obtain ⟨log, held, isEnd⟩ := List.mem_map.mp (List.max?_mem highest)
      have present : u.hasLog log := (List.mem_filter.mp held).2
      rw [maxEnd, highest, Option.getD_some, ← isEnd]
      exact end_mem_bounds present frozen

/-- A leg ends where the fleet changes, at the end of the request, or behind the
gate. -/
theorem Planning.reqEnd_cases {leg : ServeStep} (served : p.nextStep sh start = .serve leg) :
    leg.reqEnd ∈ p.view.changePoints p.now ∨ leg.reqEnd = sh.end ∨
      ∃ gate ∈ p.gate sh, leg.reqEnd = nextBlock gate.num := by
  obtain ⟨open_, known, u, listed, chosen, -, -, gated, -⟩ := nextStep_serve served
  obtain ⟨routable, usable, -, -⟩ := usable_of_candidate chosen
  have run : runEnd p.view u sh.need start p.now ∈ p.view.changePoints p.now ∨
      sh.end ≤ runEnd p.view u sh.need start p.now := by
    rcases scanRun_cases (runCap u) (runStops p.view u sh.need p.now)
        (runPoints p.view u sh.need start p.now) with capped | ⟨member, -⟩
    · rw [runEnd, capped]
      cases role : u.role with
      | live =>
          right
          simp only [runCap, role, Fin.le_def, u32Max]
          omega
      | frozen =>
          left
          have counts : u.counts = true := by
            rw [UpstreamView.counts, (Bool.and_eq_true_iff.mp routable).1, usable]
            rfl
          have bound := u.maxEnd_mem_bounds role (lt_maxEnd_of_candidate role chosen known)
          simp only [runCap, role]
          exact List.mem_append_left _ (List.mem_append_left _
            (List.mem_flatMap.mpr ⟨u, List.mem_filter.mpr ⟨listed, counts⟩, bound⟩))
    · exact .inl (runPoints_subset_changePoints listed member)
  have clamped : min (runEnd p.view u sh.need start p.now) sh.end ∈
      p.view.changePoints p.now ∨ min (runEnd p.view u sh.need start p.now) sh.end = sh.end := by
    rcases min_choice (runEnd p.view u sh.need start p.now) sh.end with ends | ends
    · rcases run with point | past
      · exact .inl (by rwa [ends])
      · exact .inr (min_eq_right past)
    · exact .inr ends
  rcases gatedEnd_cases gated with ⟨-, isEnd⟩ | ⟨-, gate, behind, -, isEnd⟩
  · rw [isEnd]
    exact clamped.imp_right .inl
  · rcases min_choice (min (runEnd p.view u sh.need start p.now) sh.end)
        (nextBlock gate.num) with ends | ends
    · rw [isEnd, ends]
      exact clamped.imp_right .inl
    · exact .inr (.inr ⟨gate, behind, isEnd.trans ends⟩)

/-- Plan leg after leg, each from where the one before ended. -/
def Planning.plan (p : Planning) (sh : Shape) :
    Nat → Fin (2 ^ 32) → List ServeStep × Option Step
  | 0, _ => ([], none)
  | fuel + 1, start =>
      match p.nextStep sh start with
      | .serve leg =>
          let (legs, last) := p.plan sh fuel leg.reqEnd
          (leg :: legs, last)
      | step => ([], some step)

/-- Each leg begins where the one before ended. -/
inductive Tiles : Fin (2 ^ 32) → List ServeStep → Fin (2 ^ 32) → Prop
  | nil (start : Fin (2 ^ 32)) : Tiles start [] start
  | cons {leg : ServeStep} {legs : List ServeStep} {stop : Fin (2 ^ 32)} :
      leg.start < leg.reqEnd → Tiles leg.reqEnd legs stop → Tiles leg.start (leg :: legs) stop

namespace Tiles

variable {start stop : Fin (2 ^ 32)} {legs : List ServeStep}

theorem le (tiles : Tiles start legs stop) : start ≤ stop := by
  induction tiles with
  | nil start => exact le_rfl
  | cons nonempty _ ih => exact nonempty.le.trans ih

theorem start_le (tiles : Tiles start legs stop) :
    ∀ leg ∈ legs, start ≤ leg.start ∧ leg.start < leg.reqEnd := by
  induction tiles with
  | nil start => simp
  | cons nonempty _ ih =>
      intro leg member
      rcases List.mem_cons.mp member with rfl | member
      · exact ⟨le_rfl, nonempty⟩
      · exact ⟨nonempty.le.trans (ih leg member).1, (ih leg member).2⟩

/-- Legs do not overlap. -/
theorem disjoint (tiles : Tiles start legs stop) :
    legs.Pairwise fun earlier later => earlier.reqEnd ≤ later.start := by
  induction tiles with
  | nil start => exact .nil
  | cons nonempty rest ih =>
      exact List.pairwise_cons.mpr ⟨fun later member => (rest.start_le later member).1, ih⟩

/-- The legs hold exactly the blocks from the start to the stop. -/
theorem blocks (tiles : Tiles start legs stop) (n : Fin (2 ^ 32)) :
    (∃ leg ∈ legs, leg.start ≤ n ∧ n < leg.reqEnd) ↔ start ≤ n ∧ n < stop := by
  induction tiles with
  | nil start =>
      simp only [List.not_mem_nil, false_and, exists_false, false_iff, not_and, not_lt]
      exact fun above => above
  | cons nonempty rest ih =>
      rename_i leg legs stop
      simp only [List.mem_cons, exists_eq_or_imp, ih]
      have := rest.le
      constructor
      · rintro (⟨above, before⟩ | ⟨above, before⟩)
        · exact ⟨above, before.trans_le this⟩
        · exact ⟨nonempty.le.trans above, before⟩
      · rintro ⟨above, before⟩
        rcases lt_or_ge n leg.reqEnd with early | late
        · exact .inl ⟨above, early⟩
        · exact .inr ⟨late, before⟩

theorem stop_le {last : Fin (2 ^ 32)} (tiles : Tiles start legs stop)
    (ends : ∀ leg ∈ legs, leg.reqEnd ≤ last) : stop ≤ max start last := by
  induction tiles with
  | nil start => exact le_max_left ..
  | cons nonempty rest ih =>
      have within := ends _ List.mem_cons_self
      refine (ih fun leg member => ends leg (by simp [member])).trans (max_le ?_ (le_max_right ..))
      exact within.trans (le_max_right ..)

theorem nodup_reqEnd (tiles : Tiles start legs stop) : (legs.map ServeStep.reqEnd).Nodup := by
  refine List.pairwise_map.mpr (tiles.disjoint.imp_of_mem ?_)
  intro earlier later _ member ordered same
  exact absurd (tiles.start_le later member).2 (not_lt.mpr (same ▸ ordered))

end Tiles

theorem Planning.end_le_of_done (done : p.nextStep sh start = .done) : sh.end ≤ start := by
  by_contra open_
  simp only [nextStep, open_, if_false] at done
  grind

/-- Planning tiles from its start to where it stops, unless the fuel runs out. -/
theorem Planning.plan_tiles (p : Planning) (sh : Shape) (fuel : Nat) (start : Fin (2 ^ 32)) :
    ∃ stop, Tiles start (p.plan sh fuel start).1 stop ∧
      (∀ leg ∈ (p.plan sh fuel start).1, p.nextStep sh leg.start = .serve leg) ∧
      match (p.plan sh fuel start).2 with
      | none => (p.plan sh fuel start).1.length = fuel
      | some step => p.nextStep sh stop = step ∧ ∀ leg, step ≠ .serve leg := by
  induction fuel generalizing start with
  | zero => exact ⟨start, .nil start, by simp [plan], rfl⟩
  | succ fuel ih =>
      cases next : p.nextStep sh start with
      | serve leg =>
          obtain ⟨rfl, bounded⟩ := nextStep_bounded next
          obtain ⟨stop, tiles, planned, last⟩ := ih leg.reqEnd
          refine ⟨stop, ?_, ?_, ?_⟩
          · simpa only [plan, next] using Tiles.cons bounded.nonempty tiles
          · simpa only [plan, next, List.forall_mem_cons, true_and] using planned
          · simp only [plan, next]
            split at last <;> simp_all
      | hold | wait | gap | done => exact ⟨start, by simp [plan, next, Tiles.nil]⟩

/-- Planned legs tile the request and planning ends: over any view and from any
block, it stops after at most two legs more than there are places above the start
where the fleet changes, and until then it has served exactly the blocks up to
where it stops. -/
theorem legs_tile_request (p : Planning) (sh : Shape) (start : Fin (2 ^ 32)) :
    let places := ((p.view.changePoints p.now).filter fun b => start < b).dedup.length
    ∃ legs stop step, p.plan sh (places + 3) start = (legs, some step) ∧
      legs.length ≤ places + 2 ∧
      Tiles start legs stop ∧
      (legs.Pairwise fun earlier later => earlier.reqEnd ≤ later.start) ∧
      p.nextStep sh stop = step ∧ (∀ leg, step ≠ .serve leg) ∧
      (∀ n, (∃ leg ∈ legs, leg.start ≤ n ∧ n < leg.reqEnd) ↔ start ≤ n ∧ n < stop) ∧
      (step = .done → ∀ n, (∃ leg ∈ legs, leg.start ≤ n ∧ n < leg.reqEnd) ↔
        start ≤ n ∧ n < sh.end) := by
  intro places
  obtain ⟨stop, tiles, planned, last⟩ := p.plan_tiles sh (places + 3) start
  have short : (p.plan sh (places + 3) start).1.length ≤ places + 2 := by
    have ends : (p.plan sh (places + 3) start).1.map ServeStep.reqEnd ⊆
        ((p.view.changePoints p.now).filter fun b => start < b).dedup
          ++ sh.end :: ((p.gate sh).map fun gate => nextBlock gate.num).toList := by
      intro b member
      obtain ⟨leg, isLeg, rfl⟩ := List.mem_map.mp member
      obtain ⟨above, nonempty⟩ := tiles.start_le leg isLeg
      rcases Planning.reqEnd_cases (planned leg isLeg) with point | asked | ⟨gate, behind, ends⟩
      · have after := above.trans_lt nonempty
        exact List.mem_append_left _ (by simp [point, after])
      · simp [asked]
      · rw [Option.mem_def] at behind
        simp [behind, ends]
    have bounded := (List.subperm_of_subset tiles.nodup_reqEnd ends).length_le
    have gates : ((p.gate sh).map fun gate => nextBlock gate.num).toList.length ≤ 1 := by
      cases p.gate sh <;> simp
    simp only [List.length_map, List.length_append, List.length_cons] at bounded
    omega
  cases result : p.plan sh (places + 3) start with
  | mk legs ended =>
      rw [result] at tiles planned last short
      cases ended with
      | none =>
          simp only at last short
          omega
      | some step =>
          obtain ⟨stopped, isEnd⟩ := last
          refine ⟨legs, stop, step, rfl, short, tiles, tiles.disjoint, stopped, isEnd,
            tiles.blocks, ?_⟩
          intro finished n
          have past : sh.end ≤ stop := Planning.end_le_of_done (stopped.trans finished)
          have within := tiles.stop_le fun leg isLeg =>
            (Planning.nextStep_bounded (planned leg isLeg)).2.asked
          rw [tiles.blocks n]
          constructor
          · rintro ⟨above, before⟩
            rcases lt_max_iff.mp (before.trans_le within) with early | before
            · exact absurd early (not_lt.mpr above)
            · exact ⟨above, before⟩
          · exact fun inside => ⟨inside.1, inside.2.trans_le past⟩

/-! ## Coverage gaps -/

namespace LogCoverage

variable {c : LogCoverage} {n start : Fin (2 ^ 32)}

theorem has_of_mem {r : Range} (member : r ∈ c.components) (inside : n ∈ r) : c.has n := by
  simp only [has, Bool.or_eq_true, any_contains]
  exact .inr ⟨r, member, inside⟩

/-- A block the coverage has is above the live tail or in a component. -/
theorem has_cases (known : c.has n) :
    (∃ begin ∈ c.liveTailBegin, begin ≤ n) ∨ ∃ r ∈ c.components, n ∈ r := by
  simp only [has, Bool.or_eq_true, any_contains] at known
  refine known.imp_left fun reached => ?_
  obtain ⟨begin, tail, below⟩ := (Option.any_eq_true _ _).mp reached
  exact ⟨begin, tail, of_decide_eq_true below⟩

theorem has_of_tail {begin : Fin (2 ^ 32)} (tail : begin ∈ c.liveTailBegin) (above : begin ≤ n) :
    c.has n := by
  simp only [has, Bool.or_eq_true]
  exact .inl ((Option.any_eq_true _ _).mpr ⟨begin, tail, by simpa using above⟩)

/-- Where the planner sees a hole there are blocks below and above it, and only
there. -/
theorem hole_iff (separated : Separated c.components)
    (top_last : c.top = c.components.getLast?.getD ⟨0, 0⟩) (outside : ¬c.has start) :
    (∃ first ∈ c.components.head?, first.begin ≤ start) ∧
        (start < c.top.end ∨ c.liveTailBegin.isSome) ↔
      (∃ n < start, c.has n) ∧ ∃ n > start, c.has n := by
  have notIn {r : Range} (member : r ∈ c.components) : start ∉ r := fun inside =>
    outside (has_of_mem member inside)
  have begins {r : Range} (member : r ∈ c.components) : c.has r.begin :=
    has_of_mem member ⟨le_rfl, separated.nonempty r member⟩
  constructor
  · rintro ⟨⟨first, isFirst, below⟩, above⟩
    have member := List.mem_of_mem_head? isFirst
    have known := begins member
    refine ⟨⟨first.begin, lt_of_le_of_ne below ?_, known⟩, ?_⟩
    · rintro same
      exact outside (same ▸ known)
    rcases above with inside | tailed
    · obtain ⟨last, isLast⟩ : ∃ last, c.components.getLast? = some last := by
        cases components : c.components.getLast? with
        | none => simp [List.getLast?_eq_none_iff.mp components] at member
        | some last => exact ⟨last, rfl⟩
      have member := List.mem_of_getLast? isLast
      rw [top_last, isLast, Option.getD_some] at inside
      refine ⟨last.begin, ?_, begins member⟩
      by_contra before
      exact notIn member ⟨not_lt.mp before, inside⟩
    · obtain ⟨begin, tail⟩ := Option.isSome_iff_exists.mp tailed
      refine ⟨begin, ?_, has_of_tail tail le_rfl⟩
      by_contra before
      exact outside (has_of_tail tail (not_lt.mp before))
  · rintro ⟨⟨low, below, lowKnown⟩, high, above, highKnown⟩
    constructor
    · rcases has_cases lowKnown with ⟨begin, tail, reached⟩ | ⟨r, member, inside⟩
      · exact absurd (has_of_tail tail (reached.trans below.le)) outside
      · cases components : c.components with
        | nil => simp [components] at member
        | cons first rest =>
            refine ⟨first, rfl, ?_⟩
            have isFirst : first ∈ c.components.head? := by simp [components]
            exact (separated.begin_head_le isFirst member).trans (inside.1.trans below.le)
    · rcases has_cases highKnown with ⟨begin, tail, -⟩ | ⟨r, member, inside⟩
      · exact .inr (Option.isSome_of_mem tail)
      · left
        cases components : c.components.getLast? with
        | none => simp [List.getLast?_eq_none_iff.mp components] at member
        | some last =>
            rw [top_last, components, Option.getD_some]
            exact above.trans (inside.2.trans_le (separated.end_le_getLast components member))

end LogCoverage

/-- The part of an upstream that coverage depends on. -/
def UpstreamView.ranges (u : UpstreamView) : Bool × Bool × Role × Range × Range × Range :=
  (u.enabled, u.known, u.role, u.trace, u.chainState, u.finality)

/-- The hole the planner closes a client for: nobody knows the block, blocks below
and above it are known, and no archive is still silent. -/
structure FleetView.HoleAt (v : FleetView) (n : Fin (2 ^ 32)) : Prop where
  unknown : ¬v.Knows fun u => u.coversIds n
  below : ∃ m < n, v.Knows fun u => u.coversIds m
  above : ∃ m > n, v.Knows fun u => u.coversIds m
  reported : ¬∃ u ∈ v.upstreams, u.enabled ∧ u.role = .frozen ∧ u.known = false

theorem FleetView.Sticky.knows_iff (sticky : v.Sticky) (n : Fin (2 ^ 32)) :
    v.Knows (fun u => u.coversIds n) ↔ v.ids.has n := (sticky.ids_has_iff n).symm

theorem FleetView.Sticky.frozenUnknown_eq_zero (sticky : v.Sticky) :
    v.frozenUnknown = 0 ↔ ¬∃ u ∈ v.upstreams, u.enabled ∧ u.role = .frozen ∧ u.known = false := by
  rw [sticky.frozenUnknown_eq, List.length_eq_zero_iff, List.filter_eq_nil_iff]
  simp only [Bool.and_eq_true, decide_eq_true_eq, Bool.not_eq_true', not_exists, not_and,
    and_imp]

/-- Off the coverage the answer does not look at the upstreams. -/
theorem Planning.nextStep_of_unknown (open_ : start < sh.end) (reached : p.below start = false)
    (unknown : p.view.ids.has start = false) :
    p.nextStep sh start =
      if p.view.idsBegin.isNone || (p.view.ids.top.end ≤ start && p.view.ids.liveTailBegin.isNone)
        then .wait start
      else if 0 < p.view.frozenUnknown then .hold start .offline true
      else .gap start := by
  simp only [nextStep, open_.not_ge, if_false, reached, unknown, Bool.not_false, Bool.and_self,
    if_true]

/-- A block that some candidate may serve is no gap. -/
theorem Planning.nextStep_ne_gap
    (known : p.below start = true ∨ p.view.ids.has start = true) (block : Fin (2 ^ 32)) :
    p.nextStep sh start ≠ .gap block := by
  intro gap
  have covered : (!p.below start && !p.view.ids.has start) = false := by
    rcases known with known | known <;> simp [known]
  simp only [nextStep, covered, Bool.false_eq_true, if_false] at gap
  repeat' split at gap
  all_goals cases gap

/-- How the planner tells a gap from the ids coverage. -/
theorem Planning.gap_iff_of_unknown
    (open_ : start < sh.end) (unknown : p.view.ids.has start = false) :
    (∃ block, p.nextStep sh start = .gap block) ↔
      ((∃ first ∈ p.view.ids.components.head?, first.begin ≤ start) ∧
        (start < p.view.ids.top.end ∨ p.view.ids.liveTailBegin.isSome)) ∧
          p.view.frozenUnknown = 0 := by
  cases below : p.below start with
  | true =>
      obtain ⟨first, isFirst, ahead⟩ := (Option.any_eq_true _ _).mp below
      obtain ⟨r, isHead, rfl⟩ := Option.map_eq_some_iff.mp isFirst
      simp only [nextStep_ne_gap (.inl below), exists_false, isHead, Option.mem_def,
        Option.some.injEq, exists_eq_left', false_iff, not_and]
      exact fun reached => absurd reached.1 (not_le.mpr (of_decide_eq_true ahead))
  | false =>
      rw [nextStep_of_unknown open_ below unknown]
      cases components : p.view.ids.components.head? with
      | none => simp [FleetView.idsBegin, components]
      | some first =>
          have reached : first.begin ≤ start := by
            simpa [Planning.below, FleetView.idsBegin, components] using below
          by_cases silent : p.view.frozenUnknown = 0 <;>
            by_cases past : p.view.ids.top.end ≤ start <;>
              cases tail : p.view.ids.liveTailBegin <;>
                simp [FleetView.idsBegin, components, reached, silent, past, ← not_le]

/-- The planner answers a gap exactly at a hole. -/
theorem FleetView.Sticky.gap_iff (sticky : p.view.Sticky) (open_ : start < sh.end) :
    (∃ block, p.nextStep sh start = .gap block) ↔ p.view.HoleAt start := by
  have parts := exact_coverageOf p.view Log.all
  rw [← sticky.ids_eq] at parts
  by_cases known : p.view.ids.has start
  · constructor
    · rintro ⟨block, gap⟩
      exact absurd gap (Planning.nextStep_ne_gap (.inr known) block)
    · exact fun hole => absurd ((sticky.knows_iff start).mpr known) hole.unknown
  · rw [Planning.gap_iff_of_unknown open_ (by simpa using known),
      LogCoverage.hole_iff parts.components_separated parts.top_last known,
      sticky.frozenUnknown_eq_zero]
    constructor
    · rintro ⟨⟨below, above⟩, reported⟩
      simp only [← sticky.knows_iff] at below above known
      exact ⟨known, below, above, reported⟩
    · rintro ⟨-, below, above, reported⟩
      simp only [sticky.knows_iff] at below above
      exact ⟨⟨below, above⟩, reported⟩

/-- What an upstream knows is in its ranges. -/
theorem coversIds_of_ranges {u w : UpstreamView} (same : w.ranges = u.ranges) :
    w.enabled = u.enabled ∧ w.known = u.known ∧ w.role = u.role ∧
      ∀ n, w.coversIds n = u.coversIds n := by
  simp only [UpstreamView.ranges, Prod.mk.injEq] at same
  obtain ⟨enabled, known, role, trace, chainState, finality⟩ := same
  have range (log : Log) : w.range log = u.range log := by
    cases log <;> simp [UpstreamView.range, trace, chainState, finality]
  refine ⟨enabled, known, role, fun n => ?_⟩
  simp only [UpstreamView.coversIds, UpstreamView.covers, role, range]

theorem holeAt_of_ranges {v v' : FleetView} {n : Fin (2 ^ 32)}
    (same : v'.upstreams.map UpstreamView.ranges = v.upstreams.map UpstreamView.ranges)
    (hole : v.HoleAt n) : v'.HoleAt n := by
  have twin {a b : FleetView}
      (same : b.upstreams.map UpstreamView.ranges = a.upstreams.map UpstreamView.ranges)
      {u : UpstreamView} (listed : u ∈ a.upstreams) : ∃ w ∈ b.upstreams, w.ranges = u.ranges := by
    have mapped : u.ranges ∈ b.upstreams.map UpstreamView.ranges :=
      same ▸ List.mem_map_of_mem listed
    exact List.mem_map.mp mapped
  have knows {a b : FleetView}
      (same : b.upstreams.map UpstreamView.ranges = a.upstreams.map UpstreamView.ranges)
      {m : Fin (2 ^ 32)} (known : a.Knows fun u => u.coversIds m) :
      b.Knows fun u => u.coversIds m := by
    obtain ⟨u, listed, enabled, usable, covered⟩ := known
    obtain ⟨w, listed', equal⟩ := twin same listed
    obtain ⟨isEnabled, isKnown, -, covers⟩ := coversIds_of_ranges equal
    exact ⟨w, listed', isEnabled.trans enabled, isKnown.trans usable, (covers m).trans covered⟩
  refine ⟨fun known => hole.unknown (knows same.symm known), ?_, ?_, ?_⟩
  · obtain ⟨m, below, known⟩ := hole.below
    exact ⟨m, below, knows same known⟩
  · obtain ⟨m, above, known⟩ := hole.above
    exact ⟨m, above, knows same known⟩
  · rintro ⟨u, listed, enabled, frozen, silent⟩
    obtain ⟨w, listed', equal⟩ := twin same.symm listed
    obtain ⟨isEnabled, isKnown, role, -⟩ := coversIds_of_ranges equal
    exact hole.reported ⟨w, listed', isEnabled.trans enabled, role.trans frozen,
      isKnown.trans silent⟩

/-- Above everything a fleet without live ranges has, the planner waits. -/
theorem FleetView.Sticky.waits_at_top (sticky : p.view.Sticky) (open_ : start < sh.end)
    (archived : ∀ u ∈ p.view.upstreams, u.enabled → u.known → u.role = .live →
      ∀ log, u.hasLog log = false)
    (top : ∀ n, p.view.Knows (fun u => u.coversIds n) → n < start) :
    p.nextStep sh start = .wait start := by
  have parts := exact_coverageOf p.view Log.all
  rw [← sticky.ids_eq] at parts
  have below_start {n : Fin (2 ^ 32)} (known : p.view.ids.has n) : n < start :=
    top n ((sticky.knows_iff n).mpr known)
  have begins {r : Range} (member : r ∈ p.view.ids.components) : p.view.ids.has r.begin :=
    LogCoverage.has_of_mem member ⟨le_rfl, parts.components_separated.nonempty r member⟩
  have unknown : p.view.ids.has start = false := by
    by_contra known
    exact lt_irrefl _ (below_start (by simpa using known))
  have reached : p.below start = false := by
    by_contra below
    rw [Bool.not_eq_false] at below
    obtain ⟨first, isFirst, ahead⟩ := (Option.any_eq_true _ _).mp below
    obtain ⟨r, isHead, rfl⟩ := Option.map_eq_some_iff.mp isFirst
    have early := below_start (begins (List.mem_of_mem_head? isHead))
    exact absurd early (not_lt.mpr (of_decide_eq_true ahead).le)
  have untailed : p.view.ids.liveTailBegin = none := by
    cases tail : p.view.ids.liveTailBegin with
    | none => rfl
    | some begin =>
        rw [sticky.ids_eq] at tail
        obtain ⟨u, listed, live, log, -, covered⟩ := any_tailOf.mp
          ((Option.any_eq_true _ _).mpr ⟨begin, tail, decide_eq_true le_rfl⟩)
        obtain ⟨listed, counts⟩ := List.mem_filter.mp listed
        obtain ⟨enabled, known⟩ := Bool.and_eq_true_iff.mp counts
        have present := ((UpstreamView.covers_live live).mp covered).1
        simp [archived u listed enabled known live log] at present
  have past : p.view.ids.top.end ≤ start := by
    rw [parts.top_last]
    cases last : p.view.ids.components.getLast? with
    | none => exact Fin.zero_le _
    | some r =>
        have member := List.mem_of_getLast? last
        by_contra inside
        have has := LogCoverage.has_of_mem member
          ⟨(below_start (begins member)).le, not_le.mp inside⟩
        simp [unknown] at has
  rw [Planning.nextStep_of_unknown open_ reached unknown]
  simp [untailed, past]

/-- A client is closed for a coverage gap exactly when there is one: over a view a
build returned, the answer is a gap where nobody knows the block, blocks below and
above it are known and no archive is silent.  So it depends on the ranges of the
upstreams alone; and above the last archived block of a fleet without live ranges
the planner waits. -/
theorem gap_exactly_at_hole {p : Planning} {sh : Shape} {start : Fin (2 ^ 32)}
    (isBuild : p.view.IsBuild) (open_ : start < sh.end) :
    ((∃ block, p.nextStep sh start = .gap block) ↔ p.view.HoleAt start) ∧
      (∀ (p' : Planning) (sh' : Shape), p'.view.IsBuild → start < sh'.end →
        p'.view.upstreams.map UpstreamView.ranges = p.view.upstreams.map UpstreamView.ranges →
        ((∃ block, p'.nextStep sh' start = .gap block) ↔
          ∃ block, p.nextStep sh start = .gap block)) ∧
      ((∀ u ∈ p.view.upstreams, u.enabled → u.known → u.role = .live →
          ∀ log, u.hasLog log = false) →
        (∀ n, p.view.Knows (fun u => u.coversIds n) → n < start) →
        p.nextStep sh start = .wait start) := by
  have sticky := isBuild.sticky
  refine ⟨sticky.gap_iff open_, ?_, sticky.waits_at_top open_⟩
  intro p' sh' isBuild' open' same
  rw [isBuild'.sticky.gap_iff open', sticky.gap_iff open_]
  exact ⟨holeAt_of_ranges same.symm, holeAt_of_ranges same⟩

/-- Two archives with a hole between them. -/
def splitMap : StateMap where
  entries := [("low", archiveServer 0 1 100), ("high", archiveServer 1 120 150)]
  nodup := by decide
  distinct := by decide

theorem gap_exactly_at_hole_sample :
    let view := (buildView sampleCtx splitMap [] (.new 0) 0).1
    ({ samplePlanning with view }).nextStep sampleShape 110 = .gap 110 ∧ view.HoleAt 110 := by
  intro view
  have gap : ({ samplePlanning with view }).nextStep sampleShape 110 = .gap 110 := by
    decide +kernel
  have isBuild : view.IsBuild := ⟨sampleCtx, splitMap, [], .new 0, 0, rfl⟩
  exact ⟨gap, (gap_exactly_at_hole (p := { samplePlanning with view }) isBuild
    (by decide)).1.mp ⟨110, gap⟩⟩

end FleetRouter.Fleet
