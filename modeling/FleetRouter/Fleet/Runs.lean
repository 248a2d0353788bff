import FleetRouter.Lib.ChangePoints
import FleetRouter.Fleet.Build
import FleetRouter.Fleet.Planner

/-!
# Where a run ends

`runEnd` looks at breakpoints only.  In a view that a build returned,
eligibility changes at breakpoints and nowhere else, so the end it finds is the
one a scan of every block would find.
-/

namespace FleetRouter.Fleet

open Ship Session ChangePoints

/-! ## Where eligibility changes -/

/-- The begins of an upstream's logs, and the ends of a frozen one's. -/
def UpstreamView.bounds (w : UpstreamView) : List (Fin (2 ^ 32)) :=
  w.logs.flatMap fun log =>
    (w.range log).begin :: if w.role = .frozen then [(w.range log).end] else []

theorem UpstreamView.begin_mem_bounds {w : UpstreamView} {log : Log} (present : w.hasLog log) :
    (w.range log).begin ∈ w.bounds := by
  refine List.mem_flatMap.mpr ⟨log, ?_, by simp⟩
  simpa [logs] using present

theorem UpstreamView.end_mem_bounds {w : UpstreamView} {log : Log} (present : w.hasLog log)
    (frozen : w.role = .frozen) : (w.range log).end ∈ w.bounds := by
  refine List.mem_flatMap.mpr ⟨log, ?_, by simp [frozen]⟩
  simpa [logs] using present

/-- What an upstream covers changes at the bounds of its logs. -/
theorem UpstreamView.changes_covers (w : UpstreamView) (log : Log) :
    ChangesAt w.bounds fun n => w.covers log n := by
  by_cases present : w.hasLog log
  · have begins := ChangesAt.le (begin_mem_bounds present)
    cases role : w.role with
    | live =>
        have covers := (ChangesAt.const w.bounds (decide (0 < (w.range log).end))).map₂ begins and
        simpa only [UpstreamView.covers, role] using covers
    | frozen =>
        have covers := begins.map₂ (ChangesAt.lt (end_mem_bounds present role)) and
        simpa only [UpstreamView.covers, role, Range.contains] using covers
  · have nothing (n : Fin (2 ^ 32)) : w.covers log n = false := by
      cases role : w.role <;>
        simp only [hasLog, role, Range.isEmpty, Bool.not_eq_true', decide_eq_false_iff_not,
          decide_eq_true_eq, not_not, covers, Range.contains, Bool.and_eq_false_iff] at present ⊢
      · exact .inl present
      · by_cases below : (w.range log).begin ≤ n
        · exact .inr (not_lt.mpr (present.trans below))
        · exact .inl below
    simpa only [nothing] using ChangesAt.const w.bounds false

theorem UpstreamView.changes_coversIds (w : UpstreamView) :
    ChangesAt w.bounds fun n => w.coversIds n :=
  ChangesAt.any fun log _ => w.changes_covers log

/-- Quarantine changes at the bounds of the active ones. -/
theorem UpstreamView.changes_quarantinedAt (u : UpstreamView) (now : Nat) :
    ChangesAt (quarantineBounds u now) fun n => u.quarantinedAt n now := by
  refine ChangesAt.any fun q held => ?_
  cases active : q.active now with
  | false => simpa using ChangesAt.const (quarantineBounds u now) false
  | true =>
      have bound {b : Fin (2 ^ 32)} (isBound : b ∈ q.block :: q.stop.toList) :
          b ∈ quarantineBounds u now :=
        List.mem_flatMap.mpr ⟨q, List.mem_filter.mpr ⟨held, active⟩, isBound⟩
      have begins := ChangesAt.le (bound (by simp : q.block ∈ _))
      cases stop : q.stop with
      | none => simpa [BlockQuarantine.covers, stop] using begins
      | some stop' =>
          have ends := ChangesAt.lt (bound (by simp [stop] : stop' ∈ _))
          simpa [BlockQuarantine.covers, stop] using begins.map₂ ends and

section Breakpoints

variable {v : FleetView} {u w : UpstreamView} {now : Nat}

theorem bounds_subset_breakpoints (listed : w ∈ v.upstreams) (enabled : w.enabled)
    (known : w.known) : w.bounds ⊆ breakpoints v u now := by
  intro b member
  have counted : w ∈ v.upstreams.filter fun w => w.enabled && w.known :=
    List.mem_filter.mpr ⟨listed, by simp [enabled, known]⟩
  exact List.mem_append_left _ (List.mem_append_left _
    (List.mem_flatMap.mpr ⟨w, counted, member⟩))

theorem quarantineBounds_subset_breakpoints :
    quarantineBounds u now ⊆ breakpoints v u now := by
  intro b member
  exact List.mem_append_left _ (List.mem_append_right _ member)

/-- What the fleet covers changes at breakpoints. -/
theorem FleetView.Sticky.changes_has (sticky : v.Sticky) (log : Log) :
    ChangesAt (breakpoints v u now) fun n => (v.cov log).has n := by
  have union (n : Fin (2 ^ 32)) : (v.cov log).has n =
      (v.upstreams.filter UpstreamView.counts).any fun w => w.covers log n := by
    rw [Bool.eq_iff_iff, sticky.has_iff]
    simp [UpstreamView.counts, and_assoc]
  simp only [union]
  refine ChangesAt.any fun w member => ?_
  obtain ⟨listed, counts⟩ := List.mem_filter.mp member
  obtain ⟨enabled, known⟩ := Bool.and_eq_true_iff.mp counts
  exact (w.changes_covers log).mono (bounds_subset_breakpoints listed enabled known)

/-- Whether an upstream may serve a block changes at its breakpoints. -/
theorem FleetView.Sticky.changes_eligible (sticky : v.Sticky) (listed : u ∈ v.upstreams)
    (need : Need) (now : Nat) :
    ChangesAt (breakpoints v u now) fun n => eligible v u need n .sticky now := by
  by_cases usable : u.routable ∧ u.known ∧ u.abiOk
  · obtain ⟨routable, known, -⟩ := usable
    have enabled : u.enabled := (Bool.and_eq_true_iff.mp routable).1
    have own : u.bounds ⊆ breakpoints v u now := bounds_subset_breakpoints listed enabled known
    intro m n ordered clear
    have quarantine := (u.changes_quarantinedAt now).mono
      (quarantineBounds_subset_breakpoints (v := v)) m n ordered clear
    have ids := u.changes_coversIds.mono own m n ordered clear
    have covers (log : Log) := (u.changes_covers log).mono own m n ordered clear
    have has (log : Log) := sticky.changes_has log m n ordered clear
    simp only [eligible, eligibleWith, unionHas, quarantine, ids, covers, has]
    rfl
  · have nothing (n : Fin (2 ^ 32)) : eligible v u need n .sticky now = false := by
      simp only [eligible, eligibleWith]
      grind
    simpa only [nothing] using ChangesAt.const (breakpoints v u now) false

end Breakpoints

/-! ## The scan -/

/-- Past its first point, what changes at the points changes at the rest. -/
theorem changes_rest {start b : Fin (2 ^ 32)} {p : Fin (2 ^ 32) → Bool}
    {rest : List (Fin (2 ^ 32))} (after : start < b)
    (changes : ∀ m n, start ≤ m → m ≤ n → (∀ c ∈ b :: rest, c ≤ m ∨ n < c) → p m = p n)
    (m n : Fin (2 ^ 32)) (above : b ≤ m) (ordered : m ≤ n)
    (clear : ∀ c ∈ rest, c ≤ m ∨ n < c) : p m = p n := by
  refine changes m n (after.le.trans above) ordered fun c member => ?_
  rcases List.mem_cons.mp member with rfl | member
  · exact .inl above
  · exact clear c member

/-- A predicate that changes at the points, and that stops the scan where it
holds, holds nowhere before the end of the scan. -/
theorem scanRun_avoids {cap start : Fin (2 ^ 32)} {stops p : Fin (2 ^ 32) → Bool}
    {points : List (Fin (2 ^ 32))} (sorted : (start :: points).Pairwise (· < ·))
    (changes : ∀ m n, start ≤ m → m ≤ n → (∀ b ∈ points, b ≤ m ∨ n < b) → p m = p n)
    (stopping : ∀ b, p b → stops b) (clear : p start = false) {n : Fin (2 ^ 32)}
    (above : start ≤ n) (before : n < scanRun cap stops points) : p n = false := by
  induction points generalizing start with
  | nil => rw [← changes start n le_rfl above (by simp), clear]
  | cons b rest ih =>
      obtain ⟨first, sorted⟩ := List.pairwise_cons.mp sorted
      rcases lt_or_ge n b with early | late
      · have none_met : ∀ c ∈ b :: rest, c ≤ start ∨ n < c := by
          intro c member
          rcases List.mem_cons.mp member with rfl | member
          · exact .inr early
          · exact .inr (early.trans ((List.pairwise_cons.mp sorted).1 c member))
        rw [← changes start n le_rfl above none_met, clear]
      · rw [scanRun] at before
        split at before
        · rename_i past
          exact absurd before (not_lt.mpr (past.trans late))
        · split at before
          · exact absurd before (not_lt.mpr late)
          · rename_i going
            exact ih sorted (changes_rest (first b (by simp)) changes)
              (by simpa using mt (stopping b) going) late before

/-- The same from any point of the scan on, wherever the scan began. -/
theorem scanRun_avoids_from {cap start first : Fin (2 ^ 32)} {stops p : Fin (2 ^ 32) → Bool}
    {points : List (Fin (2 ^ 32))} (sorted : (start :: points).Pairwise (· < ·))
    (changes : ∀ m n, start ≤ m → m ≤ n → (∀ b ∈ points, b ≤ m ∨ n < b) → p m = p n)
    (stopping : ∀ b, p b → stops b) (member : first ∈ points) {n : Fin (2 ^ 32)}
    (above : first ≤ n) (before : n < scanRun cap stops points) : p n = false := by
  induction points generalizing start with
  | nil => cases member
  | cons b rest ih =>
      obtain ⟨after, sorted⟩ := List.pairwise_cons.mp sorted
      have reached : b ≤ first := by
        rcases List.mem_cons.mp member with rfl | member
        · exact le_rfl
        · exact ((List.pairwise_cons.mp sorted).1 first member).le
      have later := changes_rest (after b (by simp)) changes
      rw [scanRun] at before
      split at before
      · rename_i past
        exact absurd before (not_lt.mpr (past.trans (reached.trans above)))
      · split at before
        · exact absurd before (not_lt.mpr (reached.trans above))
        · rename_i going
          rcases List.mem_cons.mp member with rfl | member
          · exact scanRun_avoids sorted later stopping
              (by simpa using mt (stopping first) going) above before
          · exact ih sorted later member before

/-- A scan ends at its cap, or at a point where it stops. -/
theorem scanRun_cases (cap : Fin (2 ^ 32)) (stops : Fin (2 ^ 32) → Bool)
    (points : List (Fin (2 ^ 32))) :
    scanRun cap stops points = cap ∨
      scanRun cap stops points ∈ points ∧ stops (scanRun cap stops points) := by
  fun_induction scanRun cap stops points <;> grind

theorem runStops_of_ineligible {v : FleetView} {u : UpstreamView} {need : Need} {now : Nat}
    (b : Fin (2 ^ 32)) (ineligible : (!eligible v u need b .sticky now) = true) :
    runStops v u need now b = true := by
  simp [runStops, ineligible]

theorem sorted_runPoints (v : FleetView) (u : UpstreamView) (need : Need)
    (start : Fin (2 ^ 32)) (now : Nat) :
    (start :: runPoints v u need start now).Pairwise (· < ·) := by
  refine List.pairwise_cons.mpr ⟨fun b member => (mem_runPoints.mp member).2, ?_⟩
  have sorted := (List.pairwise_insertionSort (· ≤ ·)
    ((breakpoints v u now ++ otherBounds v u need now).filter fun b => start < b)).sublist
      (List.dedup_sublist _)
  exact sorted.imp₂ (fun _ _ ordered differs => lt_of_le_of_ne ordered differs)
    (List.nodup_dedup _)

/-- The points above the start see every change a breakpoint sees. -/
theorem changes_above {v : FleetView} {u : UpstreamView} {need : Need} {now : Nat}
    {p : Fin (2 ^ 32) → Bool} {start : Fin (2 ^ 32)}
    (changes : ChangesAt (breakpoints v u now ++ otherBounds v u need now) p)
    (m n : Fin (2 ^ 32)) (above : start ≤ m) (ordered : m ≤ n)
    (clear : ∀ b ∈ runPoints v u need start now, b ≤ m ∨ n < b) : p m = p n := by
  refine changes m n ordered fun b member => ?_
  rcases le_or_gt b start with below | after
  · exact .inl (below.trans above)
  · exact clear b (mem_runPoints.mpr ⟨List.mem_append.mp member, after⟩)

/-- A holder that could take the stream appears and goes at the scanned points. -/
theorem FleetView.Sticky.changes_runStops {v : FleetView} {u : UpstreamView}
    (sticky : v.Sticky) (listed : u ∈ v.upstreams) (need : Need) (now : Nat) :
    ChangesAt (breakpoints v u now ++ otherBounds v u need now) (runStops v u need now) := by
  have own := (sticky.changes_eligible listed need now).mono
    (List.subset_append_left _ (otherBounds v u need now))
  cases yields : need.block && u.noBlockLog with
  | false =>
      have stops : runStops v u need now = fun n => !eligible v u need n .sticky now := by
        funext n
        simp [runStops, yields]
      rw [stops]
      exact own.map Bool.not
  | true =>
      have holders : ChangesAt (breakpoints v u now ++ otherBounds v u need now)
          fun n => v.upstreams.any (holderAt v u need now n) := by
        refine ChangesAt.any fun w member => ?_
        by_cases other : w.index = u.index
        · have nothing (n : Fin (2 ^ 32)) : holderAt v u need now n w = false := by
            simp [holderAt, other]
          simpa only [nothing] using ChangesAt.const _ false
        · have scanned : breakpoints v w now ⊆
              breakpoints v u now ++ otherBounds v u need now := by
            intro b isPoint
            have bound (isBound : b ∈ quarantineBounds w now) :
                b ∈ otherBounds v u need now := by
              rw [otherBounds, yields, if_pos rfl]
              exact List.mem_flatMap.mpr ⟨w, by simp [member, other], isBound⟩
            simp only [breakpoints, List.mem_append] at isPoint ⊢
            tauto
          exact ((sticky.changes_eligible member need now).mono scanned).map fun served =>
            w.index ≠ u.index && !w.noBlockLog && w.online && !w.atCapacity && served
      exact own.map₂ holders fun served yielding =>
        !served || (need.block && u.noBlockLog) && yielding

/-! ## The end of a run -/

section RunEnd

variable {v : FleetView} {u : UpstreamView} (sticky : v.Sticky) (listed : u ∈ v.upstreams)
  (need : Need) (now : Nat)

include sticky listed

theorem FleetView.Sticky.changes_ineligible {start : Fin (2 ^ 32)} :
    ∀ m n, start ≤ m → m ≤ n → (∀ b ∈ runPoints v u need start now, b ≤ m ∨ n < b) →
      (!eligible v u need m .sticky now) = !eligible v u need n .sticky now :=
  changes_above (((sticky.changes_eligible listed need now).mono
    (List.subset_append_left _ _)).map Bool.not)

/-- An upstream that may serve the first block may serve the whole run. -/
theorem FleetView.Sticky.eligible_of_lt_runEnd {start n : Fin (2 ^ 32)}
    (served : eligible v u need start .sticky now) (above : start ≤ n)
    (before : n < runEnd v u need start now) : eligible v u need n .sticky now := by
  have avoided := scanRun_avoids (sorted_runPoints v u need start now)
    (sticky.changes_ineligible listed need now) runStops_of_ineligible (by simp [served]) above
    before
  simpa using avoided

/-- So it may behind any breakpoint above the start. -/
theorem FleetView.Sticky.eligible_from_breakpoint {start first n : Fin (2 ^ 32)}
    (point : first ∈ breakpoints v u now) (after : start < first) (above : first ≤ n)
    (before : n < runEnd v u need start now) : eligible v u need n .sticky now := by
  have avoided := scanRun_avoids_from (sorted_runPoints v u need start now)
    (sticky.changes_ineligible listed need now) runStops_of_ineligible
    (mem_runPoints.mpr ⟨.inl point, after⟩) above before
  simpa using avoided

/-- The run ends at the first block above its start where it stops. -/
theorem FleetView.Sticky.firstAbove_runEnd {start : Fin (2 ^ 32)}
    (going : runStops v u need now start = false) :
    FirstAbove (fun n => runStops v u need now n = true) start (runCap u)
      (runEnd v u need start now) where
  capped := runEnd_le_runCap v u need start now
  before n above before := by
    have avoided := scanRun_avoids (sorted_runPoints v u need start now)
      (changes_above (sticky.changes_runStops listed need now)) (fun _ stops => stops) going
      above.le before
    simp [avoided]
  stop short := by
    rcases scanRun_cases (runCap u) (runStops v u need now)
        (runPoints v u need start now) with capped | ⟨member, stops⟩
    · exact absurd capped short.ne
    · exact ⟨(mem_runPoints.mp member).2, stops⟩

end RunEnd

/-- In a view a build returned, the end of a run is the one a scan of every block
finds: the first block above the start at which the upstream is not eligible, or
at which an archive without a block log can yield to an upstream that holds
blocks, capped at the archive's own end. -/
theorem runEnd_scans_blocks {v : FleetView} {u : UpstreamView} (isBuild : v.IsBuild)
    (listed : u ∈ v.upstreams) (need : Need) (start : Fin (2 ^ 32)) (now : Nat)
    (served : eligible v u need start .sticky now) :
    (∀ n, start ≤ n → n < runEnd v u need start now → eligible v u need n .sticky now) ∧
      (u.role = .frozen ∧ (∃ n, start ≤ n ∧ u.coversIds n) ∨
          u.role = .live ∧ start.val < u32Max → start < runEnd v u need start now) ∧
      (u.role = .frozen → runEnd v u need start now ≤ u.maxEnd) ∧
      ((need.block && u.noBlockLog) = false → ∀ e, runEnd v u need start now = e ↔
        FirstAbove (fun n => eligible v u need n .sticky now = false) start (runCap u) e) ∧
      ((need.block && u.noBlockLog) = true →
        (∀ w ∈ v.upstreams, holderAt v u need now start w = false) →
        ∀ e, runEnd v u need start now = e ↔
          FirstAbove (fun n => eligible v u need n .sticky now = false ∨
            ∃ w ∈ v.upstreams, holderAt v u need now n w) start (runCap u) e) := by
  have sticky := isBuild.sticky
  have capped := runEnd_le_runCap v u need start now
  have exact_of {stops : Fin (2 ^ 32) → Prop}
      (first : FirstAbove stops start (runCap u) (runEnd v u need start now))
      (e : Fin (2 ^ 32)) : runEnd v u need start now = e ↔ FirstAbove stops start (runCap u) e :=
    ⟨fun same => same ▸ first, fun other => first.unique other⟩
  refine ⟨fun n => sticky.eligible_of_lt_runEnd listed need now served, ?_, ?_, ?_, ?_⟩
  · rintro (⟨frozen, n, above, covered⟩ | ⟨live, room⟩)
    · have room := above.trans_lt (UpstreamView.lt_maxEnd_of_coversIds frozen covered)
      exact lt_runEnd v need now (by simpa [runCap, frozen] using room)
    · exact lt_runEnd v need now (by simpa [runCap, live, Fin.lt_def] using room)
  · intro frozen
    simpa [runCap, frozen] using capped
  · intro keeps
    have going : runStops v u need now start = false := by simp [runStops, served, keeps]
    have first := sticky.firstAbove_runEnd listed need now going
    exact exact_of (by simpa [runStops, keeps] using first)
  · intro yields alone
    have going : runStops v u need now start = false := by
      simpa [runStops, served, yields] using alone
    have first := sticky.firstAbove_runEnd listed need now going
    exact exact_of (by simpa [runStops, yields] using first)

/-- An archive of blocks 1 to 99 and a live node with blocks from 90 on. -/
def sampleMap : StateMap where
  entries := [("archive", archiveServer 0 1 100), ("live", liveServer 1 90 150 140)]
  nodup := by decide
  distinct := by decide

def sampleView : FleetView := (buildView sampleCtx sampleMap [] (.new 0) 0).1

theorem isBuild_sampleView : sampleView.IsBuild := ⟨sampleCtx, sampleMap, [], .new 0, 0, rfl⟩

def tracesOnly : Need := ⟨true, false, false, false⟩

theorem runEnd_scans_blocks_sample :
    ∃ u ∈ sampleView.upstreams, eligible sampleView u tracesOnly 10 .sticky 0 ∧
      runEnd sampleView u tracesOnly 10 0 = 100 ∧
      ∀ n : Fin (2 ^ 32), 10 ≤ n → n < 100 → eligible sampleView u tracesOnly n .sticky 0 := by
  obtain ⟨u, listed, served, ends⟩ : ∃ u ∈ sampleView.upstreams,
      eligible sampleView u tracesOnly 10 .sticky 0 ∧
        runEnd sampleView u tracesOnly 10 0 = 100 := by decide +kernel
  have whole := (runEnd_scans_blocks isBuild_sampleView listed tracesOnly 10 0 served).1
  exact ⟨u, listed, served, ends, ends ▸ whole⟩

/-- The live node covers the last block number there is, and its run from there
is empty. -/
theorem run_empty_at_last_block :
    ∃ v u, v.IsBuild ∧ u ∈ v.upstreams ∧ eligible v u tracesOnly ⟨u32Max, by decide⟩ .sticky 0 ∧
      (∃ n : Fin (2 ^ 32), ⟨u32Max, by decide⟩ ≤ n ∧ u.coversIds n) ∧
      ¬(⟨u32Max, by decide⟩ < runEnd v u tracesOnly ⟨u32Max, by decide⟩ 0) := by
  obtain ⟨u, listed, served, covered, empty⟩ : ∃ u ∈ sampleView.upstreams,
      eligible sampleView u tracesOnly ⟨u32Max, by decide⟩ .sticky 0 ∧
        u.coversIds ⟨u32Max, by decide⟩ ∧
        ¬(⟨u32Max, by decide⟩ < runEnd sampleView u tracesOnly ⟨u32Max, by decide⟩ 0) := by
    decide +kernel
  exact ⟨sampleView, u, isBuild_sampleView, listed, served, ⟨_, le_rfl, covered⟩, empty⟩

end FleetRouter.Fleet
