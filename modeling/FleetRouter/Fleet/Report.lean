import FleetRouter.Lib.Pieces
import FleetRouter.Config.Servers
import FleetRouter.Fleet.Build
import FleetRouter.Session.Status

/-!
# What a view reports of its coverage

The status reply gives one range for each log, stretched to a head that may be newer
than the view; the coverage report splits a log into segments, each with the upstreams
that have it.  Both speak of the blocks the upstreams of the view have, and of no others.
The configuration test also names the archived blocks that no archive's chain API has.
-/

namespace FleetRouter.Fleet

open Intervals Ship Session

/-- An upstream that counts has block `n` in its segment of the log. -/
def UpstreamView.Holds (u : UpstreamView) (log : Log) (head : Option BlockPos) (n : Fin (2 ^ 32)) :
    Prop :=
  u.enabled ∧ u.known ∧ ∃ seg, logSegment u log head = some seg ∧ n ∈ seg

theorem FleetView.inSegment_iff (v : FleetView) (log : Log) (n : Fin (2 ^ 32)) :
    v.InSegment [log] (fun _ => True) n ↔ ∃ u ∈ v.upstreams, u.Holds log v.head n := by
  simp [FleetView.InSegment, UpstreamView.Holds]

/-! ## Status -/

section Status

variable {v : FleetView} {c : LogCoverage} {log : Log}

/-- The live tail reaches a block when a live upstream covers it. -/
theorem FleetView.Sticky.tail_iff (sticky : v.Sticky) (n : Fin (2 ^ 32)) :
    ((v.cov log).liveTailBegin.any fun begin => begin ≤ n) = true ↔
      ∃ u ∈ v.upstreams, u.enabled ∧ u.known ∧ u.role = .live ∧ u.covers log n := by
  rw [sticky.cov_eq log]
  simp only [coverageOf, coverage, any_tailOf, List.mem_filter, UpstreamView.counts,
    Bool.and_eq_true, List.mem_singleton, exists_eq_left, and_assoc]

theorem hasLog_of_live {u : UpstreamView} (live : u.role = .live)
    (nonempty : (u.range log).begin < (u.range log).end) : u.hasLog log = true := by
  simp only [UpstreamView.hasLog, live, decide_eq_true_eq]
  exact (Fin.zero_le _).trans_lt nonempty

/-- The segment of a live upstream begins with its log. -/
theorem exists_logSegment_of_live {u : UpstreamView} (head : Option BlockPos)
    (live : u.role = .live)
    (nonempty : (u.range log).begin < (u.range log).end) :
    ∃ seg, logSegment u log head = some seg ∧ (u.range log).begin ∈ seg := by
  simp only [logSegment, hasLog_of_live live nonempty, live, Bool.not_true,
    Bool.false_eq_true, if_false]
  refine ⟨_, rfl, le_rfl, ?_⟩
  cases head with
  | none => exact nonempty
  | some h => exact nonempty.trans_le (le_max_left _ _)

/-- The top component is one of the components, unless there are none. -/
theorem LogCoverage.Exact.covered_top {logs : List Log} (isExact : c.Exact v logs)
    {n : Fin (2 ^ 32)} (inside : n ∈ c.top) : Covered c.components n := by
  rw [isExact.top_last] at inside
  cases last : c.components.getLast? with
  | none =>
      rw [last] at inside
      exact absurd inside.2 (Fin.not_lt_zero n)
  | some top =>
      rw [last] at inside
      exact ⟨top, List.mem_of_getLast? last, inside⟩

/-- The top component is not empty and ends last. -/
theorem LogCoverage.Exact.top_of_covered {logs : List Log} (isExact : c.Exact v logs)
    {n : Fin (2 ^ 32)} (covered : Covered c.components n) :
    n < c.top.end ∧ c.top.begin < c.top.end := by
  obtain ⟨r, member, inside⟩ := covered
  rw [isExact.top_last]
  cases last : c.components.getLast? with
  | none =>
      rw [List.getLast?_eq_none_iff.mp last] at member
      cases member
  | some top =>
      have separated := isExact.components_separated
      exact ⟨inside.2.trans_le (separated.end_le_getLast last member),
        separated.nonempty top (List.mem_of_getLast? last)⟩

/-- What status reports of a log is the top component, up to the head if a live tail
reaches it. -/
theorem statusRange_eq (c : LogCoverage) (h : Fin (2 ^ 32)) :
    statusRange c h =
      if c.top.begin < c.top.end ∧ (c.liveTailBegin.any fun b => b ≤ c.top.end) = true then
        ⟨c.top.begin, max c.top.end (nextBlock h)⟩
      else c.top := by
  simp only [statusRange, Range.isEmpty, Bool.and_eq_true, Bool.not_eq_true',
    decide_eq_false_iff_not, not_le]

theorem statusRange_nonempty (c : LogCoverage) (h : Fin (2 ^ 32)) :
    (statusRange c h).begin < (statusRange c h).end ↔ c.top.begin < c.top.end := by
  rw [statusRange_eq]
  split
  · rename_i stretched
    exact ⟨fun _ => stretched.1, fun nonempty => nonempty.trans_le (le_max_left _ _)⟩
  · rfl

/-- A reported block is in the top component or above a live tail. -/
theorem has_of_mem_statusRange {logs : List Log} (isExact : c.Exact v logs) {h n : Fin (2 ^ 32)}
    (inside : n ∈ statusRange c h) : c.has n = true := by
  simp only [LogCoverage.has, Bool.or_eq_true, any_contains]
  rcases lt_or_ge n c.top.end with before | after
  · refine .inr (isExact.covered_top ⟨?_, before⟩)
    rw [statusRange_eq] at inside
    split at inside <;> exact inside.1
  · rw [statusRange_eq] at inside
    split at inside
    · rename_i stretched
      obtain ⟨b, isTail, reaches⟩ := (Option.any_eq_true _ _).mp stretched.2
      refine .inl ((Option.any_eq_true _ _).mpr ⟨b, isTail, ?_⟩)
      exact decide_eq_true ((of_decide_eq_true reaches).trans after)
    · exact absurd inside.2 (not_lt.mpr after)

end Status

/-- Whatever head it is stretched to, status reports only blocks that some upstream of
the view covers; it reports nothing only when no upstream has a part of the log; and it
reaches the head when a live upstream has some of the log. -/
theorem status_range_covered (ctx : BuildCtx) (states : StateMap) (tips : List ObservedTip)
    (mem : HubMemory) (now : Nat) (log : Log) (h : Fin (2 ^ 32)) :
    let v := (buildView ctx states tips mem now).1
    (∀ n ∈ statusRange (v.cov log) h, ∃ u ∈ v.upstreams, u.enabled ∧ u.known ∧ u.covers log n) ∧
    ((statusRange (v.cov log) h).isEmpty = true ↔
      ¬ ∃ u ∈ v.upstreams, u.enabled ∧ u.known ∧
        ∃ seg, logSegment u log v.head = some seg ∧ seg.begin < seg.end) ∧
    ((∃ u ∈ v.upstreams, u.enabled ∧ u.known ∧ u.role = .live ∧
        (u.range log).begin < (u.range log).end) →
      nextBlock h ≤ (statusRange (v.cov log) h).end) := by
  intro v
  have sticky : v.Sticky := FleetView.IsBuild.sticky ⟨ctx, states, tips, mem, now, rfl⟩
  clear_value v
  have isExact : (v.cov log).Exact v [log] := by
    rw [sticky.cov_eq log]
    exact exact_coverageOf v [log]
  have held (n : Fin (2 ^ 32)) := (isExact.components_union n).trans (v.inSegment_iff log n)
  refine ⟨fun n inside => ?_, ?_, ?_⟩
  · exact (sticky.has_iff log n).mp (has_of_mem_statusRange isExact inside)
  · rw [← not_iff_not, not_not]
    simp only [Range.isEmpty, decide_eq_true_eq, not_le, statusRange_nonempty]
    constructor
    · intro nonempty
      obtain ⟨u, listed, enabled, known, seg, segment, inside⟩ :=
        (held _).mp (isExact.covered_top ⟨le_rfl, nonempty⟩)
      exact ⟨u, listed, enabled, known, seg, segment, inside.1.trans_lt inside.2⟩
    · rintro ⟨u, listed, enabled, known, seg, segment, nonempty⟩
      have covered := (held seg.begin).mpr
        ⟨u, listed, enabled, known, seg, segment, le_rfl, nonempty⟩
      exact (isExact.top_of_covered covered).2
  · rintro ⟨u, listed, enabled, known, live, nonempty⟩
    obtain ⟨seg, segment, begins⟩ := exists_logSegment_of_live v.head live nonempty
    have top :=
      isExact.top_of_covered ((held _).mpr ⟨u, listed, enabled, known, seg, segment, begins⟩)
    have tail := (sticky.tail_iff (v.cov log).top.end).mpr
      ⟨u, listed, enabled, known, live, (UpstreamView.covers_live live).mpr
        ⟨hasLog_of_live live nonempty, top.1.le⟩⟩
    rw [statusRange_eq, if_pos ⟨top.2, tail⟩]
    exact le_max_right _ _

/-- One live server, with blocks from 100 on. -/
def tailMap : StateMap where
  entries := [("ws://live", liveServer 0 100 200 190)]
  nodup := by decide
  distinct := by decide

/-- A live server's status reaches a head newer than the view. -/
theorem status_range_covered_sample :
    nextBlock 300 ≤ (statusRange
      ((buildView ⟨.pool, none, none, .warn⟩ tailMap [] (.new 0) 0).1.cov .trace) 300).end := by
  apply (status_range_covered ⟨.pool, none, none, .warn⟩ tailMap [] (.new 0) 0 .trace 300).2.2
  decide +kernel

/-! ## Segments -/

/-- A block range of one log and the upstreams, by position, that cover all of it. -/
structure CoverageSegment where
  range : Range
  upstreams : List Nat
  deriving DecidableEq, Repr

/-- The segments of the upstreams that count, each with its position. -/
def FleetView.parts (v : FleetView) (log : Log) : List (Nat × Range) :=
  (v.upstreams.zipIdx.filter fun entry => entry.1.counts).filterMap fun entry =>
    (logSegment entry.1 log v.head).map fun seg => (entry.2, seg)

/-- The log, split where the upstreams that cover it change.  Holes are left out. -/
def FleetView.segments (v : FleetView) (log : Log) : List CoverageSegment :=
  (pieces (v.parts log)).map fun piece => ⟨piece.range, piece.labels⟩

/-- What a coverage report should say: ranges in order, the upstreams of each of their
blocks, and as few ranges as that takes. -/
structure FleetView.Reports (v : FleetView) (log : Log) (segs : List CoverageSegment) : Prop where
  nonempty : ∀ s ∈ segs, s.range.begin < s.range.end
  ordered : segs.Pairwise fun r s => r.range.end ≤ s.range.begin
  covers : ∀ n, (∃ s ∈ segs, n ∈ s.range) ↔ ∃ u ∈ v.upstreams, u.Holds log v.head n
  ascending : ∀ s ∈ segs, s.upstreams.Pairwise (· < ·)
  upstreams : ∀ s ∈ segs, ∀ n ∈ s.range, ∀ pos, pos ∈ s.upstreams ↔
    ∃ u, v.upstreams[pos]? = some u ∧ u.Holds log v.head n
  distinct : segs.Pairwise fun r s => r.range.end = s.range.begin → r.upstreams ≠ s.upstreams
  union : ∀ n, (∃ s ∈ segs, n ∈ s.range) ↔ Covered (v.cov log).components n

section Segments

variable (v : FleetView) (log : Log)

theorem mem_parts {pos : Nat} {seg : Range} : (pos, seg) ∈ v.parts log ↔
    ∃ u, v.upstreams[pos]? = some u ∧ u.enabled ∧ u.known ∧ logSegment u log v.head = some seg := by
  simp only [FleetView.parts, List.mem_filterMap, List.mem_filter, List.mem_zipIdx_iff_getElem?,
    UpstreamView.counts, Bool.and_eq_true, Option.map_eq_some_iff, Prod.mk.injEq, Prod.exists]
  constructor
  · rintro ⟨u, _, ⟨listed, enabled, known⟩, _, segment, rfl, rfl⟩
    exact ⟨u, listed, enabled, known, segment⟩
  · rintro ⟨u, listed, enabled, known, segment⟩
    exact ⟨u, pos, ⟨listed, enabled, known⟩, seg, segment, rfl, rfl⟩

/-- The labels of a block are the positions of the upstreams that have it. -/
theorem mem_labelsAt_parts {pos : Nat} {n : Fin (2 ^ 32)} : pos ∈ labelsAt (v.parts log) n ↔
    ∃ u, v.upstreams[pos]? = some u ∧ u.Holds log v.head n := by
  simp only [labelsAt, List.mem_map, List.mem_filter, Bool.and_eq_true, decide_eq_true_eq,
    Prod.exists, exists_and_right, exists_eq_right, mem_parts, UpstreamView.Holds]
  constructor
  · rintro ⟨seg, ⟨u, listed, enabled, known, segment⟩, inside⟩
    exact ⟨u, listed, enabled, known, seg, segment, inside⟩
  · rintro ⟨u, listed, enabled, known, seg, segment, inside⟩
    exact ⟨seg, ⟨u, listed, enabled, known, segment⟩, inside⟩

theorem ascending_labelsAt_parts (n : Fin (2 ^ 32)) :
    (labelsAt (v.parts log) n).Pairwise (· < ·) := by
  have positions : v.upstreams.zipIdx.Pairwise fun a b => a.2 < b.2 := by
    have indices : (v.upstreams.zipIdx.map Prod.snd).Pairwise (· < ·) := by
      rw [List.zipIdx_map_snd]
      exact List.pairwise_lt_range'
    exact List.pairwise_map.mp indices
  have parts : (v.parts log).Pairwise fun a b => a.1 < b.1 := pairwise_reports (positions.filter _)
  exact List.pairwise_map.mpr (parts.filter _)

theorem labelsAt_parts_ne_nil (n : Fin (2 ^ 32)) : labelsAt (v.parts log) n ≠ [] ↔
    ∃ u ∈ v.upstreams, u.Holds log v.head n := by
  rw [← List.isEmpty_eq_false_iff, List.isEmpty_eq_false_iff_exists_mem]
  simp only [mem_labelsAt_parts]
  constructor
  · rintro ⟨pos, u, listed, holds⟩
    exact ⟨u, List.mem_of_getElem? listed, holds⟩
  · rintro ⟨u, listed, holds⟩
    obtain ⟨pos, isAt⟩ := List.mem_iff_getElem?.mp listed
    exact ⟨pos, u, isAt, holds⟩

end Segments

/-- The coverage report of a built view is right for every log. -/
theorem segments_report_coverage (ctx : BuildCtx) (states : StateMap) (tips : List ObservedTip)
    (mem : HubMemory) (now : Nat) (log : Log) :
    let v := (buildView ctx states tips mem now).1
    v.Reports log (v.segments log) := by
  intro v
  have sticky : v.Sticky := FleetView.IsBuild.sticky ⟨ctx, states, tips, mem, now, rfl⟩
  clear_value v
  obtain ⟨partition, distinct⟩ := partitions_pieces (v.parts log)
  have covers (n : Fin (2 ^ 32)) : (∃ s ∈ v.segments log, n ∈ s.range) ↔
      ∃ u ∈ v.upstreams, u.Holds log v.head n := by
    rw [← labelsAt_parts_ne_nil, ← partition.covers]
    simp [FleetView.segments]
  have components (n : Fin (2 ^ 32)) : Covered (v.cov log).components n ↔
      ∃ u ∈ v.upstreams, u.Holds log v.head n := by
    rw [sticky.cov_eq log]
    exact ((exact_coverageOf v [log]).components_union n).trans (v.inSegment_iff log n)
  have isPiece {s : CoverageSegment} (member : s ∈ v.segments log) :
      ⟨s.range, s.upstreams⟩ ∈ pieces (v.parts log) := by
    obtain ⟨piece, isPiece, rfl⟩ := List.mem_map.mp member
    exact isPiece
  have nonempty {s : CoverageSegment} (member : s ∈ v.segments log) : s.range.begin < s.range.end :=
    partition.ordered.nonempty s.range (List.mem_map_of_mem (isPiece member))
  have labels {s : CoverageSegment} (member : s ∈ v.segments log) {n : Fin (2 ^ 32)}
      (inside : n ∈ s.range) : s.upstreams = labelsAt (v.parts log) n :=
    partition.exact_ _ (isPiece member) n inside
  constructor
  · exact fun s member => nonempty member
  · exact List.pairwise_map.mpr (List.pairwise_map.mp partition.ordered.apart)
  · exact covers
  · intro s member
    rw [labels member ⟨le_rfl, nonempty member⟩]
    exact ascending_labelsAt_parts v log _
  · intro s member n inside pos
    rw [labels member inside]
    exact mem_labelsAt_parts v log
  · refine List.pairwise_map.mpr (distinct.imp ?_)
    exact fun apart touch same => apart ⟨touch, same⟩
  · exact fun n => (covers n).trans (components n).symm

/-! ## Archived blocks without a chain API -/

/-- The blocks of `ranges` that no range in `covered` holds, merged. -/
def uncovered (ranges covered : List Range) : List Range :=
  subtractEach (merge ranges) (merge covered)

/-- An enabled archive with usable ranges. -/
def UpstreamView.isArchive (u : UpstreamView) : Bool := u.enabled && u.known && u.role = .frozen

/-- The trace and chain-state ranges of the given archives. -/
def archivedRanges (archives : List UpstreamView) : List Range :=
  archives.flatMap fun u => [u.range .trace, u.range .chainState]

/-- The archived history that no archive with a chain API covers; `withApi` has the endpoints
of the servers with one. -/
def archivedWithoutApi (v : FleetView) (withApi : List String) : List Range :=
  let archives := v.upstreams.filter UpstreamView.isArchive
  uncovered (archivedRanges archives)
    (archivedRanges (archives.filter fun u => u.endpoint ∈ withApi))

def rangeText (r : Range) : String :=
  if r.isEmpty then "-"
  else "[" ++ toString r.begin.val ++ "," ++ toString r.end.val ++ ")"

/-- The endpoints of the enabled servers with a chain API. -/
def endpointsWithApi (servers : List Config.ServerEntry) : List String :=
  (servers.filter fun s => s.enabled && s.apiEndpoint.isSome).map Config.ServerEntry.endpoint

/-- What a strict configuration test fails on; only a stitched listener has a view here. -/
def reportChainApi (servers : List Config.ServerEntry) : Option FleetView → List String
  | none => []
  | some v => (archivedWithoutApi v (endpointsWithApi servers)).map fun r =>
      "archived blocks " ++ rangeText r ++ " have no frozen server with an api_endpoint; "
        ++ "chain API requests for them are answered by live nodes only"

/-- The archive has block `n` in its trace or its chain-state log. -/
def UpstreamView.Archives (u : UpstreamView) (n : Fin (2 ^ 32)) : Prop :=
  u.isArchive = true ∧ ∃ log ∈ [Log.trace, Log.chainState], n ∈ u.range log

theorem separated_uncovered (ranges covered : List Range) : Separated (uncovered ranges covered) :=
  separated_subtractEach (separated_merge ranges) (separated_merge covered)

theorem covered_uncovered (ranges covered : List Range) (n : Fin (2 ^ 32)) :
    Covered (uncovered ranges covered) n ↔ Covered ranges n ∧ ¬Covered covered n := by
  rw [uncovered, covered_subtractEach (separated_merge covered), covered_merge, covered_merge]

theorem covered_archivedRanges (archives : List UpstreamView) (n : Fin (2 ^ 32)) :
    Covered (archivedRanges archives) n ↔
      ∃ u ∈ archives, ∃ log ∈ [Log.trace, Log.chainState], n ∈ u.range log := by
  induction archives with
  | nil => simp [archivedRanges]
  | cons u rest ih =>
      rw [archivedRanges, List.flatMap_cons, covered_append, ← archivedRanges, ih]
      simp [or_assoc]

theorem covered_archivedWithoutApi (v : FleetView) (withApi : List String) (n : Fin (2 ^ 32)) :
    Covered (archivedWithoutApi v withApi) n ↔
      (∃ u ∈ v.upstreams, u.Archives n) ∧
        ¬ ∃ u ∈ v.upstreams, u.Archives n ∧ u.endpoint ∈ withApi := by
  rw [archivedWithoutApi, covered_uncovered, covered_archivedRanges, covered_archivedRanges]
  simp only [List.mem_filter, decide_eq_true_eq, UpstreamView.Archives, and_assoc, and_comm,
    and_left_comm]

/-- A list of non-empty ranges covers some block unless it has no range. -/
theorem ne_nil_iff_covered {rs : List Range} (separated : Separated rs) :
    rs ≠ [] ↔ ∃ n, Covered rs n := by
  constructor
  · intro nonempty
    obtain ⟨r, member⟩ := List.exists_mem_of_ne_nil rs nonempty
    exact ⟨r.begin, r, member, le_rfl, separated.nonempty r member⟩
  · rintro ⟨n, r, member, -⟩
    exact List.ne_nil_of_mem member

/-- The blocks of the first list outside the second, in separate ranges in order; so the
configuration test complains exactly when an archived block is in no archive with a chain API. -/
theorem uncovered_exact (ranges covered : List Range) :
    Separated (uncovered ranges covered) ∧
    (∀ n, Covered (uncovered ranges covered) n ↔
      (∃ r ∈ ranges, n ∈ r) ∧ ¬ ∃ r ∈ covered, n ∈ r) ∧
    ∀ (servers : List Config.ServerEntry) (v : FleetView),
      reportChainApi servers (some v) ≠ [] ↔
        ∃ n, (∃ u ∈ v.upstreams, u.Archives n) ∧
          ¬ ∃ u ∈ v.upstreams, u.Archives n ∧
            ∃ s ∈ servers, s.enabled ∧ s.apiEndpoint.isSome ∧ s.endpoint = u.endpoint := by
  have withApi (servers : List Config.ServerEntry) (endpoint : String) :
      endpoint ∈ endpointsWithApi servers ↔
        ∃ s ∈ servers, s.enabled ∧ s.apiEndpoint.isSome ∧ s.endpoint = endpoint := by
    simp [endpointsWithApi, and_assoc]
  refine ⟨separated_uncovered ranges covered, covered_uncovered ranges covered, ?_⟩
  intro servers v
  have separated : Separated (archivedWithoutApi v (endpointsWithApi servers)) :=
    separated_uncovered _ _
  rw [reportChainApi, ne_eq, List.map_eq_nil_iff, ← ne_eq, ne_nil_iff_covered separated]
  simp only [covered_archivedWithoutApi, withApi]

end FleetRouter.Fleet
