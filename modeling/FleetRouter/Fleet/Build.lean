import FleetRouter.Fleet.Tip

/-!
# Building the fleet view

The view of one listener is a function of its state map, the observed tips and
the hub's memory.  Coverage is sticky: it is merged from the segments of every
enabled upstream with usable ranges, whether that upstream is online or not, and
a live segment is open-ended above its begin.
-/

namespace FleetRouter.Fleet

open Ship Session Intervals

/-- What to do with an upstream whose ABI differs from the one clients get. -/
inductive AbiMismatch where
  | warn
  | exclude
  deriving DecidableEq, Repr

/-- The state the monitor keeps of one upstream. -/
structure ServerState where
  index : Nat
  role : Role
  enabled : Bool
  operatorDisabled : Bool
  online : Bool
  stale : Bool
  priority : Nat
  weight : Nat
  chainId : Option Checksum
  traceBeginBlock : Fin (2 ^ 32)
  traceEndBlock : Fin (2 ^ 32)
  chainStateBeginBlock : Fin (2 ^ 32)
  chainStateEndBlock : Fin (2 ^ 32)
  finalityDataBeginBlock : Fin (2 ^ 32)
  finalityDataEndBlock : Fin (2 ^ 32)
  quarantines : List BlockQuarantine
  declared : Option Range
  maxSessions : Option Nat
  connections : Nat
  head : Option BlockPos
  lib : Option BlockPos
  /-- Set by the first accepted status. -/
  rangesKnown : Bool
  statusV1 : Option Bool
  abi : Option AbiEntry
  noBlockLog : Bool
  deriving DecidableEq, Repr

/-- Whether the upstream's ranges were reported, or declared by a frozen server. -/
def ServerState.rangesUsable (s : ServerState) : Bool :=
  s.rangesKnown || (s.role = .frozen && s.declared.isSome)

/-- The upstreams of a listener by endpoint, each with its own index: its position
among the enabled servers of the configuration. -/
structure StateMap where
  entries : List (String × ServerState)
  nodup : (entries.map Prod.fst).Nodup
  distinct : (entries.map fun entry => entry.2.index).Nodup

/-- The order upstreams are listed in: by index, then by endpoint. -/
def StateMap.precedes (a b : String × ServerState) : Prop :=
  a.2.index < b.2.index ∨ a.2.index = b.2.index ∧ a.1 ≤ b.1

instance : DecidableRel StateMap.precedes := fun a b =>
  inferInstanceAs (Decidable (a.2.index < b.2.index ∨ a.2.index = b.2.index ∧ a.1 ≤ b.1))

instance : Std.Total StateMap.precedes where
  total a b := by
    rcases lt_trichotomy a.2.index b.2.index with below | same | above
    · exact .inl (.inl below)
    · cases String.le_total a.1 b.1 with
      | inl before => exact .inl (.inr ⟨same, before⟩)
      | inr after => exact .inr (.inr ⟨same.symm, after⟩)
    · exact .inr (.inl above)

instance : IsTrans (String × ServerState) StateMap.precedes where
  trans a b c := by
    rintro (first | ⟨first, before⟩) (second | ⟨second, after⟩)
    · exact .inl (first.trans second)
    · exact .inl (second ▸ first)
    · exact .inl (first ▸ second)
    · exact .inr ⟨first.trans second, String.le_trans before after⟩

def StateMap.sorted (states : StateMap) : List (String × ServerState) :=
  states.entries.insertionSort StateMap.precedes

/-- What a build takes from the listener's configuration. -/
structure BuildCtx where
  topology : Topology
  pinnedChainId : Option Checksum
  abiPin : Option AbiEntry
  abiMismatch : AbiMismatch
  deriving DecidableEq, Repr

def upstreamView (endpoint : String) (s : ServerState) : UpstreamView :=
  let ranges : Range × Range × Range :=
    if s.rangesKnown then
      (⟨s.traceBeginBlock, s.traceEndBlock⟩, ⟨s.chainStateBeginBlock, s.chainStateEndBlock⟩,
        ⟨s.finalityDataBeginBlock, s.finalityDataEndBlock⟩)
    else
      match s.role, s.declared with
      | .frozen, some declared => (declared, declared, ⟨0, 0⟩)
      | _, _ => (⟨0, 0⟩, ⟨0, 0⟩, ⟨0, 0⟩)
  { index := s.index
    endpoint
    role := s.role
    enabled := s.enabled
    operatorDisabled := s.operatorDisabled
    online := s.online
    stale := s.stale
    known := s.rangesUsable
    trace := ranges.1
    chainState := ranges.2.1
    finality := ranges.2.2
    head := s.head
    lib := s.lib
    connections := s.connections
    maxSessions := s.maxSessions
    priority := s.priority
    weight := max s.weight 1
    quarantines := s.quarantines
    abiFp := s.abi.map AbiEntry.fp
    abiOk := true
    legacyStatus := s.statusV1 = some false
    noBlockLog := s.noBlockLog }

/-! ## Coverage -/

/-- The segment `u` contributes to the coverage of a log.  A live segment extends
to the fleet head. -/
def logSegment (u : UpstreamView) (log : Log) (head : Option BlockPos) : Option Range :=
  if !u.hasLog log then none
  else
    match u.role with
    | .live =>
        some
          { begin := (u.range log).begin
            «end» := match head with
              | some h => max (u.range log).end (nextBlock h.num)
              | none => (u.range log).end }
    | .frozen => some (u.range log)

/-- Coverage of one log from every upstream's segment, the online ones among them
and the live tail. -/
def coverage (segs online : List Range) (liveTailBegin : Option (Fin (2 ^ 32))) : LogCoverage :=
  let components := merge segs
  let top := components.getLast?.getD ⟨0, 0⟩
  { components
    top
    gaps := gaps components
    offlineOnly := subtract top (merge online)
    liveTailBegin }

/-- Enabled, with usable ranges: the upstreams that count for coverage. -/
def UpstreamView.counts (u : UpstreamView) : Bool := u.enabled && u.known

/-- Online and in service. -/
def UpstreamView.inService (u : UpstreamView) : Bool := u.online && !u.operatorDisabled

/-- The segments of some logs of some upstreams. -/
def segmentsOf (upstreams : List UpstreamView) (head : Option BlockPos) (logs : List Log) :
    List Range :=
  upstreams.flatMap fun u => logs.filterMap fun log => logSegment u log head

/-- Lowest begin of a live upstream that has one of the logs. -/
def tailOf (upstreams : List UpstreamView) (logs : List Log) : Option (Fin (2 ^ 32)) :=
  ((upstreams.filter fun u => u.role = .live).flatMap fun u =>
    (logs.filter u.hasLog).map fun log => (u.range log).begin).min?

def coverageOf (upstreams : List UpstreamView) (head : Option BlockPos) (logs : List Log) :
    LogCoverage :=
  let counting := upstreams.filter UpstreamView.counts
  coverage (segmentsOf counting head logs)
    (segmentsOf (counting.filter UpstreamView.inService) head logs) (tailOf counting logs)

theorem mem_segmentsOf {upstreams : List UpstreamView} {head : Option BlockPos}
    {logs : List Log} {seg : Range} :
    seg ∈ segmentsOf upstreams head logs ↔
      ∃ u ∈ upstreams, ∃ log ∈ logs, logSegment u log head = some seg := by
  simp [segmentsOf]

/-- A block in an upstream's segment is a block it covers. -/
theorem covers_of_mem_logSegment {u : UpstreamView} {log : Log} {head : Option BlockPos}
    {seg : Range} {n : Fin (2 ^ 32)} (segment : logSegment u log head = some seg)
    (inside : n ∈ seg) : u.covers log n := by
  unfold logSegment at segment
  split at segment
  · cases segment
  rename_i present
  rw [Intervals.Interval.mem_iff] at inside
  cases role : u.role with
  | live =>
      simp only [role, Option.some.injEq] at segment
      subst segment
      simp only [UpstreamView.hasLog, role, Bool.not_eq_true', decide_eq_false_iff_not,
        not_not] at present
      simpa [UpstreamView.covers, role, present] using inside.1
  | frozen =>
      simp only [role, Option.some.injEq] at segment
      subst segment
      simpa [UpstreamView.covers, role, Range.contains] using inside

/-- A frozen upstream covers exactly its segment. -/
theorem exists_logSegment_of_frozen {u : UpstreamView} {log : Log} (head : Option BlockPos)
    {n : Fin (2 ^ 32)} (frozen : u.role = .frozen) (covered : u.covers log n) :
    ∃ seg, logSegment u log head = some seg ∧ n ∈ seg := by
  simp only [UpstreamView.covers, frozen, Range.contains, Bool.and_eq_true,
    decide_eq_true_eq] at covered
  have present : u.hasLog log = true := by
    simp only [UpstreamView.hasLog, frozen, Range.isEmpty, Bool.not_eq_true',
      decide_eq_false_iff_not, not_le]
    exact covered.1.trans_lt covered.2
  exact ⟨u.range log, by simp [logSegment, present, frozen], covered⟩

theorem UpstreamView.covers_live {u : UpstreamView} {log : Log} {n : Fin (2 ^ 32)}
    (live : u.role = .live) :
    u.covers log n ↔ u.hasLog log ∧ (u.range log).begin ≤ n := by
  simp [covers, hasLog, live]

/-- The live tail reaches every block a live upstream covers. -/
theorem any_tailOf {upstreams : List UpstreamView} {logs : List Log} {n : Fin (2 ^ 32)} :
    ((tailOf upstreams logs).any fun begin => begin ≤ n) = true ↔
      ∃ u ∈ upstreams, u.role = .live ∧ ∃ log ∈ logs, u.covers log n := by
  have member (b : Fin (2 ^ 32)) :
      b ∈ ((upstreams.filter fun u => u.role = .live).flatMap fun u =>
        (logs.filter u.hasLog).map fun log => (u.range log).begin) ↔
      ∃ u ∈ upstreams, u.role = .live ∧ ∃ log ∈ logs, u.hasLog log ∧ (u.range log).begin = b := by
    simp only [List.mem_flatMap, List.mem_filter, List.mem_map, decide_eq_true_eq, and_assoc]
  constructor
  · intro reached
    obtain ⟨b, lowest, below⟩ := (Option.any_eq_true _ _).mp reached
    obtain ⟨u, listed, live, log, asked, present, rfl⟩ := (member b).mp (List.min?_mem lowest)
    exact ⟨u, listed, live, log, asked, (UpstreamView.covers_live live).mpr
      ⟨present, of_decide_eq_true below⟩⟩
  · rintro ⟨u, listed, live, log, asked, covered⟩
    obtain ⟨present, below⟩ := (UpstreamView.covers_live live).mp covered
    have listed := (member _).mpr ⟨u, listed, live, log, asked, present, rfl⟩
    rw [tailOf]
    cases lowest : ((upstreams.filter fun u => u.role = .live).flatMap fun u =>
        (logs.filter u.hasLog).map fun log => (u.range log).begin).min? with
    | none =>
        rw [List.min?_eq_none_iff.mp lowest] at listed
        cases listed
    | some b =>
        have least := (List.min?_eq_some_iff.mp lowest).2 _ listed
        simpa using least.trans below

theorem any_contains {rs : List Range} {n : Fin (2 ^ 32)} :
    (rs.any fun range => range.contains n) = true ↔ Covered rs n := by
  simp only [Range.contains, List.any_eq_true, Bool.and_eq_true, decide_eq_true_eq]
  exact Iff.rfl

/-- The coverage has a block exactly when an upstream that counts covers it. -/
theorem has_coverageOf {upstreams : List UpstreamView} {head : Option BlockPos}
    {logs : List Log} {n : Fin (2 ^ 32)} :
    (coverageOf upstreams head logs).has n = true ↔
      ∃ u ∈ upstreams, u.counts ∧ ∃ log ∈ logs, u.covers log n := by
  simp only [coverageOf, coverage, LogCoverage.has, Bool.or_eq_true, any_tailOf, any_contains,
    covered_merge, List.mem_filter]
  constructor
  · rintro (⟨u, ⟨listed, counts⟩, -, log, asked, covered⟩ | ⟨seg, member, inside⟩)
    · exact ⟨u, listed, counts, log, asked, covered⟩
    · obtain ⟨u, listed, log, asked, segment⟩ := mem_segmentsOf.mp member
      obtain ⟨listed, counts⟩ := List.mem_filter.mp listed
      exact ⟨u, listed, counts, log, asked, covers_of_mem_logSegment segment inside⟩
  · rintro ⟨u, listed, counts, log, asked, covered⟩
    cases role : u.role with
    | live => exact .inl ⟨u, ⟨listed, counts⟩, role, log, asked, covered⟩
    | frozen =>
        obtain ⟨seg, segment, inside⟩ := exists_logSegment_of_frozen head role covered
        exact .inr ⟨seg, mem_segmentsOf.mpr
          ⟨u, List.mem_filter.mpr ⟨listed, counts⟩, log, asked, segment⟩, inside⟩

/-! ## The canonical ABI -/

/-- The last of the greatest elements. -/
def maxBy {α : Type} (cmp : α → α → Ordering) : List α → Option α
  | [] => none
  | first :: rest => some (rest.foldl (fun best x => if cmp best x = .gt then best else x) first)

/-- The online upstreams of a role that sent an ABI, with it. -/
def onlineWithAbi (upstreams : List UpstreamView) (abis : List (Option AbiEntry)) (role : Role) :
    List (UpstreamView × AbiEntry) :=
  (upstreams.zip abis).filterMap fun (u, abi) =>
    if u.routable && u.online && u.role = role then abi.map fun abi => (u, abi) else none

/-- The live ABI with the highest head, the first on equal heads. -/
def bestLiveAbi (candidates : List (UpstreamView × AbiEntry)) :
    Option (UpstreamView × AbiEntry) :=
  candidates.foldl
    (fun best next =>
      match best with
      | some b => if height next.1.head ≤ height b.1.head then some b else some next
      | none => some next)
    none

/-- How many upstreams sent each ABI, with the index of the first one. -/
def tallyAbis (candidates : List (UpstreamView × AbiEntry)) : List (Nat × Nat × AbiEntry) :=
  candidates.foldl
    (fun counts (u, abi) =>
      if counts.any fun slot => slot.2.2.fp = abi.fp then
        counts.map fun slot => if slot.2.2.fp = abi.fp then (slot.1 + 1, slot.2) else slot
      else counts ++ [(1, u.index, abi)])
    []

/-- The `abi_file` pin, else a live ABI, sticky while an online live upstream
serves it, else the most common frozen one. -/
def chooseCanonical (ctx : BuildCtx) (upstreams : List UpstreamView)
    (abis : List (Option AbiEntry)) (current : Option (AbiEntry × AbiSource)) :
    Option (AbiEntry × AbiSource) :=
  let live := onlineWithAbi upstreams abis .live
  let kept : Bool :=
    match current with
    | some (entry, .live _) => live.any fun next => next.1.abiFp = some entry.fp
    | _ => false
  match ctx.abiPin with
  | some pin => some (pin, .file)
  | none =>
      if kept then current
      else
        match bestLiveAbi live with
        | some (u, abi) => some (abi, .live u.index)
        | none =>
            if current.isSome then current
            else
              (maxBy (fun a b => (compare a.1 b.1).then (compare b.2.1 a.2.1))
                (tallyAbis (onlineWithAbi upstreams abis .frozen))).map
                fun slot => (slot.2.2, .provisional slot.2.1)

/-! ## The view -/

/-- Highest frozen end minus lowest online live begin for a log, when both
exist. -/
def liveOverlap (upstreams : List UpstreamView) (log : Log) : Option Int :=
  let having := upstreams.filter fun u => u.counts && u.hasLog log
  let frozenEnd := ((having.filter fun u => u.role = .frozen).map fun u => (u.range log).end).max?
  let liveBegin :=
    ((having.filter fun u => u.online && u.role = .live).map fun u => (u.range log).begin).min?
  match frozenEnd, liveBegin with
  | some stop, some begin => some ((stop.val : Int) - begin.val)
  | _, _ => none

/-- Build the view of one listener from its state map. -/
def buildView (ctx : BuildCtx) (states : StateMap) (tips : List ObservedTip) (mem : HubMemory)
    (now : Nat) : FleetView × HubMemory :=
  let sorted := states.sorted
  let upstreams := sorted.map fun entry => upstreamView entry.1 entry.2
  let abis := sorted.map fun entry => entry.2.abi
  let chainIds := sorted.map fun entry => entry.2.chainId
  let liveConfigured := upstreams.any fun u => u.enabled && u.role = .live
  let (tip, mem) := fleetTip upstreams tips liveConfigured mem
  let mem := mem.noteHead tip.1 now
  let frozenUnknown :=
    (upstreams.filter fun u => u.enabled && u.role = .frozen && !u.known).length
  let canonical :=
    match ctx.topology with
    | .stitched => chooseCanonical ctx upstreams abis mem.canonical
    | .pool => none
  let mem := if ctx.topology = .stitched then { mem with canonical } else mem
  let accepted :=
    match canonical, ctx.abiMismatch with
    | some (entry, _), .exclude =>
        upstreams.map fun u => { u with abiOk := u.abiFp = some entry.fp }
    | _, _ => upstreams
  let view : FleetView :=
    { generation := mem.generation
      topology := ctx.topology
      chainId := ctx.pinnedChainId.or
        ((upstreams.zip chainIds).findSome? fun (u, chainId) => chainId.filter fun _ => u.online)
      head := tip.1
      lib := tip.2
      trace := coverageOf upstreams tip.1 [.trace]
      chainState := coverageOf upstreams tip.1 [.chainState]
      finality := coverageOf upstreams tip.1 [.finality]
      ids := coverageOf upstreams tip.1 Log.all
      upstreams := accepted
      abi := canonical.map Prod.fst
      abiSource := canonical.map Prod.snd
      frozenUnknown
      statusReady := tip.1.isSome && tip.2.isSome && frozenUnknown = 0
      liveConfigured
      online := (upstreams.filter fun u => u.routable && u.online).length
      liveOnline := (upstreams.filter fun u => u.routable && u.online && u.role = .live).length
      liveOverlap := (liveOverlap upstreams .trace, liveOverlap upstreams .chainState)
      anchors := findAnchors upstreams
      ids_has := by
        intro n has
        obtain ⟨u, listed, counts, log, -, covered⟩ := has_coverageOf.mp has
        simp only [has_coverageOf]
        cases log with
        | trace => exact .inl ⟨u, listed, counts, .trace, by simp, covered⟩
        | chainState => exact .inr (.inl ⟨u, listed, counts, .chainState, by simp, covered⟩)
        | finality => exact .inr (.inr ⟨u, listed, counts, .finality, by simp, covered⟩) }
  (view, mem)

/-- A view some build returned. -/
def FleetView.IsBuild (v : FleetView) : Prop :=
  ∃ ctx states tips mem now, (buildView ctx states tips mem now).1 = v

/-! ## The upstreams of a build -/

/-- The upstream of a state map entry, with the verdict on its ABI. -/
def judgedView (ok : Option UInt64 → Bool) (entry : String × ServerState) : UpstreamView :=
  let u := upstreamView entry.1 entry.2
  { u with abiOk := ok u.abiFp }

/-- A build lists the entries of the state map, each with a verdict that depends
on its ABI alone. -/
theorem exists_upstreams_buildView (ctx : BuildCtx) (states : StateMap) (tips : List ObservedTip)
    (mem : HubMemory) (now : Nat) :
    ∃ ok, (buildView ctx states tips mem now).1.upstreams = states.sorted.map (judgedView ok) := by
  simp only [buildView]
  split
  · rename_i entry _ _ _
    refine ⟨fun fp => fp = some entry.fp, ?_⟩
    rw [List.map_map]
    rfl
  · exact ⟨fun _ => true, rfl⟩

theorem mem_sorted {states : StateMap} {entry : String × ServerState} :
    entry ∈ states.sorted ↔ entry ∈ states.entries := List.mem_insertionSort _

/-- What upstreams in order report is in their order, whichever of them report nothing. -/
theorem pairwise_reports {α β γ : Type} {r : β → β → Prop} {label : α → β} {report : α → Option γ}
    {xs : List α} (ordered : xs.Pairwise fun a b => r (label a) (label b)) :
    (xs.filterMap fun a => (report a).map fun value => (label a, value)).Pairwise fun x y =>
      r x.1 y.1 := by
  apply List.pairwise_filterMap.mpr
  apply ordered.imp
  intro a b before x fromA y fromB
  obtain ⟨_, -, rfl⟩ := Option.map_eq_some_iff.mp fromA
  obtain ⟨_, -, rfl⟩ := Option.map_eq_some_iff.mp fromB
  exact before

theorem StateMap.sorted_distinct (states : StateMap) :
    (states.sorted.map fun entry => entry.2.index).Nodup := by
  have sorted : states.sorted.Perm states.entries := List.perm_insertionSort _ _
  exact (sorted.map fun entry => entry.2.index).nodup_iff.mpr states.distinct

/-- A build lists the upstreams by index. -/
theorem StateMap.sorted_pairwise (states : StateMap) :
    states.sorted.Pairwise fun a b => a.2.index < b.2.index := by
  have sorted : states.sorted.Pairwise StateMap.precedes := List.pairwise_insertionSort _ _
  have distinct : states.sorted.Pairwise fun a b => a.2.index ≠ b.2.index :=
    List.pairwise_map.mp states.sorted_distinct
  refine (sorted.and distinct).imp ?_
  rintro a b ⟨below | ⟨same, -⟩, different⟩
  · exact below
  · exact absurd same different

/-- The upstreams of a build have distinct indices. -/
theorem FleetView.IsBuild.distinct {v : FleetView} (isBuild : v.IsBuild) :
    (v.upstreams.map UpstreamView.index).Nodup := by
  obtain ⟨ctx, states, tips, mem, now, rfl⟩ := isBuild
  obtain ⟨ok, upstreams⟩ := exists_upstreams_buildView ctx states tips mem now
  rw [upstreams, List.map_map]
  exact states.sorted_distinct

/-- Which ABIs are accepted does not matter for coverage. -/
theorem coverageOf_judgedView (ok : Option UInt64 → Bool) (sorted : List (String × ServerState))
    (head : Option BlockPos) (logs : List Log) :
    coverageOf (sorted.map (judgedView ok)) head logs =
      coverageOf (sorted.map fun entry => upstreamView entry.1 entry.2) head logs := by
  simp only [coverageOf, segmentsOf, tailOf, List.filter_map, List.flatMap_map]
  rfl

/-- The coverage of a view and its count of silent archives are those of its
upstreams. -/
structure FleetView.Sticky (v : FleetView) : Prop where
  cov_eq : ∀ log, v.cov log = coverageOf v.upstreams v.head [log]
  ids_eq : v.ids = coverageOf v.upstreams v.head Log.all
  frozenUnknown_eq : v.frozenUnknown =
    (v.upstreams.filter fun u => u.enabled && u.role = .frozen && !u.known).length

theorem FleetView.IsBuild.sticky {v : FleetView} (isBuild : v.IsBuild) : v.Sticky := by
  obtain ⟨ctx, states, tips, mem, now, rfl⟩ := isBuild
  obtain ⟨ok, upstreams⟩ := exists_upstreams_buildView ctx states tips mem now
  refine ⟨?_, ?_, ?_⟩
  · intro log
    rw [upstreams, coverageOf_judgedView]
    cases log <;> rfl
  · rw [upstreams, coverageOf_judgedView]
    rfl
  · rw [upstreams, List.filter_map, List.length_map]
    simp only [buildView, List.filter_map, List.length_map]
    rfl

theorem FleetView.Sticky.has_iff {v : FleetView} (sticky : v.Sticky) (log : Log)
    (n : Fin (2 ^ 32)) :
    (v.cov log).has n = true ↔ ∃ u ∈ v.upstreams, u.enabled ∧ u.known ∧ u.covers log n := by
  rw [sticky.cov_eq log, has_coverageOf]
  simp [UpstreamView.counts, and_assoc]

theorem FleetView.Sticky.ids_has_iff {v : FleetView} (sticky : v.Sticky) (n : Fin (2 ^ 32)) :
    v.ids.has n = true ↔ ∃ u ∈ v.upstreams, u.enabled ∧ u.known ∧ u.coversIds n := by
  rw [sticky.ids_eq, has_coverageOf]
  simp [UpstreamView.counts, UpstreamView.coversIds, and_assoc]

/-! ## Exact coverage -/

/-- The block lies in the segment of an upstream that counts, for one of the
logs. -/
def FleetView.InSegment (v : FleetView) (logs : List Log) (which : UpstreamView → Prop)
    (n : Fin (2 ^ 32)) : Prop :=
  ∃ u ∈ v.upstreams, u.enabled ∧ u.known ∧ which u ∧
    ∃ log ∈ logs, ∃ seg, logSegment u log v.head = some seg ∧ n ∈ seg

/-- The parts of a coverage hold the blocks they should. -/
structure LogCoverage.Exact (c : LogCoverage) (v : FleetView) (logs : List Log) : Prop where
  /-- Components are sorted, disjoint, non-empty and do not touch. -/
  components_separated : Separated c.components
  components_union : ∀ n, Covered c.components n ↔ v.InSegment logs (fun _ => True) n
  gaps_between : ∀ n, Covered c.gaps n ↔
    (∃ first ∈ c.components.head?, first.end ≤ n) ∧
      (∃ last ∈ c.components.getLast?, n < last.begin) ∧ ¬Covered c.components n
  top_last : c.top = c.components.getLast?.getD ⟨0, 0⟩
  offlineOnly_separated : Separated c.offlineOnly
  /-- Nobody who is online and in service has these blocks of `top`. -/
  offlineOnly_exact : ∀ n, Covered c.offlineOnly n ↔
    n ∈ c.top ∧ ¬v.InSegment logs (fun u => u.online ∧ u.operatorDisabled = false) n

theorem covered_segmentsOf {upstreams : List UpstreamView} {head : Option BlockPos}
    {logs : List Log} {n : Fin (2 ^ 32)} :
    Covered (segmentsOf upstreams head logs) n ↔
      ∃ u ∈ upstreams, ∃ log ∈ logs, ∃ seg, logSegment u log head = some seg ∧ n ∈ seg := by
  constructor
  · rintro ⟨seg, member, inside⟩
    obtain ⟨u, listed, log, asked, segment⟩ := mem_segmentsOf.mp member
    exact ⟨u, listed, log, asked, seg, segment, inside⟩
  · rintro ⟨u, listed, log, asked, seg, segment, inside⟩
    exact ⟨seg, mem_segmentsOf.mpr ⟨u, listed, log, asked, segment⟩, inside⟩

theorem exact_coverageOf (v : FleetView) (logs : List Log) :
    (coverageOf v.upstreams v.head logs).Exact v logs where
  components_separated := separated_merge _
  components_union n := by
    simp only [coverageOf, coverage, covered_merge, covered_segmentsOf, List.mem_filter,
      UpstreamView.counts, Bool.and_eq_true, FleetView.InSegment, true_and, and_assoc]
  gaps_between n := by
    have separated := separated_merge
      (segmentsOf (v.upstreams.filter UpstreamView.counts) v.head logs)
    refine (covered_gaps separated n).trans ?_
    rw [← and_assoc, ← and_assoc, separated.exists_end_le, separated.exists_lt_begin]
    rfl
  top_last := rfl
  offlineOnly_separated := separated_subtract _ (separated_merge _)
  offlineOnly_exact n := by
    have online : Covered (merge (segmentsOf ((v.upstreams.filter UpstreamView.counts).filter
        UpstreamView.inService) v.head logs)) n ↔
        v.InSegment logs (fun u => u.online ∧ u.operatorDisabled = false) n := by
      simp only [covered_merge, covered_segmentsOf, List.mem_filter, UpstreamView.counts,
        UpstreamView.inService, Bool.and_eq_true, Bool.not_eq_true', FleetView.InSegment,
        and_assoc]
    rw [← online]
    exact covered_subtract (separated_merge _) n

/-- Sticky coverage is exact, for each log and for the ids, whatever is online,
stale, quarantined or out of service. -/
theorem sticky_coverage_exact (ctx : BuildCtx) (states : StateMap) (tips : List ObservedTip)
    (mem : HubMemory) (now : Nat) :
    let v := (buildView ctx states tips mem now).1
    (∀ log, (v.cov log).Exact v [log] ∧
        ∀ n, (v.cov log).has n ↔ ∃ u ∈ v.upstreams, u.enabled ∧ u.known ∧ u.covers log n) ∧
      v.ids.Exact v Log.all ∧
        ∀ n, v.ids.has n ↔ ∃ u ∈ v.upstreams, u.enabled ∧ u.known ∧ u.coversIds n := by
  intro v
  have sticky : v.Sticky := FleetView.IsBuild.sticky ⟨ctx, states, tips, mem, now, rfl⟩
  refine ⟨fun log => ⟨?_, fun n => sticky.has_iff log n⟩, ?_, sticky.ids_has_iff⟩
  · rw [sticky.cov_eq log]
    exact exact_coverageOf v [log]
  · rw [sticky.ids_eq]
    exact exact_coverageOf v Log.all

/-! ## A sample fleet -/

/-- A live server with blocks from `first` on, at the given head and LIB. -/
def liveServer (index : Nat) (first head lib : Fin (2 ^ 32)) : ServerState where
  index := index
  role := .live
  enabled := true
  operatorDisabled := false
  online := true
  stale := false
  priority := 0
  weight := 1
  chainId := none
  traceBeginBlock := first
  traceEndBlock := nextBlock head
  chainStateBeginBlock := first
  chainStateEndBlock := nextBlock head
  finalityDataBeginBlock := 0
  finalityDataEndBlock := 0
  quarantines := []
  declared := none
  maxSessions := none
  connections := 0
  head := some (samplePos head)
  lib := some (samplePos lib)
  rangesKnown := true
  statusV1 := some true
  abi := none
  noBlockLog := false

/-- A frozen server that has reported blocks `first` up to `stop`. -/
def archiveServer (index : Nat) (first stop : Fin (2 ^ 32)) : ServerState :=
  { liveServer index first stop stop with
    role := .frozen
    traceEndBlock := stop
    chainStateEndBlock := stop
    head := none
    lib := none }

/-- A stitched listener that routes to upstreams of any ABI. -/
def sampleCtx : BuildCtx where
  topology := .stitched
  pinnedChainId := none
  abiPin := none
  abiMismatch := .warn

/-- Two archives with a hole between them; the upper one is offline. -/
example :
    let low := { archiveServer 0 1 100 with rangesKnown := false, declared := some ⟨1, 100⟩ }
    let high := { archiveServer 1 120 150 with online := false }
    let v := (buildView sampleCtx ⟨[("low", low), ("high", high)], by decide, by decide⟩
      [] (.new 0) 0).1
    v.ids =
      { components := [⟨1, 100⟩, ⟨120, 150⟩], top := ⟨120, 150⟩, gaps := [⟨100, 120⟩]
        offlineOnly := [⟨120, 150⟩], liveTailBegin := none } := by
  decide +kernel

end FleetRouter.Fleet
