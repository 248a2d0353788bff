import FleetRouter.Lib.Transition
import FleetRouter.Fleet.Build

/-!
# The hub of a listener

A hub rebuilds its view from changing state maps, answers with fresh tips of
views it has published, and records the tips sessions observe, in any order.
Every call settles a head and a LIB against the hub's memory; what holds of the
answers over whole runs follows from what one call does.
-/

namespace FleetRouter.Fleet

open Ship Session Transition

/-! ## The hub -/

/-- An upstream without its connection counter, which views share. -/
def UpstreamView.content (u : UpstreamView) : UpstreamView := { u with connections := 0 }

/-- Everything but the generation is equal, so publishing one instead of the other
would change nothing for a reader. -/
def FleetView.sameContent (v w : FleetView) : Bool :=
  v.topology = w.topology && v.chainId = w.chainId && v.head = w.head && v.lib = w.lib
    && v.trace = w.trace && v.chainState = w.chainState && v.finality = w.finality
    && v.ids = w.ids
    && v.upstreams.map UpstreamView.content = w.upstreams.map UpstreamView.content
    && v.abi.map AbiEntry.fp = w.abi.map AbiEntry.fp && v.abiSource = w.abiSource
    && v.frozenUnknown = w.frozenUnknown && v.statusReady = w.statusReady
    && v.liveConfigured = w.liveConfigured && v.online = w.online
    && v.liveOnline = w.liveOnline && v.liveOverlap = w.liveOverlap && v.anchors = w.anchors

/-- The fleet state of one listener: its memory, the observed tips by upstream
index, and every view published so far. -/
structure Hub where
  mem : HubMemory
  tips : List ObservedTip
  latest : FleetView
  earlier : List FleetView

namespace Hub

def new (ctx : BuildCtx) (count : Nat) (now : Nat) : Hub where
  mem := .new now
  tips := List.replicate count .default
  latest := .empty ctx.topology ctx.pinnedChainId
  earlier := []

/-- Rebuild the view, and publish it when it differs from the current one. -/
def rebuild (ctx : BuildCtx) (hub : Hub) (states : StateMap) (now : Nat) : FleetView × Hub :=
  let (view, mem) := buildView ctx states hub.tips hub.mem now
  if view.sameContent hub.latest then (view, { hub with mem })
  else
    let generation := mem.generation + 1
    (view,
      { hub with
        mem := { mem with generation }
        latest := { view with generation }
        earlier := hub.latest :: hub.earlier })

/-- Head and LIB of a view with the observed tips merged in. -/
def freshTip (hub : Hub) (v : FleetView) (now : Nat) :
    (Option BlockPos × Option BlockPos) × Hub :=
  let (tip, mem) := Fleet.freshTip v hub.tips hub.mem now
  (tip, { hub with mem })

def observe (hub : Hub) (index : Nat) (head lib : BlockPos) : Hub :=
  { hub with tips := hub.tips.modify index fun tip => tip.observe head lib }

/-- Every view published so far, the latest first. -/
def published (hub : Hub) : List FleetView := hub.latest :: hub.earlier

end Hub

/-! ## Runs -/

/-- What a call returned, and the LIB high-water mark after it. -/
structure Call where
  isRebuild : Bool
  head : Option BlockPos
  lib : Option BlockPos
  mark : Option BlockPos
  deriving DecidableEq, Repr

/-- The numbers of the head and the LIB. -/
def Call.nums (c : Call) : Option (Fin (2 ^ 32)) × Option (Fin (2 ^ 32)) :=
  (c.head.map BlockPos.num, c.lib.map BlockPos.num)

/-- A hub with what happened to it: the positions sources reported, the LIBs of the
anchors its answers used, and the calls, newest first. -/
structure HubRun where
  hub : Hub
  reported : List BlockPos
  used : List BlockPos
  calls : List Call

inductive HubEvent where
  | rebuild (states : StateMap) (now : Nat)
  /-- A fresh tip of a published view, counted back from the latest. -/
  | freshTip (back : Nat) (now : Nat)
  | observe (index : Nat) (head lib : BlockPos)

/-- Every head and LIB of a state map. -/
def StateMap.positions (states : StateMap) : List BlockPos :=
  states.entries.flatMap fun entry => entry.2.head.toList ++ entry.2.lib.toList

/-- The LIBs of the anchors of a view, from their status and as observed. -/
def anchorLibs (v : FleetView) (tips : List ObservedTip) : List BlockPos :=
  (listed v.upstreams v.anchors).flatMap fun u =>
    u.lib.toList ++ (tips[u.index]?.bind ObservedTip.lib).toList

namespace HubRun

def start (ctx : BuildCtx) (count now : Nat) : HubRun where
  hub := .new ctx count now
  reported := []
  used := []
  calls := []

/-- Record an answer of the hub, taken from the anchors of `v`. -/
def answer (r : HubRun) (isRebuild : Bool) (v : FleetView)
    (tip : Option BlockPos × Option BlockPos) (hub : Hub) (reported : List BlockPos) : HubRun where
  hub := hub
  reported := reported
  used := anchorLibs v hub.tips ++ r.used
  calls := ⟨isRebuild, tip.1, tip.2, hub.mem.libHwm⟩ :: r.calls

def step (ctx : BuildCtx) (r : HubRun) : HubEvent → Option HubRun
  | .rebuild states now =>
      let out := r.hub.rebuild ctx states now
      some (r.answer true out.1 (out.1.head, out.1.lib) out.2 (states.positions ++ r.reported))
  | .freshTip back now =>
      match r.hub.published[back]? with
      | none => none
      | some v =>
          let out := r.hub.freshTip v now
          some (r.answer false v out.1 out.2 r.reported)
  | .observe index head lib =>
      some
        { r with
          hub := r.hub.observe index head lib
          reported := head :: lib :: r.reported }

end HubRun

def hubMachine (ctx : BuildCtx) (count now : Nat) : Machine HubRun HubEvent where
  init r := r = .start ctx count now
  step := HubRun.step ctx

/-- Head and LIB of every upstream are set together. -/
def HubEvent.Paired : HubEvent → Prop
  | .rebuild states _ => ∀ entry ∈ states.entries, entry.2.head = none ↔ entry.2.lib = none
  | _ => True

/-- A step answers with a rebuild or a fresh tip, or records an observation. -/
theorem HubRun.step_cases {ctx : BuildCtx} {r r' : HubRun} {e : HubEvent}
    (step : r.step ctx e = some r') :
    (∃ states now, e = .rebuild states now ∧
      r' = r.answer true (r.hub.rebuild ctx states now).1
        ((r.hub.rebuild ctx states now).1.head, (r.hub.rebuild ctx states now).1.lib)
        (r.hub.rebuild ctx states now).2 (states.positions ++ r.reported)) ∨
    (∃ back now v, e = .freshTip back now ∧ r.hub.published[back]? = some v ∧
      r' = r.answer false v (r.hub.freshTip v now).1 (r.hub.freshTip v now).2 r.reported) ∨
    ∃ index head lib, e = .observe index head lib ∧
      r' = { r with
        hub := r.hub.observe index head lib, reported := head :: lib :: r.reported } := by
  cases e with
  | rebuild states now => exact .inl ⟨states, now, rfl, (Option.some.inj step).symm⟩
  | freshTip back now =>
      simp only [HubRun.step] at step
      cases found : r.hub.published[back]? with
      | none => simp [found] at step
      | some v =>
          simp only [found] at step
          exact .inr (.inl ⟨back, now, v, rfl, found, (Option.some.inj step).symm⟩)
  | observe index head lib => exact .inr (.inr ⟨index, head, lib, rfl, (Option.some.inj step).symm⟩)

/-! ## What a rebuild does -/

/-- The upstreams of a state map, in the order a view lists them. -/
def StateMap.upstreams (states : StateMap) : List UpstreamView :=
  states.sorted.map fun entry => upstreamView entry.1 entry.2

def StateMap.liveConfigured (states : StateMap) : Bool :=
  states.upstreams.any fun u => u.enabled && u.role = .live

/-- Where a rebuild takes head and LIB from. -/
def Hub.rebuildSource (hub : Hub) (states : StateMap) : Option BlockPos × Option BlockPos :=
  tipSource states.upstreams hub.tips states.liveConfigured hub.mem.lastTip

/-- Which ABIs are accepted does not matter for the tip. -/
theorem findAnchors_judgedView (ok : Option UInt64 → Bool) (states : StateMap) :
    findAnchors (states.sorted.map (judgedView ok)) = findAnchors states.upstreams := by
  simp only [findAnchors, StateMap.upstreams, List.length_map, List.getElem?_map, Option.any_map]
  rfl

theorem tipSource_judgedView (ok : Option UInt64 → Bool) (states : StateMap)
    (tips : List ObservedTip) (liveConfigured : Bool)
    (lastTip : Option BlockPos × Option BlockPos) :
    tipSource (states.sorted.map (judgedView ok)) tips liveConfigured lastTip =
      tipSource states.upstreams tips liveConfigured lastTip := by
  simp only [tipSource, findAnchors_judgedView, anchorMax_eq, newestArchive]
  simp only [StateMap.upstreams, List.getElem?_map, List.map_filterMap, List.filter_map,
    List.map_map, Option.map_map]
  rfl

theorem Settled.congr {h l : Option BlockPos} {mem mem₁ mem₂ : HubMemory}
    {tip : Option BlockPos × Option BlockPos} (settled : Settled h l mem (tip, mem₁))
    (mark : mem₂.libHwm = mem₁.libHwm) (last : mem₂.lastTip = mem₁.lastTip) :
    Settled h l mem (tip, mem₂) where
  silent none := by
    rw [mark, last]
    exact settled.silent none
  found head isHead := by
    rw [mark, last]
    exact settled.found head isHead

theorem settled_buildView (ctx : BuildCtx) (states : StateMap) (tips : List ObservedTip)
    (mem : HubMemory) (now : Nat) :
    Settled (tipSource states.upstreams tips states.liveConfigured mem.lastTip).1
      (tipSource states.upstreams tips states.liveConfigured mem.lastTip).2 mem
      (((buildView ctx states tips mem now).1.head, (buildView ctx states tips mem now).1.lib),
        (buildView ctx states tips mem now).2) := by
  have settled := settled_fleetTip states.upstreams tips states.liveConfigured mem
  refine settled.congr ?_ ?_
  · simp only [buildView]
    split <;> exact HubMemory.noteHead_libHwm ..
  · simp only [buildView]
    split <;> exact HubMemory.noteHead_lastTip ..

namespace Hub

variable (ctx : BuildCtx) (hub : Hub) (states : StateMap) (now : Nat)

/-- A rebuild settles the tip it found. -/
theorem settled_rebuild :
    Settled (hub.rebuildSource states).1 (hub.rebuildSource states).2 hub.mem
      (((hub.rebuild ctx states now).1.head, (hub.rebuild ctx states now).1.lib),
        (hub.rebuild ctx states now).2.mem) := by
  have settled := settled_buildView ctx states hub.tips hub.mem now
  simp only [rebuild]
  split
  · exact settled
  · exact settled.congr rfl rfl

@[simp] theorem rebuild_tips : (hub.rebuild ctx states now).2.tips = hub.tips := by
  simp only [rebuild]
  split <;> rfl

theorem rebuild_fst :
    (hub.rebuild ctx states now).1 = (buildView ctx states hub.tips hub.mem now).1 := by
  simp only [rebuild]
  split <;> rfl

/-- A rebuild publishes at most the view it built. -/
theorem mem_published_rebuild {v : FleetView}
    (listed : v ∈ (hub.rebuild ctx states now).2.published) :
    v ∈ hub.published ∨
      ∃ generation, v = { (hub.rebuild ctx states now).1 with generation } := by
  simp only [rebuild] at listed ⊢
  split at listed
  · exact .inl listed
  · rename_i differs
    simp only [differs]
    rcases List.mem_cons.mp listed with isNew | older
    · exact .inr ⟨_, isNew⟩
    · exact .inl older

/-- The latest view has the head of the last rebuild. -/
theorem rebuild_latest_head :
    (hub.rebuild ctx states now).2.latest.head = (hub.rebuild ctx states now).1.head := by
  simp only [rebuild]
  split
  · rename_i same
    simp only [FleetView.sameContent, Bool.and_eq_true, decide_eq_true_eq] at same
    grind
  · rfl

/-- A rebuild takes its tip from the upstreams of its view. -/
theorem rebuildSource_eq :
    hub.rebuildSource states =
      tipSource (hub.rebuild ctx states now).1.upstreams hub.tips states.liveConfigured
        hub.mem.lastTip := by
  obtain ⟨ok, upstreams⟩ := exists_upstreams_buildView ctx states hub.tips hub.mem now
  rw [rebuild_fst, upstreams, tipSource_judgedView]
  rfl

theorem rebuild_anchors :
    (hub.rebuild ctx states now).1.anchors =
      findAnchors (hub.rebuild ctx states now).1.upstreams := by
  obtain ⟨ok, upstreams⟩ := exists_upstreams_buildView ctx states hub.tips hub.mem now
  rw [rebuild_fst, upstreams, findAnchors_judgedView]
  rfl

end Hub

/-! ## What runs keep -/

/-- A view with positions of a property only, head and LIB set together. -/
structure FleetView.Sourced (P : BlockPos → Prop) (v : FleetView) : Prop where
  paired : Fleet.Paired v.upstreams
  both : v.head ≠ none → v.lib ≠ none
  tip : TipHas P (v.head, v.lib)
  status : ∀ u ∈ v.upstreams, TipHas P (u.head, u.lib)

theorem FleetView.Sourced.mono {P Q : BlockPos → Prop} {v : FleetView} (sourced : v.Sourced P)
    (imp : ∀ p, P p → Q p) : v.Sourced Q where
  paired := sourced.paired
  both := sourced.both
  tip := sourced.tip.mono imp
  status u member := (sourced.status u member).mono imp

/-- Everything a run has returned or remembers, it was told. -/
structure HubRun.Inv (r : HubRun) : Prop where
  views : ∀ v ∈ r.hub.published, v.Sourced (· ∈ r.reported)
  observed : ∀ tip ∈ r.hub.tips, TipHas (· ∈ r.reported) (tip.head, tip.lib)
  mark : ∀ p ∈ r.hub.mem.libHwm, p ∈ r.reported
  last : TipHas (· ∈ r.reported) r.hub.mem.lastTip
  lastBoth : r.hub.mem.lastTip.1 ≠ none → r.hub.mem.lastTip.2 ≠ none
  used : ∀ p ∈ r.used, height (some p) ≤ height r.hub.mem.libHwm
  calls : ∀ c ∈ r.calls, (c.head ≠ none → c.lib ≠ none) ∧
    height c.lib = min (height c.mark) (height c.head) ∧ TipHas (· ∈ r.reported) (c.head, c.lib)
  known : ∀ c ∈ r.calls, c.isRebuild → c.head ≠ none → r.hub.mem.lastTip.1 ≠ none
  kept : r.calls.Pairwise fun later earlier =>
    earlier.isRebuild → earlier.head ≠ none → later.isRebuild → later.head ≠ none

namespace HubRun.Inv

variable {r : HubRun}

theorem start (ctx : BuildCtx) (count now : Nat) : (HubRun.start ctx count now).Inv where
  views v listed := by
    obtain rfl : v = .empty ctx.topology ctx.pinnedChainId := by
      simpa [HubRun.start, Hub.new, Hub.published] using listed
    constructor <;> simp [FleetView.empty, Paired, TipHas]
  observed tip listed := by
    obtain rfl : tip = .default := (List.mem_replicate.mp listed).2
    simp [TipHas, ObservedTip.head, ObservedTip.lib, ObservedTip.default]
  mark := by simp [HubRun.start, Hub.new, HubMemory.new]
  last := by simp [TipHas, HubRun.start, Hub.new, HubMemory.new]
  lastBoth := by simp [HubRun.start, Hub.new, HubMemory.new]
  used := by simp [HubRun.start]
  calls := by simp [HubRun.start]
  known := by simp [HubRun.start]
  kept := by simp [HubRun.start]

/-- An answer keeps the invariant when it settled positions that were reported and
accounts for its anchors. -/
theorem answer (inv : r.Inv) {isRebuild : Bool} {v : FleetView}
    {tip : Option BlockPos × Option BlockPos} {hub : Hub} {reported : List BlockPos}
    {h l : Option BlockPos} (settled : Settled h l r.hub.mem (tip, hub.mem))
    (grown : ∀ p ∈ r.reported, p ∈ reported) (tips : hub.tips = r.hub.tips)
    (views : ∀ w ∈ hub.published, w.Sourced (· ∈ reported))
    (source : TipHas (· ∈ reported) (h, l)) (both : h ≠ none → l ≠ none)
    (anchors : ∀ p ∈ anchorLibs v hub.tips, height (some p) ≤ height hub.mem.libHwm)
    (found : isRebuild = true → r.hub.mem.lastTip.1 ≠ none → h ≠ none) :
    (r.answer isRebuild v tip hub reported).Inv := by
  obtain ⟨returned, mark, last⟩ := settled.tipHas source
    (fun p isMark => grown p (inv.mark p isMark)) (inv.last.mono grown)
  obtain ⟨tipBoth, lastBoth⟩ := settled.paired both inv.lastBoth
  exact {
    views
    observed := fun tip listed => (inv.observed tip (tips ▸ listed)).mono grown
    mark
    last
    lastBoth
    used := by
      intro p listed
      rcases List.mem_append.mp listed with now | before
      · exact anchors p now
      · exact (inv.used p before).trans settled.libHwm_mono
    calls := by
      intro c listed
      rcases List.mem_cons.mp listed with rfl | before
      · refine ⟨tipBoth, ?_, returned⟩
        rw [settled.height_lib, settled.head_eq]
      · obtain ⟨both, lower, tip⟩ := inv.calls c before
        exact ⟨both, lower, tip.mono grown⟩
    known := by
      intro c listed rebuild head
      refine settled.lastTip_known ?_
      rcases List.mem_cons.mp listed with rfl | before
      · exact .inr (settled.head_eq ▸ head)
      · exact .inl (inv.known c before rebuild head)
    kept := by
      refine List.pairwise_cons.mpr ⟨?_, inv.kept⟩
      intro c before rebuild head isRebuild
      rw [settled.head_eq]
      exact found isRebuild (inv.known c before rebuild head) }

end HubRun.Inv

/-- An anchor's LIB is one its upstream accounts for. -/
theorem exists_height_le_of_mem_anchorLibs {v : FleetView} {tips : List ObservedTip}
    {p : BlockPos} (member : p ∈ anchorLibs v tips) :
    ∃ u ∈ listed v.upstreams v.anchors, height (some p) ≤ height (reportedTip tips u).2 := by
  obtain ⟨u, anchor, isLib⟩ := List.mem_flatMap.mp member
  refine ⟨u, anchor, ?_⟩
  simp only [reportedTip, height_maxByNum]
  rcases List.mem_append.mp isLib with status | observed
  · rw [Option.mem_toList.mp status]
    exact le_max_left ..
  · rw [Option.mem_toList.mp observed]
    exact le_max_right ..

theorem StateMap.mem_positions {states : StateMap} {entry : String × ServerState} {p : BlockPos}
    (member : entry ∈ states.entries) (isTip : p ∈ entry.2.head ∨ p ∈ entry.2.lib) :
    p ∈ states.positions := by
  refine List.mem_flatMap.mpr ⟨entry, member, List.mem_append.mpr ?_⟩
  exact isTip.imp Option.mem_toList.mpr Option.mem_toList.mpr

/-- A state map with head and LIB set together gives a view of its own positions. -/
theorem Hub.rebuild_upstreams {states : StateMap}
    (paired : ∀ entry ∈ states.entries, entry.2.head = none ↔ entry.2.lib = none)
    (ctx : BuildCtx) (hub : Hub) (now : Nat) :
    Paired (hub.rebuild ctx states now).1.upstreams ∧
      ∀ u ∈ (hub.rebuild ctx states now).1.upstreams,
        TipHas (· ∈ states.positions) (u.head, u.lib) := by
  obtain ⟨ok, upstreams⟩ := exists_upstreams_buildView ctx states hub.tips hub.mem now
  rw [rebuild_fst, upstreams]
  simp only [Paired, List.forall_mem_map, mem_sorted]
  refine ⟨paired, fun entry member => ⟨fun p isHead => ?_, fun p isLib => ?_⟩⟩
  · exact StateMap.mem_positions member (.inl isHead)
  · exact StateMap.mem_positions member (.inr isLib)

namespace HubRun.Inv

variable {r : HubRun}

theorem reports (inv : r.Inv) {reported : List BlockPos} {upstreams : List UpstreamView}
    (grown : ∀ p ∈ r.reported, p ∈ reported)
    (status : ∀ u ∈ upstreams, TipHas (· ∈ reported) (u.head, u.lib)) :
    Reports (· ∈ reported) upstreams r.hub.tips where
  status := status
  observed tip member := (inv.observed tip member).mono grown

theorem rebuild (inv : r.Inv) (ctx : BuildCtx) {states : StateMap} (now : Nat)
    (paired : ∀ entry ∈ states.entries, entry.2.head = none ↔ entry.2.lib = none) :
    (r.answer true (r.hub.rebuild ctx states now).1
      ((r.hub.rebuild ctx states now).1.head, (r.hub.rebuild ctx states now).1.lib)
      (r.hub.rebuild ctx states now).2 (states.positions ++ r.reported)).Inv := by
  have settled := r.hub.settled_rebuild ctx states now
  have source := r.hub.rebuildSource_eq ctx states now
  obtain ⟨pairedViews, ofStates⟩ := Hub.rebuild_upstreams paired ctx r.hub now
  have grown : ∀ p ∈ r.reported, p ∈ states.positions ++ r.reported :=
    fun p before => List.mem_append_right _ before
  have status : ∀ u ∈ (r.hub.rebuild ctx states now).1.upstreams,
      TipHas (· ∈ states.positions ++ r.reported) (u.head, u.lib) :=
    fun u member => (ofStates u member).mono fun p new => List.mem_append_left _ new
  have found : TipHas (· ∈ states.positions ++ r.reported) (r.hub.rebuildSource states) := by
    rw [source]
    exact (inv.reports grown status).tipSource _ (inv.last.mono grown)
  have both : (r.hub.rebuildSource states).1 ≠ none → (r.hub.rebuildSource states).2 ≠ none := by
    rw [source]
    exact tipSource_paired pairedViews inv.lastBoth
  obtain ⟨returned, -⟩ := settled.tipHas found
    (fun p isMark => grown p (inv.mark p isMark)) (inv.last.mono grown)
  refine inv.answer settled grown (by simp) ?_ found both ?_ ?_
  · intro w published
    rcases r.hub.mem_published_rebuild ctx states now published with before | ⟨generation, rfl⟩
    · exact (inv.views w before).mono grown
    · exact ⟨pairedViews, (settled.paired both inv.lastBoth).1, returned, status⟩
  · intro p isLib
    obtain ⟨u, anchor, below⟩ := exists_height_le_of_mem_anchorLibs isLib
    rw [Hub.rebuild_anchors] at anchor
    rw [Hub.rebuild_tips] at below
    refine below.trans (settled.counted ?_ ?_) <;> rw [source]
    · exact (tipSource_anchor pairedViews anchor).1
    · exact (tipSource_anchor pairedViews anchor).2
  · exact fun _ known => tipSource_known known

theorem freshTip (inv : r.Inv) {v : FleetView} (published : v ∈ r.hub.published) (now : Nat) :
    (r.answer false v (r.hub.freshTip v now).1 (r.hub.freshTip v now).2 r.reported).Inv := by
  have settled := settled_freshTip v r.hub.tips r.hub.mem now
  have sourced := inv.views v published
  have grown : ∀ p ∈ r.reported, p ∈ r.reported := fun _ before => before
  have anchored := (inv.reports grown sourced.status).anchorMax v.anchors
  have anchorBoth := @anchorMax_paired _ r.hub.tips sourced.paired v.anchors
  refine inv.answer settled grown rfl inv.views (sourced.tip.maxByNum anchored) ?_ ?_ nofun
  · intro known none
    obtain ⟨noLib, noAnchor⟩ := maxByNum_eq_none.mp none
    refine known (maxByNum_eq_none.mpr ⟨?_, anchorBoth.mpr noAnchor⟩)
    by_contra head
    exact sourced.both head noLib
  · intro p isLib
    obtain ⟨u, anchor, below⟩ := exists_height_le_of_mem_anchorLibs isLib
    refine below.trans (settled.counted ?_ ?_)
    · intro none
      have quiet := anchorBoth.mp (maxByNum_eq_none.mp none).2
      rw [anchorMax_snd, maxOver_eq_none] at quiet
      exact quiet _ (List.mem_map_of_mem anchor)
    · rw [height_maxByNum, anchorMax_snd]
      exact le_max_of_le_right (height_le_maxOver (List.mem_map_of_mem anchor))

theorem observe (inv : r.Inv) (index : Nat) (head lib : BlockPos) :
    HubRun.Inv { r with
      hub := r.hub.observe index head lib
      reported := head :: lib :: r.reported } := by
  have grown : ∀ p ∈ r.reported, p ∈ head :: lib :: r.reported :=
    fun p before => List.mem_cons_of_mem _ (List.mem_cons_of_mem _ before)
  exact {
    views := fun v published => (inv.views v published).mono grown
    observed := by
      intro tip listed
      obtain ⟨i, found⟩ := List.mem_iff_getElem?.mp listed
      simp only [Hub.observe, List.getElem?_modify, Option.map_eq_map] at found
      obtain ⟨before, isTip, rfl⟩ := Option.map_eq_some_iff.mp found
      have kept := (inv.observed before (List.mem_of_getElem? isTip)).mono grown
      split
      · obtain ⟨newHead, newLib⟩ := before.observe_cases head lib
        constructor
        · rcases newHead with same | same <;> rw [same]
          · exact kept.1
          · simp
        · rcases newLib with same | same <;> rw [same]
          · exact kept.2
          · simp
      · exact kept
    mark := fun p isMark => grown p (inv.mark p isMark)
    last := inv.last.mono grown
    lastBoth := inv.lastBoth
    used := inv.used
    calls := by
      intro c listed
      obtain ⟨both, lower, tip⟩ := inv.calls c listed
      exact ⟨both, lower, tip.mono grown⟩
    known := inv.known
    kept := inv.kept }

end HubRun.Inv

theorem HubRun.inv_of_reachable {ctx : BuildCtx} {count now : Nat} {r : HubRun}
    (reachable : Reachable (hubMachine ctx count now) (fun _ e => e.Paired) r) : r.Inv := by
  refine reachable.invariant ?_ ?_
  · rintro _ rfl
    exact .start ctx count now
  · intro r e r' _ inv paired step
    rcases HubRun.step_cases step with
      ⟨states, at_, rfl, rfl⟩ | ⟨back, at_, v, rfl, found, rfl⟩ | ⟨index, head, lib, rfl, rfl⟩
    · exact inv.rebuild ctx at_ paired
    · exact inv.freshTip (List.mem_of_getElem? found) at_
    · exact inv.observe index head lib

/-- No step lowers the mark. -/
theorem HubRun.libHwm_mono {ctx : BuildCtx} {r r' : HubRun} {e : HubEvent}
    (step : r.step ctx e = some r') : height r.hub.mem.libHwm ≤ height r'.hub.mem.libHwm := by
  rcases HubRun.step_cases step with
    ⟨states, now, rfl, rfl⟩ | ⟨back, now, v, rfl, found, rfl⟩ | ⟨index, head, lib, rfl, rfl⟩
  · exact (r.hub.settled_rebuild ctx states now).libHwm_mono
  · exact (settled_freshTip v r.hub.tips r.hub.mem now).libHwm_mono
  · exact le_rfl

theorem height_some_le {p : BlockPos} {pos : Option BlockPos} :
    height (some p) ≤ height pos ↔ ∃ q ∈ pos, p.num ≤ q.num := by
  cases pos with
  | none => simp [height_some]
  | some q => simp [height_some]

/-- A known position at the lower of two heights is the lower of two known ones. -/
theorem exists_min_of_height_eq {lib head : BlockPos} {mark : Option BlockPos}
    (lower : height (some lib) = min (height mark) (height (some head))) :
    ∃ m ∈ mark, lib.num = min m.num head.num := by
  cases mark with
  | none => simp [height_some] at lower
  | some m =>
      refine ⟨m, rfl, ?_⟩
      rw [height_some, height_some, height_some, ← WithBot.coe_min] at lower
      exact WithBot.coe_inj.mp lower

/-- In every run of rebuilds, fresh tips of published views and observations, over
upstreams whose head and LIB are set together: the LIB high-water mark only rises
and is at least every LIB of an anchor used; every head comes with a LIB, the lower
of mark and head; a head once returned by a rebuild is followed by heads and LIBs
only; and what is returned was reported, number and id, by one source. -/
theorem fleet_tip_invariants (ctx : BuildCtx) (count now : Nat) {r : HubRun}
    (reachable : Reachable (hubMachine ctx count now) (fun _ e => e.Paired) r) :
    (∀ e r', (hubMachine ctx count now).step r e = some r' →
      height r.hub.mem.libHwm ≤ height r'.hub.mem.libHwm) ∧
    (∀ p ∈ r.used, ∃ mark ∈ r.hub.mem.libHwm, p.num ≤ mark.num) ∧
    (∀ c ∈ r.calls, (c.head = none → c.lib = none) ∧
      ∀ head ∈ c.head, ∃ lib ∈ c.lib, ∃ mark ∈ c.mark, lib.num = min mark.num head.num) ∧
    (r.calls.Pairwise fun later earlier => earlier.isRebuild → earlier.head ≠ none →
      later.isRebuild → later.head ≠ none ∧ later.lib ≠ none) ∧
    ∀ c ∈ r.calls, ∀ p, p ∈ c.head ∨ p ∈ c.lib → p ∈ r.reported := by
  have inv := HubRun.inv_of_reachable reachable
  refine ⟨fun e r' step => HubRun.libHwm_mono step, ?_, ?_, ?_, ?_⟩
  · exact fun p used => height_some_le.mp (inv.used p used)
  · intro c listed
    obtain ⟨both, lower, -⟩ := inv.calls c listed
    constructor
    · intro none
      rw [none, height_none, min_bot_right, height_eq_bot] at lower
      exact lower
    · intro head isHead
      rw [Option.mem_def] at isHead
      obtain ⟨lib, isLib⟩ := Option.ne_none_iff_exists'.mp (both (by simp [isHead]))
      rw [isLib, isHead] at lower
      exact ⟨lib, isLib, exists_min_of_height_eq lower⟩
  · refine inv.kept.imp_of_mem fun {later} {earlier} listed _ kept rebuild head isRebuild => ?_
    have known := kept rebuild head isRebuild
    exact ⟨known, (inv.calls later listed).1 known⟩
  · intro c listed p isTip
    obtain ⟨-, -, tip⟩ := inv.calls c listed
    exact isTip.elim (tip.1 p) (tip.2 p)

instance : DecidablePred HubEvent.Paired
  | .rebuild states _ =>
      inferInstanceAs
        (Decidable (∀ entry ∈ states.entries, entry.2.head = none ↔ entry.2.lib = none))
  | .freshTip .. => isTrue trivial
  | .observe .. => isTrue trivial

/-- Two live servers: one at head 100 with LIB 90, and one behind it. -/
def leadingMap : StateMap :=
  ⟨[("lead", liveServer 0 1 100 90), ("behind", liveServer 1 1 80 70)], by decide, by decide⟩

/-- The server in front goes offline. -/
def behindMap : StateMap :=
  ⟨[("lead", { liveServer 0 1 100 90 with online := false }), ("behind", liveServer 1 1 80 70)],
    by decide, by decide⟩

/-- Every server is offline. -/
def offlineMap : StateMap :=
  ⟨[("lead", { liveServer 0 1 100 90 with online := false }),
    ("behind", { liveServer 1 1 80 70 with online := false })], by decide, by decide⟩

theorem fleet_tip_invariants_sample :
    ∃ r, Reachable (hubMachine sampleCtx 2 0) (fun _ e => e.Paired) r ∧
      r.calls.map Call.nums =
        [(some 105, some 95), (some 105, some 95), (some 100, some 90)] ∧
      ∀ c ∈ r.calls, ∀ p, p ∈ c.head ∨ p ∈ c.lib → p ∈ r.reported := by
  have run : ∃ r, Reachable (hubMachine sampleCtx 2 0) (fun _ e => e.Paired) r ∧
      r.calls.map Call.nums =
        [(some 105, some 95), (some 105, some 95), (some 100, some 90)] :=
    exists_reachable_of_run
      [.rebuild leadingMap 1, .observe 0 (samplePos 105) (samplePos 95), .freshTip 0 2,
        .rebuild offlineMap 3] rfl (by decide +kernel)
  obtain ⟨r, reachable, calls⟩ := run
  exact ⟨r, reachable, calls, (fleet_tip_invariants sampleCtx 2 0 reachable).2.2.2.2⟩

/-! ## The LIB over time -/

/-- The LIB of the last answer. -/
def HubRun.lastLib (r : HubRun) : Option BlockPos := r.calls.head?.bind Call.lib

/-- Fresh tips are of the latest view. -/
def HubEvent.OnLatest : HubEvent → Prop
  | .freshTip back _ => back = 0
  | _ => True

/-- No upstream's own LIB goes back. -/
def HubEvent.Grows (r : HubRun) : HubEvent → Prop
  | .rebuild states _ => ∀ v ∈ r.hub.published, ∀ u ∈ v.upstreams, ∀ entry ∈ states.entries,
      entry.1 = u.endpoint → height u.lib ≤ height entry.2.lib
  | _ => True

/-- A rebuild takes a head that is not below the LIB returned last. -/
def HubEvent.Steady (r : HubRun) : HubEvent → Prop
  | .rebuild states _ => height r.lastLib ≤ height (r.hub.rebuildSource states).1
  | _ => True

/-- The head a fresh tip of the latest view finds. -/
def Hub.freshHead (hub : Hub) : Option BlockPos :=
  maxByNum hub.latest.head (anchorMax hub.latest.upstreams hub.tips hub.latest.anchors).1

/-- Observed tips only rise, and with them the head of the latest view. -/
theorem Hub.height_freshHead_observe (hub : Hub) (index : Nat) (head lib : BlockPos) :
    height hub.freshHead ≤ height (hub.observe index head lib).freshHead := by
  simp only [freshHead, height_maxByNum]
  refine max_le_max le_rfl (height_anchorMax_mono ?_ _ _)
  intro i
  simp only [observe, List.getElem?_modify, Option.map_eq_map]
  cases hub.tips[i]? with
  | none => simp
  | some tip =>
      simp only [Option.map_some, Option.bind_some]
      split
      · exact (tip.height_le_observe head lib).1
      · exact le_rfl

/-- The last LIB is below the mark and below the head of the latest view. -/
structure HubRun.LibBelow (r : HubRun) : Prop where
  mark : height r.lastLib ≤ height r.hub.mem.libHwm
  head : height r.lastLib ≤ height r.hub.freshHead

section Answer

variable {r : HubRun} {isRebuild : Bool} {v : FleetView} {tip : Option BlockPos × Option BlockPos}
  {hub : Hub} {reported : List BlockPos} {h l : Option BlockPos}

theorem HubRun.LibBelow.answer (settled : Settled h l r.hub.mem (tip, hub.mem))
    (head : height h ≤ height hub.freshHead) :
    (r.answer isRebuild v tip hub reported).LibBelow where
  mark := settled.height_lib.trans_le (min_le_left ..)
  head := settled.height_lib.trans_le ((min_le_right ..).trans head)

/-- An answer keeps the LIB up exactly when its head is not below the last LIB. -/
theorem HubRun.LibBelow.lastLib_le_iff (below : r.LibBelow)
    (settled : Settled h l r.hub.mem (tip, hub.mem)) :
    height r.lastLib ≤ height (r.answer isRebuild v tip hub reported).lastLib ↔
      height r.lastLib ≤ height h := by
  have lib : height (r.answer isRebuild v tip hub reported).lastLib =
      min (height hub.mem.libHwm) (height h) := settled.height_lib
  rw [lib, le_min_iff]
  exact and_iff_right (below.mark.trans settled.libHwm_mono)

end Answer

theorem HubRun.libBelow_of_reachable {ctx : BuildCtx} {count now : Nat} {r : HubRun}
    (reachable : Reachable (hubMachine ctx count now) (fun _ e => e.OnLatest) r) :
    r.LibBelow := by
  refine reachable.invariant ?_ ?_
  · rintro _ rfl
    exact ⟨bot_le, bot_le⟩
  · intro r e r' _ below onLatest step
    rcases HubRun.step_cases step with
      ⟨states, at_, rfl, rfl⟩ | ⟨back, at_, v, rfl, found, rfl⟩ | ⟨index, head, lib, rfl, rfl⟩
    · have settled := r.hub.settled_rebuild ctx states at_
      refine .answer settled ?_
      rw [← settled.head_eq, Hub.freshHead, height_maxByNum, Hub.rebuild_latest_head]
      exact le_max_left ..
    · obtain rfl : back = 0 := onLatest
      obtain rfl : r.hub.latest = v := Option.some.inj found
      exact .answer (settled_freshTip r.hub.latest r.hub.tips r.hub.mem at_) le_rfl
    · exact ⟨below.mark, below.head.trans (r.hub.height_freshHead_observe index head lib)⟩

/-- A step lowers the LIB exactly when it is a rebuild on a head below it. -/
theorem HubRun.step_lastLib_iff {ctx : BuildCtx} {r r' : HubRun} {e : HubEvent}
    (below : r.LibBelow) (onLatest : e.OnLatest) (step : r.step ctx e = some r') :
    height r.lastLib ≤ height r'.lastLib ↔ e.Steady r := by
  rcases HubRun.step_cases step with
    ⟨states, now, rfl, rfl⟩ | ⟨back, now, v, rfl, found, rfl⟩ | ⟨index, head, lib, rfl, rfl⟩
  · exact below.lastLib_le_iff (r.hub.settled_rebuild ctx states now)
  · obtain rfl : back = 0 := onLatest
    obtain rfl : r.hub.latest = v := Option.some.inj found
    refine (below.lastLib_le_iff (settled_freshTip r.hub.latest r.hub.tips r.hub.mem now)).trans ?_
    exact iff_of_true below.head trivial
  · exact iff_of_true le_rfl trivial

/-- The LIBs of the answers, newest first, do not rise. -/
def HubRun.LibsOrdered (r : HubRun) : Prop :=
  r.calls.Pairwise fun later earlier => height earlier.lib ≤ height later.lib

theorem HubRun.LibsOrdered.le_lastLib {r : HubRun} (ordered : r.LibsOrdered) {c : Call}
    (listed : c ∈ r.calls) : height c.lib ≤ height r.lastLib := by
  unfold HubRun.LibsOrdered at ordered
  unfold HubRun.lastLib
  cases calls : r.calls with
  | nil => simp [calls] at listed
  | cons last rest =>
      rw [calls] at ordered listed
      rcases List.mem_cons.mp listed with rfl | before
      · exact le_rfl
      · exact (List.pairwise_cons.mp ordered).1 c before

theorem HubRun.LibsOrdered.step {ctx : BuildCtx} {r r' : HubRun} {e : HubEvent}
    (ordered : r.LibsOrdered) (step : r.step ctx e = some r')
    (kept : height r.lastLib ≤ height r'.lastLib) : r'.LibsOrdered := by
  have answered {c : Call} (isLast : r'.lastLib = c.lib) (calls : r'.calls = c :: r.calls) :
      r'.LibsOrdered := by
    unfold HubRun.LibsOrdered
    rw [calls]
    refine List.pairwise_cons.mpr ⟨fun earlier listed => ?_, ordered⟩
    rw [← isLast]
    exact (ordered.le_lastLib listed).trans kept
  rcases HubRun.step_cases step with
    ⟨states, now, rfl, rfl⟩ | ⟨back, now, v, rfl, found, rfl⟩ | ⟨index, head, lib, rfl, rfl⟩
  · exact answered rfl rfl
  · exact answered rfl rfl
  · exact ordered

instance (r : HubRun) : DecidablePred fun e : HubEvent => e.Grows r
  | .rebuild states _ =>
      inferInstanceAs (Decidable (∀ v ∈ r.hub.published, ∀ u ∈ v.upstreams,
        ∀ entry ∈ states.entries, entry.1 = u.endpoint → height u.lib ≤ height entry.2.lib))
  | .freshTip .. => isTrue trivial
  | .observe .. => isTrue trivial

instance : DecidablePred HubEvent.OnLatest
  | .freshTip back _ => inferInstanceAs (Decidable (back = 0))
  | .rebuild .. => isTrue trivial
  | .observe .. => isTrue trivial

instance (r : HubRun) : DecidablePred fun e : HubEvent => e.Steady r
  | .rebuild states _ =>
      inferInstanceAs (Decidable (height r.lastLib ≤ height (r.hub.rebuildSource states).1))
  | .freshTip .. => isTrue trivial
  | .observe .. => isTrue trivial

end FleetRouter.Fleet
