import Mathlib.Order.WithBot
import FleetRouter.Fleet.View

/-!
# The fleet head and LIB

The tip of a fleet comes from its anchors, the online live upstreams, each with
the head and LIB its monitor reported and those sessions observed on its links.
What the hub remembers between builds, the LIB high-water mark and the last tip,
fills in while the anchors are silent.
-/

namespace FleetRouter.Fleet

open Ship Session

/-- The number of a position that may not be known, below every number when it
is not. -/
def height (pos : Option BlockPos) : WithBot (Fin (2 ^ 32)) := pos.map BlockPos.num

@[simp] theorem height_none : height none = ⊥ := rfl

@[simp] theorem height_some (pos : BlockPos) : height (some pos) = pos.num := rfl

theorem height_eq_bot {pos : Option BlockPos} : height pos = ⊥ ↔ pos = none := by
  cases pos with
  | none => simp
  | some pos => simp [height_some]

/-- The pair from the source with the larger number.  On equal numbers the first
argument wins. -/
def maxByNum (a b : Option BlockPos) : Option BlockPos :=
  match a, b with
  | some x, some y => if x.num < y.num then some y else some x
  | some x, none => some x
  | none, y => y

theorem maxByNum_eq (a b : Option BlockPos) : maxByNum a b = a ∨ maxByNum a b = b := by
  unfold maxByNum
  split
  · split <;> simp
  · simp
  · simp

@[simp] theorem height_maxByNum (a b : Option BlockPos) :
    height (maxByNum a b) = max (height a) (height b) := by
  unfold maxByNum
  split
  · rename_i x y
    split
    · rename_i less
      simp [height_some, max_eq_right (WithBot.coe_le_coe.mpr less.le)]
    · rename_i more
      simp [height_some, max_eq_left (WithBot.coe_le_coe.mpr (not_lt.mp more))]
  · simp
  · simp

theorem maxByNum_eq_none {a b : Option BlockPos} :
    maxByNum a b = none ↔ a = none ∧ b = none := by
  rw [← height_eq_bot, height_maxByNum, max_eq_bot, height_eq_bot, height_eq_bot]

/-- The pair with the largest number, the first on equal numbers. -/
def maxOver (positions : List (Option BlockPos)) : Option BlockPos := positions.foldl maxByNum none

theorem height_foldl_maxByNum (positions : List (Option BlockPos)) (init : Option BlockPos) :
    height init ≤ height (positions.foldl maxByNum init) ∧
      ∀ pos ∈ positions, height pos ≤ height (positions.foldl maxByNum init) := by
  induction positions generalizing init with
  | nil => simp
  | cons next rest ih =>
      obtain ⟨kept, above⟩ := ih (maxByNum init next)
      rw [height_maxByNum, max_le_iff] at kept
      refine ⟨kept.1, ?_⟩
      simp only [List.forall_mem_cons]
      exact ⟨kept.2, above⟩

theorem foldl_maxByNum_mem (positions : List (Option BlockPos)) (init : Option BlockPos) :
    positions.foldl maxByNum init = init ∨ positions.foldl maxByNum init ∈ positions := by
  induction positions generalizing init with
  | nil => exact .inl rfl
  | cons next rest ih =>
      rw [List.foldl_cons, List.mem_cons]
      rcases ih (maxByNum init next) with same | later
      · rcases maxByNum_eq init next with first | second
        · exact .inl (same.trans first)
        · exact .inr (.inl (same.trans second))
      · exact .inr (.inr later)

theorem height_le_maxOver {positions : List (Option BlockPos)} {pos : Option BlockPos}
    (member : pos ∈ positions) : height pos ≤ height (maxOver positions) :=
  (height_foldl_maxByNum positions none).2 pos member

theorem maxOver_mem {positions : List (Option BlockPos)} {pos : BlockPos}
    (found : maxOver positions = some pos) : some pos ∈ positions := by
  rcases foldl_maxByNum_mem positions none with none | member
  · rw [maxOver, none] at found
    cases found
  · exact found ▸ member

theorem maxOver_eq_none {positions : List (Option BlockPos)} :
    maxOver positions = none ↔ ∀ pos ∈ positions, pos = none := by
  constructor
  · intro none pos member
    have below := height_le_maxOver member
    rwa [none, height_none, le_bot_iff, height_eq_bot] at below
  · intro none
    cases found : maxOver positions with
    | none => rfl
    | some pos => exact none _ (maxOver_mem found)

/-! ## Observed tips -/

/-- Highest head and LIB seen on session links to one live upstream. -/
structure ObservedTip where
  headNum : Fin (2 ^ 32)
  libNum : Fin (2 ^ 32)
  inner : Option (BlockPos × BlockPos)
  deriving DecidableEq, Repr

namespace ObservedTip

def default : ObservedTip where
  headNum := 0
  libNum := 0
  inner := none

/-- Record a frame's head and LIB. -/
def observe (tip : ObservedTip) (head lib : BlockPos) : ObservedTip :=
  if head.num ≤ tip.headNum ∧ lib.num ≤ tip.libNum then tip
  else
    let seen :=
      match tip.inner with
      | some (seenHead, seenLib) =>
          (if seenHead.num < head.num then head else seenHead,
            if seenLib.num < lib.num then lib else seenLib)
      | none => (head, lib)
    { headNum := seen.1.num, libNum := seen.2.num, inner := some seen }

/-- The highest head observed so far. -/
def head (tip : ObservedTip) : Option BlockPos := tip.inner.map Prod.fst

def lib (tip : ObservedTip) : Option BlockPos := tip.inner.map Prod.snd

theorem head_eq_none {tip : ObservedTip} : tip.head = none ↔ tip.lib = none := by
  simp [head, lib]

/-- An observation takes the frame's position or keeps the one before, for head
and LIB apart, and never lowers either. -/
theorem observe_cases (tip : ObservedTip) (head lib : BlockPos) :
    ((tip.observe head lib).head = tip.head ∨ (tip.observe head lib).head = some head) ∧
      ((tip.observe head lib).lib = tip.lib ∨ (tip.observe head lib).lib = some lib) := by
  cases seen : tip.inner <;> grind [observe, ObservedTip.head, ObservedTip.lib]

theorem height_le_observe (tip : ObservedTip) (head lib : BlockPos) :
    height tip.head ≤ height (tip.observe head lib).head ∧
      height tip.lib ≤ height (tip.observe head lib).lib := by
  unfold observe
  split
  · simp
  · cases seen : tip.inner with
    | none => simp [ObservedTip.head, ObservedTip.lib, seen]
    | some pair =>
        simp only [ObservedTip.head, ObservedTip.lib, seen, Option.map_some, height_some,
          WithBot.coe_le_coe]
        grind

end ObservedTip

/-! ## The memory of a hub -/

/-- What a hub remembers between builds. -/
structure HubMemory where
  generation : Nat
  /-- The listener LIB never goes below this. -/
  libHwm : Option BlockPos
  /-- The last fleet tip, used while every live upstream is offline. -/
  lastTip : Option BlockPos × Option BlockPos
  canonical : Option (AbiEntry × AbiSource)
  headSeen : Option (Fin (2 ^ 32))
  headAdvancedAt : Nat
  deriving DecidableEq, Repr

namespace HubMemory

def new (now : Nat) : HubMemory where
  generation := 0
  libHwm := none
  lastTip := (none, none)
  canonical := none
  headSeen := none
  headAdvancedAt := now

def noteHead (mem : HubMemory) (head : Option BlockPos) (now : Nat) : HubMemory :=
  match head with
  | some head =>
      if mem.headSeen.all fun seen => seen < head.num then
        { mem with headSeen := some head.num, headAdvancedAt := now }
      else mem
  | none => mem

@[simp] theorem noteHead_libHwm (mem : HubMemory) (head : Option BlockPos) (now : Nat) :
    (mem.noteHead head now).libHwm = mem.libHwm := by
  unfold noteHead
  split
  · split <;> rfl
  · rfl

@[simp] theorem noteHead_lastTip (mem : HubMemory) (head : Option BlockPos) (now : Nat) :
    (mem.noteHead head now).lastTip = mem.lastTip := by
  unfold noteHead
  split
  · split <;> rfl
  · rfl

end HubMemory

/-! ## The tip -/

/-- The head and LIB one upstream accounts for: its status and what sessions
observed on its links. -/
def reportedTip (tips : List ObservedTip) (u : UpstreamView) :
    Option BlockPos × Option BlockPos :=
  let tip := tips[u.index]?
  (maxByNum u.head (tip.bind ObservedTip.head), maxByNum u.lib (tip.bind ObservedTip.lib))

/-- Maximum head and LIB over the upstreams at the given positions. -/
def anchorMax (upstreams : List UpstreamView) (tips : List ObservedTip) (anchors : List Nat) :
    Option BlockPos × Option BlockPos :=
  (anchors.filterMap fun pos => upstreams[pos]?).foldl
    (fun best u =>
      (maxByNum best.1 (reportedTip tips u).1, maxByNum best.2 (reportedTip tips u).2))
    (none, none)

/-- Both maxima, each over the upstreams' own. -/
theorem anchorMax_eq (upstreams : List UpstreamView) (tips : List ObservedTip)
    (anchors : List Nat) :
    anchorMax upstreams tips anchors =
      (maxOver ((anchors.filterMap fun pos => upstreams[pos]?).map fun u => (reportedTip tips u).1),
        maxOver ((anchors.filterMap fun pos => upstreams[pos]?).map fun u =>
          (reportedTip tips u).2)) := by
  have split (us : List UpstreamView) (init : Option BlockPos × Option BlockPos) :
      us.foldl (fun best u =>
        (maxByNum best.1 (reportedTip tips u).1, maxByNum best.2 (reportedTip tips u).2)) init =
      ((us.map fun u => (reportedTip tips u).1).foldl maxByNum init.1,
        (us.map fun u => (reportedTip tips u).2).foldl maxByNum init.2) := by
    induction us generalizing init with
    | nil => rfl
    | cons u us ih => simp only [List.foldl_cons, ih, List.map_cons]
  exact split _ _

/-- Positions of the online live upstreams that are not stale, or of all online
live ones when every one is stale. -/
def findAnchors (upstreams : List UpstreamView) : List Nat :=
  let liveOn := (List.range upstreams.length).filter fun pos =>
    upstreams[pos]?.any fun u => u.routable && u.role = .live && u.online
  let fresh := liveOn.filter fun pos => upstreams[pos]?.any fun u => !u.stale
  if fresh.isEmpty then liveOn else fresh

/-- The newest head of the archives. -/
def newestArchive (upstreams : List UpstreamView) : Option BlockPos :=
  maxOver ((upstreams.filter fun u => u.enabled && u.known && u.role = .frozen).map
    UpstreamView.head)

/-- Where head and LIB are taken from: the anchors, in an archive-only listener
the newest archive, and the last tip while those are silent. -/
def tipSource (upstreams : List UpstreamView) (tips : List ObservedTip) (liveConfigured : Bool)
    (lastTip : Option BlockPos × Option BlockPos) : Option BlockPos × Option BlockPos :=
  let anchors := findAnchors upstreams
  let found :=
    if !anchors.isEmpty then anchorMax upstreams tips anchors
    else if !liveConfigured then (newestArchive upstreams, newestArchive upstreams)
    else lastTip
  if found.1.isNone then lastTip else found

/-- A LIB is never above the head. -/
def clampLib (head : BlockPos) (lib : Option BlockPos) : Option BlockPos :=
  lib.map fun l => if head.num < l.num then head else l

theorem height_clampLib (head : BlockPos) (lib : Option BlockPos) :
    height (clampLib head lib) = min (height lib) (height (some head)) := by
  cases lib with
  | none => simp [clampLib]
  | some l =>
      simp only [clampLib, Option.map_some, height_some]
      split
      · rename_i above
        exact (min_eq_right (WithBot.coe_le_coe.mpr above.le)).symm
      · rename_i below
        exact (min_eq_left (WithBot.coe_le_coe.mpr (not_lt.mp below))).symm

/-- The fleet head and LIB of a build. -/
def fleetTip (upstreams : List UpstreamView) (tips : List ObservedTip) (liveConfigured : Bool)
    (mem : HubMemory) : (Option BlockPos × Option BlockPos) × HubMemory :=
  let source := tipSource upstreams tips liveConfigured mem.lastTip
  match source.1 with
  | none => ((none, none), mem)
  | some head =>
      let mark := maxByNum source.2 mem.libHwm
      let tip := (some head, clampLib head mark)
      (tip, { mem with libHwm := mark, lastTip := tip })

/-- Head and LIB of a view with the current observed tips of its anchors merged
in. -/
def freshTip (v : FleetView) (tips : List ObservedTip) (mem : HubMemory) (now : Nat) :
    (Option BlockPos × Option BlockPos) × HubMemory :=
  let anchor := anchorMax v.upstreams tips v.anchors
  match maxByNum v.head anchor.1 with
  | none => ((none, none), mem)
  | some head =>
      let mark := maxByNum (maxByNum v.lib anchor.2) mem.libHwm
      let tip := (some head, clampLib head mark)
      let noted := { mem with libHwm := mark }.noteHead (some head) now
      (tip, if mem.lastTip.1.all fun last => last.num < head.num then
          { noted with lastTip := tip } else noted)

/-! ## Where a tip comes from -/

theorem tipSource_cases (upstreams : List UpstreamView) (tips : List ObservedTip)
    (liveConfigured : Bool) (lastTip : Option BlockPos × Option BlockPos) :
    tipSource upstreams tips liveConfigured lastTip = lastTip ∨
      tipSource upstreams tips liveConfigured lastTip =
        anchorMax upstreams tips (findAnchors upstreams) ∨
      tipSource upstreams tips liveConfigured lastTip =
        (newestArchive upstreams, newestArchive upstreams) := by
  simp only [tipSource]
  split_ifs <;> simp

/-- A remembered tip stands in for a head that is missing. -/
theorem tipSource_known {upstreams : List UpstreamView} {tips : List ObservedTip}
    {liveConfigured : Bool} {lastTip : Option BlockPos × Option BlockPos}
    (known : lastTip.1 ≠ none) : (tipSource upstreams tips liveConfigured lastTip).1 ≠ none := by
  unfold tipSource
  extract_lets anchors found
  by_cases silent : found.1.isNone
  · rwa [if_pos silent]
  · rw [if_neg silent]
    exact fun none => silent (Option.isNone_iff_eq_none.mpr none)

/-- The upstreams at the given positions. -/
def listed (upstreams : List UpstreamView) (positions : List Nat) : List UpstreamView :=
  positions.filterMap fun pos => upstreams[pos]?

theorem mem_of_mem_listed {upstreams : List UpstreamView} {positions : List Nat}
    {u : UpstreamView} (member : u ∈ listed upstreams positions) : u ∈ upstreams := by
  obtain ⟨pos, -, found⟩ := List.mem_filterMap.mp member
  exact List.mem_of_getElem? found

theorem anchorMax_fst (upstreams : List UpstreamView) (tips : List ObservedTip)
    (anchors : List Nat) : (anchorMax upstreams tips anchors).1 =
      maxOver ((listed upstreams anchors).map fun u => (reportedTip tips u).1) := by
  rw [anchorMax_eq, listed]

theorem anchorMax_snd (upstreams : List UpstreamView) (tips : List ObservedTip)
    (anchors : List Nat) : (anchorMax upstreams tips anchors).2 =
      maxOver ((listed upstreams anchors).map fun u => (reportedTip tips u).2) := by
  rw [anchorMax_eq, listed]

section Paired

variable {upstreams : List UpstreamView} {tips : List ObservedTip}

/-- Every upstream's head and LIB are set together. -/
def Paired (upstreams : List UpstreamView) : Prop :=
  ∀ u ∈ upstreams, u.head = none ↔ u.lib = none

theorem reportedTip_paired {u : UpstreamView} (paired : u.head = none ↔ u.lib = none) :
    (reportedTip tips u).1 = none ↔ (reportedTip tips u).2 = none := by
  simp only [reportedTip, maxByNum_eq_none, paired]
  cases tips[u.index]? with
  | none => simp
  | some tip => simp [ObservedTip.head_eq_none]

theorem anchorMax_paired (paired : Paired upstreams) (anchors : List Nat) :
    (anchorMax upstreams tips anchors).1 = none ↔ (anchorMax upstreams tips anchors).2 = none := by
  simp only [anchorMax_fst, anchorMax_snd, maxOver_eq_none, List.forall_mem_map]
  exact forall₂_congr fun u member => reportedTip_paired (paired u (mem_of_mem_listed member))

variable {liveConfigured : Bool} {lastTip : Option BlockPos × Option BlockPos}

theorem tipSource_paired (paired : Paired upstreams) (last : lastTip.1 ≠ none → lastTip.2 ≠ none)
    (known : (tipSource upstreams tips liveConfigured lastTip).1 ≠ none) :
    (tipSource upstreams tips liveConfigured lastTip).2 ≠ none := by
  rcases tipSource_cases upstreams tips liveConfigured lastTip with same | same | same <;>
    rw [same] at known ⊢
  · exact last known
  · exact fun none => known ((anchorMax_paired paired _).mpr none)
  · exact known

/-- A tip accounts for the LIB of every anchor. -/
theorem tipSource_anchor (paired : Paired upstreams) {u : UpstreamView}
    (anchor : u ∈ listed upstreams (findAnchors upstreams)) :
    ((tipSource upstreams tips liveConfigured lastTip).1 = none →
        (reportedTip tips u).2 = none) ∧
      height (reportedTip tips u).2 ≤
        height (tipSource upstreams tips liveConfigured lastTip).2 := by
  have nonempty : (!(findAnchors upstreams).isEmpty) = true := by
    cases anchors : findAnchors upstreams with
    | nil => simp [anchors, listed] at anchor
    | cons pos rest => rfl
  have quiet (silent : (anchorMax upstreams tips (findAnchors upstreams)).1 = none) :
      (reportedTip tips u).2 = none := by
    rw [anchorMax_fst, maxOver_eq_none] at silent
    exact (reportedTip_paired (paired u (mem_of_mem_listed anchor))).mp
      (silent _ (List.mem_map_of_mem anchor))
  simp only [tipSource, nonempty, if_true]
  split
  · rename_i silent
    have none := quiet (Option.isNone_iff_eq_none.mp silent)
    simp [none]
  · refine ⟨quiet, ?_⟩
    rw [anchorMax_snd]
    exact height_le_maxOver (List.mem_map_of_mem anchor)

end Paired

/-- The head and the LIB of a tip, where known, have a property. -/
def TipHas (P : BlockPos → Prop) (tip : Option BlockPos × Option BlockPos) : Prop :=
  (∀ p ∈ tip.1, P p) ∧ ∀ p ∈ tip.2, P p

theorem TipHas.mono {P Q : BlockPos → Prop} {tip : Option BlockPos × Option BlockPos}
    (holds : TipHas P tip) (imp : ∀ p, P p → Q p) : TipHas Q tip :=
  ⟨fun p isHead => imp p (holds.1 p isHead), fun p isLib => imp p (holds.2 p isLib)⟩

theorem TipHas.maxByNum {P : BlockPos → Prop} {a b : Option BlockPos × Option BlockPos}
    (left : TipHas P a) (right : TipHas P b) :
    TipHas P (maxByNum a.1 b.1, Fleet.maxByNum a.2 b.2) := by
  constructor
  · rcases maxByNum_eq a.1 b.1 with same | same <;> rw [same]
    · exact left.1
    · exact right.1
  · rcases maxByNum_eq a.2 b.2 with same | same <;> rw [same]
    · exact left.2
    · exact right.2

/-- Positions with a property give tips with it. -/
structure Reports (P : BlockPos → Prop) (upstreams : List UpstreamView)
    (tips : List ObservedTip) : Prop where
  status : ∀ u ∈ upstreams, TipHas P (u.head, u.lib)
  observed : ∀ tip ∈ tips, TipHas P (tip.head, tip.lib)

namespace Reports

variable {P : BlockPos → Prop} {upstreams : List UpstreamView} {tips : List ObservedTip}

theorem reportedTip (reports : Reports P upstreams tips) {u : UpstreamView}
    (member : u ∈ upstreams) : TipHas P (reportedTip tips u) := by
  have observed : TipHas P (tips[u.index]?.bind ObservedTip.head,
      tips[u.index]?.bind ObservedTip.lib) := by
    cases found : tips[u.index]? with
    | none => simp [TipHas]
    | some tip => exact reports.observed tip (List.mem_of_getElem? found)
  exact (reports.status u member).maxByNum observed

theorem anchorMax (reports : Reports P upstreams tips) (anchors : List Nat) :
    TipHas P (anchorMax upstreams tips anchors) := by
  rw [anchorMax_eq]
  constructor
  · intro p found
    obtain ⟨u, member, isPos⟩ := List.mem_map.mp (maxOver_mem found)
    exact (reports.reportedTip (mem_of_mem_listed member)).1 p isPos
  · intro p found
    obtain ⟨u, member, isPos⟩ := List.mem_map.mp (maxOver_mem found)
    exact (reports.reportedTip (mem_of_mem_listed member)).2 p isPos

theorem tipSource (reports : Reports P upstreams tips) (liveConfigured : Bool)
    {lastTip : Option BlockPos × Option BlockPos} (last : TipHas P lastTip) :
    TipHas P (tipSource upstreams tips liveConfigured lastTip) := by
  have newest : ∀ p ∈ newestArchive upstreams, P p := by
    intro p found
    obtain ⟨u, member, isPos⟩ := List.mem_map.mp (maxOver_mem found)
    exact (reports.status u (List.mem_filter.mp member).1).1 p isPos
  rcases tipSource_cases upstreams tips liveConfigured lastTip with same | same | same <;>
    rw [same]
  · exact last
  · exact reports.anchorMax _
  · exact ⟨newest, newest⟩

end Reports

/-- Observed tips that rise raise the head of the anchors. -/
theorem height_anchorMax_mono {tips tips' : List ObservedTip}
    (rise : ∀ i : Nat,
      height (tips[i]?.bind ObservedTip.head) ≤ height (tips'[i]?.bind ObservedTip.head))
    (upstreams : List UpstreamView) (anchors : List Nat) :
    height (anchorMax upstreams tips anchors).1 ≤ height (anchorMax upstreams tips' anchors).1 := by
  rw [anchorMax_fst, anchorMax_fst]
  cases found : maxOver ((listed upstreams anchors).map fun u => (reportedTip tips u).1) with
  | none => simp
  | some p =>
      obtain ⟨u, member, isPos⟩ := List.mem_map.mp (maxOver_mem found)
      calc height (some p) = height (reportedTip tips u).1 := by rw [isPos]
        _ ≤ height (reportedTip tips' u).1 := by
            simp only [reportedTip, height_maxByNum]
            exact max_le_max le_rfl (rise u.index)
        _ ≤ _ := height_le_maxOver (List.mem_map.mpr ⟨u, member, rfl⟩)

/-! ## What a call does to the memory -/

/-- A call that found head `h` and LIB `l` raises the mark to `l`, returns the head
with the mark clamped to it, and remembers what it returned or keeps a tip it has;
a call that found no head changes nothing. -/
structure Settled (h l : Option BlockPos) (mem : HubMemory)
    (out : (Option BlockPos × Option BlockPos) × HubMemory) : Prop where
  silent : h = none →
    out.1 = (none, none) ∧ out.2.libHwm = mem.libHwm ∧ out.2.lastTip = mem.lastTip
  found : ∀ head, h = some head →
    out.1 = (some head, clampLib head out.2.libHwm) ∧ out.2.libHwm = maxByNum l mem.libHwm ∧
      (out.2.lastTip = out.1 ∨ out.2.lastTip = mem.lastTip ∧ mem.lastTip.1 ≠ none)

theorem settled_fleetTip (upstreams : List UpstreamView) (tips : List ObservedTip)
    (liveConfigured : Bool) (mem : HubMemory) :
    Settled (tipSource upstreams tips liveConfigured mem.lastTip).1
      (tipSource upstreams tips liveConfigured mem.lastTip).2 mem
      (fleetTip upstreams tips liveConfigured mem) := by
  cases source : (tipSource upstreams tips liveConfigured mem.lastTip).1 with
  | none =>
      simp only [fleetTip, source]
      exact ⟨fun _ => ⟨rfl, rfl, rfl⟩, nofun⟩
  | some head =>
      simp only [fleetTip, source]
      refine ⟨nofun, ?_⟩
      rintro _ ⟨⟩
      exact ⟨rfl, rfl, .inl rfl⟩

theorem settled_freshTip (v : FleetView) (tips : List ObservedTip) (mem : HubMemory)
    (now : Nat) :
    Settled (maxByNum v.head (anchorMax v.upstreams tips v.anchors).1)
      (maxByNum v.lib (anchorMax v.upstreams tips v.anchors).2) mem
      (freshTip v tips mem now) := by
  cases found : maxByNum v.head (anchorMax v.upstreams tips v.anchors).1 with
  | none =>
      simp only [freshTip, found]
      exact ⟨fun _ => ⟨rfl, rfl, rfl⟩, nofun⟩
  | some head =>
      simp only [freshTip, found]
      refine ⟨nofun, ?_⟩
      rintro _ ⟨⟩
      split
      · simp
      · rename_i kept
        cases last : mem.lastTip.1 with
        | none => simp [last] at kept
        | some tip => simp

namespace Settled

variable {h l : Option BlockPos} {mem : HubMemory}
  {out : (Option BlockPos × Option BlockPos) × HubMemory}

theorem head_eq (settled : Settled h l mem out) : out.1.1 = h := by
  cases isHead : h with
  | none => rw [(settled.silent isHead).1]
  | some head => rw [(settled.found head isHead).1]

theorem libHwm_mono (settled : Settled h l mem out) :
    height mem.libHwm ≤ height out.2.libHwm := by
  cases isHead : h with
  | none => rw [(settled.silent isHead).2.1]
  | some head =>
      rw [(settled.found head isHead).2.1, height_maxByNum]
      exact le_max_right ..

theorem height_le_libHwm (settled : Settled h l mem out) (known : h ≠ none) :
    height l ≤ height out.2.libHwm := by
  obtain ⟨head, isHead⟩ := Option.ne_none_iff_exists'.mp known
  rw [(settled.found head isHead).2.1, height_maxByNum]
  exact le_max_left ..

/-- The mark accounts for a position that was counted in what was found. -/
theorem counted (settled : Settled h l mem out) {pos : Option BlockPos}
    (quiet : h = none → pos = none) (below : height pos ≤ height l) :
    height pos ≤ height out.2.libHwm := by
  by_cases known : h = none
  · simp [quiet known]
  · exact below.trans (settled.height_le_libHwm known)

/-- The LIB returned is the lower of the mark and the head. -/
theorem height_lib (settled : Settled h l mem out) :
    height out.1.2 = min (height out.2.libHwm) (height h) := by
  cases isHead : h with
  | none => simp [(settled.silent isHead).1]
  | some head => rw [(settled.found head isHead).1, height_clampLib]

/-- A call returns and remembers positions it was given. -/
theorem tipHas {P : BlockPos → Prop} (settled : Settled h l mem out) (source : TipHas P (h, l))
    (mark : ∀ p ∈ mem.libHwm, P p) (last : TipHas P mem.lastTip) :
    TipHas P out.1 ∧ (∀ p ∈ out.2.libHwm, P p) ∧ TipHas P out.2.lastTip := by
  cases isHead : h with
  | none =>
      obtain ⟨tip, same, kept⟩ := settled.silent isHead
      rw [tip, same, kept]
      exact ⟨by simp [TipHas], mark, last⟩
  | some head =>
      obtain ⟨tip, raised, remembered⟩ := settled.found head isHead
      have mark' : ∀ p ∈ out.2.libHwm, P p := by
        rw [raised]
        rcases maxByNum_eq l mem.libHwm with same | same <;> rw [same]
        · exact source.2
        · exact mark
      have tip' : TipHas P out.1 := by
        rw [tip]
        refine ⟨fun p isTip => source.1 p (isHead ▸ isTip), fun p isLib => ?_⟩
        obtain ⟨q, isMark, clamped⟩ := Option.map_eq_some_iff.mp isLib
        split at clamped
        · exact clamped ▸ source.1 head isHead
        · exact clamped ▸ mark' q isMark
      refine ⟨tip', mark', ?_⟩
      rcases remembered with same | ⟨same, -⟩ <;> rw [same]
      · exact tip'
      · exact last

/-- A call that found a LIB beside every head returns and remembers tips with
both. -/
theorem paired (settled : Settled h l mem out) (both : h ≠ none → l ≠ none)
    (last : mem.lastTip.1 ≠ none → mem.lastTip.2 ≠ none) :
    (out.1.1 ≠ none → out.1.2 ≠ none) ∧ (out.2.lastTip.1 ≠ none → out.2.lastTip.2 ≠ none) := by
  cases isHead : h with
  | none =>
      obtain ⟨tip, -, kept⟩ := settled.silent isHead
      rw [tip, kept]
      exact ⟨by simp, last⟩
  | some head =>
      obtain ⟨tip, raised, remembered⟩ := settled.found head isHead
      have known : out.1.2 ≠ none := by
        have marked : out.2.libHwm ≠ none := by
          rw [raised, ne_eq, maxByNum_eq_none]
          exact fun none => both (by simp [isHead]) none.1
        rw [tip]
        simpa [clampLib] using marked
      refine ⟨fun _ => known, ?_⟩
      rcases remembered with same | ⟨same, -⟩ <;> rw [same]
      · exact fun _ => known
      · exact last

/-- A tip once remembered stays known. -/
theorem lastTip_known (settled : Settled h l mem out)
    (known : mem.lastTip.1 ≠ none ∨ h ≠ none) : out.2.lastTip.1 ≠ none := by
  cases isHead : h with
  | none =>
      rw [(settled.silent isHead).2.2]
      exact known.resolve_right (by simp [isHead])
  | some head =>
      obtain ⟨tip, -, remembered⟩ := settled.found head isHead
      rcases remembered with same | ⟨same, kept⟩ <;> rw [same]
      · simp [tip]
      · exact kept

end Settled

end FleetRouter.Fleet
