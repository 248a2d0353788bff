import FleetRouter.Lib.Transition
import FleetRouter.Fleet.Tip

/-!
# Observing a tip from many sessions

Sessions report the head and LIB of every live frame.  A call first compares them with two
cached numbers, which it loads one after the other without the lock; only when one of them
is higher does it take the lock, store the higher position of each kind and cache the two
numbers.  The loads are relaxed: each may give any value its counter has had.
-/

namespace FleetRouter.Fleet

open Ship Session Transition

/-- Where a call is. -/
inductive Point where
  /-- Before the load of the cached head number. -/
  | start
  /-- The head is not higher; before the load of the cached LIB number. -/
  | headSeen
  | waiting
  /-- The lock is held and the positions are stored. -/
  | storingHead (seen : BlockPos × BlockPos)
  | storingLib (seen : BlockPos × BlockPos)
  | returned
  deriving DecidableEq, Repr

def Point.holdsLock : Point → Bool
  | .storingHead _ | .storingLib _ => true
  | .start | .headSeen | .waiting | .returned => false

/-- A call with what it reports. -/
structure Observation where
  head : BlockPos
  lib : BlockPos
  point : Point
  deriving DecidableEq, Repr

/-- A tip with the values its counters had before and every call so far. -/
structure TipRun where
  tip : ObservedTip
  headNums : List (Fin (2 ^ 32))
  libNums : List (Fin (2 ^ 32))
  calls : List Observation
  deriving DecidableEq, Repr

inductive TipEvent where
  | call (head lib : BlockPos)
  /-- The next action of a call; `loaded` is what a load gives. -/
  | advance (i : Nat) (loaded : Fin (2 ^ 32))

/-- The positions stored by a call that holds the lock. -/
def ObservedTip.seen (tip : ObservedTip) (head lib : BlockPos) : BlockPos × BlockPos :=
  match tip.inner with
  | some (seenHead, seenLib) =>
      (if seenHead.num < head.num then head else seenHead,
        if seenLib.num < lib.num then lib else seenLib)
  | none => (head, lib)

namespace TipRun

def start : TipRun where
  tip := .default
  headNums := []
  libNums := []
  calls := []

def moveTo (s : TipRun) (i : Nat) (point : Point) : TipRun :=
  { s with calls := s.calls.modify i fun c => { c with point } }

def advance (s : TipRun) (i : Nat) (loaded : Fin (2 ^ 32)) (c : Observation) : Option TipRun :=
  match c.point with
  | .start =>
      if loaded ∈ s.tip.headNum :: s.headNums then
        some (s.moveTo i (if c.head.num ≤ loaded then .headSeen else .waiting))
      else none
  | .headSeen =>
      if loaded ∈ s.tip.libNum :: s.libNums then
        some (s.moveTo i (if c.lib.num ≤ loaded then .returned else .waiting))
      else none
  | .waiting =>
      if s.calls.any fun other => other.point.holdsLock then none
      else
        let seen := s.tip.seen c.head c.lib
        some { s.moveTo i (.storingHead seen) with tip := { s.tip with inner := some seen } }
  | .storingHead seen =>
      some
        { s.moveTo i (.storingLib seen) with
          tip := { s.tip with headNum := seen.1.num }
          headNums := s.tip.headNum :: s.headNums }
  | .storingLib seen =>
      some
        { s.moveTo i .returned with
          tip := { s.tip with libNum := seen.2.num }
          libNums := s.tip.libNum :: s.libNums }
  | .returned => none

def step (s : TipRun) : TipEvent → Option TipRun
  | .call head lib => some { s with calls := s.calls ++ [⟨head, lib, .start⟩] }
  | .advance i loaded => s.calls[i]?.bind (s.advance i loaded)

end TipRun

def tipMachine : Machine TipRun TipEvent where
  init := (· = .start)
  step := TipRun.step

/-- Frames report positive block numbers. -/
def TipEvent.Positive (_ : TipRun) : TipEvent → Prop
  | .call head lib => 0 < head.num ∧ 0 < lib.num
  | .advance _ _ => True

instance instDecidablePositive (s : TipRun) (e : TipEvent) : Decidable (e.Positive s) := by
  cases e with
  | call head lib => exact inferInstanceAs (Decidable (0 < head.num ∧ 0 < lib.num))
  | advance i loaded => exact inferInstanceAs (Decidable True)

/-! ## One step -/

/-- The higher of two positions is one of them. -/
theorem of_maxByNum {before : Option BlockPos} {reported pos : BlockPos}
    (higher : maxByNum before (some reported) = some pos) : before = some pos ∨ pos = reported := by
  cases maxByNum_eq before (some reported) with
  | inl kept => exact .inl (kept.symm.trans higher)
  | inr new => exact .inr (Option.some.inj (higher.symm.trans new))

namespace ObservedTip

variable (tip : ObservedTip) (head lib : BlockPos)

theorem seen_fst : some (tip.seen head lib).1 = maxByNum tip.head (some head) := by
  cases stored : tip.inner with
  | none => simp only [seen, ObservedTip.head, stored, Option.map_none, maxByNum]
  | some before =>
      simp only [seen, ObservedTip.head, stored, Option.map_some, maxByNum]
      exact apply_ite some _ _ _

theorem seen_snd : some (tip.seen head lib).2 = maxByNum tip.lib (some lib) := by
  cases stored : tip.inner with
  | none => simp only [seen, ObservedTip.lib, stored, Option.map_none, maxByNum]
  | some before =>
      simp only [seen, ObservedTip.lib, stored, Option.map_some, maxByNum]
      exact apply_ite some _ _ _

end ObservedTip

/-- How far the call is from having nothing to add to the stored positions. -/
def Observation.Subsumed (c : Observation) (tip : ObservedTip) : Prop :=
  match c.point with
  | .start | .waiting => True
  | .headSeen => height (some c.head) ≤ height tip.head
  | .storingHead seen | .storingLib seen =>
      (height (some c.head) ≤ height tip.head ∧ height (some c.lib) ≤ height tip.lib) ∧
        height (some seen.1) ≤ height tip.head ∧ height (some seen.2) ≤ height tip.lib
  | .returned => height (some c.head) ≤ height tip.head ∧ height (some c.lib) ≤ height tip.lib

/-- The stored positions of `tip` are not below those of the tip before. -/
structure ObservedTip.Grows (before tip : ObservedTip) : Prop where
  head : height before.head ≤ height tip.head
  lib : height before.lib ≤ height tip.lib

theorem Observation.Subsumed.grows {c : Observation} {before tip : ObservedTip}
    (subsumed : c.Subsumed before) (grows : before.Grows tip) : c.Subsumed tip := by
  unfold Subsumed at *
  split at subsumed
  · trivial
  · trivial
  · exact subsumed.trans grows.head
  · exact ⟨⟨subsumed.1.1.trans grows.head, subsumed.1.2.trans grows.lib⟩,
      subsumed.2.1.trans grows.head, subsumed.2.2.trans grows.lib⟩
  · exact ⟨⟨subsumed.1.1.trans grows.head, subsumed.1.2.trans grows.lib⟩,
      subsumed.2.1.trans grows.head, subsumed.2.2.trans grows.lib⟩
  · exact ⟨subsumed.1.trans grows.head, subsumed.2.trans grows.lib⟩

/-- A value of a counter is the number of a position not above the stored one. -/
def Cached (value : Fin (2 ^ 32)) (stored : Option BlockPos) : Prop :=
  value = 0 ∨ (value : WithBot (Fin (2 ^ 32))) ≤ height stored

theorem Cached.subsumes {value : Fin (2 ^ 32)} {stored : Option BlockPos} {pos : BlockPos}
    (cached : Cached value stored) (positive : 0 < pos.num) (below : pos.num ≤ value) :
    height (some pos) ≤ height stored := by
  cases cached with
  | inl zero => exact absurd positive (not_lt.mpr (zero ▸ below))
  | inr cached => exact (WithBot.coe_le_coe.mpr below).trans cached

theorem Cached.grows {value : Fin (2 ^ 32)} {before stored : Option BlockPos}
    (cached : Cached value before) (grows : height before ≤ height stored) : Cached value stored :=
  cached.imp_right fun below => below.trans grows

namespace TipRun

variable {s s' : TipRun} {c : Observation} {i : Nat} {point : Point}

/-- What the calls report. -/
def reports (s : TipRun) : List (BlockPos × BlockPos) := s.calls.map fun c => (c.head, c.lib)

/-- What holds between any two actions. -/
structure Sound (s : TipRun) : Prop where
  heads : ∀ value ∈ s.tip.headNum :: s.headNums, Cached value s.tip.head
  libs : ∀ value ∈ s.tip.libNum :: s.libNums, Cached value s.tip.lib
  calls : ∀ c ∈ s.calls, c.Subsumed s.tip
  positive : ∀ report ∈ s.reports, 0 < report.1.num ∧ 0 < report.2.num
  head_reported : ∀ pos, s.tip.head = some pos → ∃ report ∈ s.reports, report.1 = pos
  lib_reported : ∀ pos, s.tip.lib = some pos → ∃ report ∈ s.reports, report.2 = pos

theorem reports_moveTo : (s.moveTo i point).reports = s.reports := by
  apply List.ext_getElem?
  intro j
  simp only [reports, moveTo, List.getElem?_map, List.getElem?_modify]
  split <;> simp [Function.comp_def]

theorem mem_moveTo (found : s.calls[i]? = some c) {d : Observation}
    (member : d ∈ (s.moveTo i point).calls) : d ∈ s.calls ∨ d = { c with point } := by
  obtain ⟨j, isAt⟩ := List.mem_iff_getElem?.mp member
  rw [moveTo, List.getElem?_modify] at isAt
  split at isAt
  · rename_i same
    rw [← same, found] at isAt
    exact .inr (Option.some.inj isAt).symm
  · rw [id_map'] at isAt
    exact .inl (List.mem_of_getElem? isAt)

theorem Sound.start : Sound .start := by
  constructor <;> simp [TipRun.start, ObservedTip.default, reports, Cached, ObservedTip.head,
    ObservedTip.lib]

/-- A call moves on and only it needs another look, as long as nothing stored gets lower. -/
theorem Sound.moveTo (sound : s.Sound) (found : s.calls[i]? = some c) (grows : s.tip.Grows s'.tip)
    (calls : s'.calls = (s.moveTo i point).calls)
    (heads : ∀ value ∈ s'.tip.headNum :: s'.headNums, Cached value s'.tip.head)
    (libs : ∀ value ∈ s'.tip.libNum :: s'.libNums, Cached value s'.tip.lib)
    (subsumed : Observation.Subsumed { c with point } s'.tip)
    (head : ∀ pos, s'.tip.head = some pos → s.tip.head = some pos ∨ pos = c.head)
    (lib : ∀ pos, s'.tip.lib = some pos → s.tip.lib = some pos ∨ pos = c.lib) : s'.Sound := by
  have reports : s'.reports = s.reports := by
    rw [TipRun.reports, calls]
    exact reports_moveTo
  have reported : (c.head, c.lib) ∈ s.reports :=
    List.mem_map_of_mem (List.mem_of_getElem? found)
  constructor
  · exact heads
  · exact libs
  · intro d member
    rw [calls] at member
    cases mem_moveTo found member with
    | inl before => exact (sound.calls d before).grows grows
    | inr here => exact here ▸ subsumed
  · exact reports ▸ sound.positive
  · intro pos stored
    rw [reports]
    cases head pos stored with
    | inl before => exact sound.head_reported pos before
    | inr new => exact ⟨_, reported, new.symm⟩
  · intro pos stored
    rw [reports]
    cases lib pos stored with
    | inl before => exact sound.lib_reported pos before
    | inr new => exact ⟨_, reported, new.symm⟩

theorem Sound.call (sound : s.Sound) {head lib : BlockPos} (positive : 0 < head.num ∧ 0 < lib.num) :
    Sound { s with calls := s.calls ++ [⟨head, lib, .start⟩] } := by
  have reports : TipRun.reports { s with calls := s.calls ++ [⟨head, lib, .start⟩] } =
      s.reports ++ [(head, lib)] := by
    simp [TipRun.reports]
  constructor
  · exact sound.heads
  · exact sound.libs
  · simp only [List.forall_mem_append, List.forall_mem_singleton]
    exact ⟨sound.calls, trivial⟩
  · rw [reports]
    simp only [List.forall_mem_append, List.forall_mem_singleton]
    exact ⟨sound.positive, positive⟩
  · intro pos stored
    obtain ⟨report, member, isHead⟩ := sound.head_reported pos stored
    exact ⟨report, reports ▸ List.mem_append_left _ member, isHead⟩
  · intro pos stored
    obtain ⟨report, member, isLib⟩ := sound.lib_reported pos stored
    exact ⟨report, reports ▸ List.mem_append_left _ member, isLib⟩

/-- The actions of a call, one for each point. -/
inductive Advances (s : TipRun) (i : Nat) (c : Observation) : TipRun → Prop
  | loadHead {loaded : Fin (2 ^ 32)} : loaded ∈ s.tip.headNum :: s.headNums →
      Advances s i c (s.moveTo i (if c.head.num ≤ loaded then .headSeen else .waiting))
  | loadLib {loaded : Fin (2 ^ 32)} : c.point = .headSeen → loaded ∈ s.tip.libNum :: s.libNums →
      Advances s i c (s.moveTo i (if c.lib.num ≤ loaded then .returned else .waiting))
  | lock : Advances s i c
      { s.moveTo i (.storingHead (s.tip.seen c.head c.lib)) with
        tip := { s.tip with inner := some (s.tip.seen c.head c.lib) } }
  | storeHead {seen : BlockPos × BlockPos} : c.point = .storingHead seen →
      Advances s i c
        { s.moveTo i (.storingLib seen) with
          tip := { s.tip with headNum := seen.1.num }
          headNums := s.tip.headNum :: s.headNums }
  | storeLib {seen : BlockPos × BlockPos} : c.point = .storingLib seen →
      Advances s i c
        { s.moveTo i .returned with
          tip := { s.tip with libNum := seen.2.num }
          libNums := s.tip.libNum :: s.libNums }

theorem advances {loaded : Fin (2 ^ 32)} (step : s.advance i loaded c = some s') :
    s.Advances i c s' := by
  unfold advance at step
  split at step
  · split at step
    · cases step
      exact .loadHead ‹_›
    · cases step
  · split at step
    · cases step
      exact .loadLib ‹_› ‹_›
    · cases step
  · split at step
    · cases step
    · cases step
      exact .lock
  · cases step
    exact .storeHead ‹_›
  · cases step
    exact .storeLib ‹_›
  · cases step

/-- The stored positions never get lower. -/
theorem Advances.grows (advances : s.Advances i c s') : s.tip.Grows s'.tip := by
  cases advances with
  | lock =>
      constructor
      · change height s.tip.head ≤ height (some (s.tip.seen c.head c.lib).1)
        rw [ObservedTip.seen_fst, height_maxByNum]
        exact le_max_left _ _
      · change height s.tip.lib ≤ height (some (s.tip.seen c.head c.lib).2)
        rw [ObservedTip.seen_snd, height_maxByNum]
        exact le_max_left _ _
  | loadHead | loadLib | storeHead | storeLib => exact ⟨le_rfl, le_rfl⟩

theorem Sound.advances (sound : s.Sound) (found : s.calls[i]? = some c)
    (advances : s.Advances i c s') : s'.Sound := by
  have grows := advances.grows
  have listed := List.mem_of_getElem? found
  obtain ⟨headPositive, libPositive⟩ := sound.positive _ (List.mem_map_of_mem listed)
  have subsumed := sound.calls c listed
  cases advances with
  | loadHead member =>
      apply sound.moveTo found grows rfl sound.heads sound.libs
      · split
        · exact (sound.heads _ member).subsumes headPositive ‹_›
        · trivial
      · exact fun pos stored => .inl stored
      · exact fun pos stored => .inl stored
  | loadLib isAt member =>
      rw [Observation.Subsumed, isAt] at subsumed
      apply sound.moveTo found grows rfl sound.heads sound.libs
      · split
        · exact ⟨subsumed, (sound.libs _ member).subsumes libPositive ‹_›⟩
        · trivial
      · exact fun pos stored => .inl stored
      · exact fun pos stored => .inl stored
  | lock =>
      have head := s.tip.seen_fst c.head c.lib
      have lib := s.tip.seen_snd c.head c.lib
      apply sound.moveTo found grows rfl
      · exact fun value member => (sound.heads value member).grows grows.head
      · exact fun value member => (sound.libs value member).grows grows.lib
      · refine ⟨⟨?_, ?_⟩, le_rfl, le_rfl⟩
        · change _ ≤ height (some (s.tip.seen c.head c.lib).1)
          rw [head, height_maxByNum]
          exact le_max_right _ _
        · change _ ≤ height (some (s.tip.seen c.head c.lib).2)
          rw [lib, height_maxByNum]
          exact le_max_right _ _
      · exact fun pos stored => of_maxByNum (head.symm.trans stored)
      · exact fun pos stored => of_maxByNum (lib.symm.trans stored)
  | storeHead isAt =>
      rw [Observation.Subsumed, isAt] at subsumed
      apply sound.moveTo found grows rfl _ sound.libs subsumed
      · exact fun pos stored => .inl stored
      · exact fun pos stored => .inl stored
      · exact List.forall_mem_cons.mpr ⟨.inr subsumed.2.1, sound.heads⟩
  | storeLib isAt =>
      rw [Observation.Subsumed, isAt] at subsumed
      apply sound.moveTo found grows rfl sound.heads _ subsumed.1
      · exact fun pos stored => .inl stored
      · exact fun pos stored => .inl stored
      · exact List.forall_mem_cons.mpr ⟨.inr subsumed.2.2, sound.libs⟩

theorem Sound.step (sound : s.Sound) {e : TipEvent} (positive : e.Positive s)
    (step : s.step e = some s') : s'.Sound := by
  cases e with
  | call head lib =>
      cases step
      exact sound.call positive
  | advance i loaded =>
      obtain ⟨c, found, step⟩ := Option.bind_eq_some_iff.mp step
      exact sound.advances found (TipRun.advances step)

theorem Sound.of_reachable (reachable : Reachable tipMachine TipEvent.Positive s) : s.Sound := by
  apply reachable.invariant (P := TipRun.Sound)
  · rintro s rfl
    exact .start
  · exact fun s e s' _ sound positive step => sound.step positive step

theorem grows_step {e : TipEvent} (step : s.step e = some s') : s.tip.Grows s'.tip := by
  cases e with
  | call head lib =>
      cases step
      exact ⟨le_rfl, le_rfl⟩
  | advance i loaded =>
      obtain ⟨c, found, step⟩ := Option.bind_eq_some_iff.mp step
      exact (TipRun.advances step).grows

/-- What is stored never gets lower in a run. -/
theorem grows_run {allowed : TipRun → TipEvent → Prop}
    (run : Reachable (tipMachine.startingAt s) allowed s') : s.tip.Grows s'.tip := by
  apply run.invariant (P := fun later => s.tip.Grows later.tip)
  · rintro _ rfl
    exact ⟨le_rfl, le_rfl⟩
  · intro middle e later _ before _ step
    have next := grows_step step
    exact ⟨before.head.trans next.head, before.lib.trans next.lib⟩

/-- The cached numbers are not above the stored ones, and 0 before anything is stored. -/
theorem Sound.cached (sound : s.Sound) :
    match s.tip.inner with
    | some (head, lib) => s.tip.headNum ≤ head.num ∧ s.tip.libNum ≤ lib.num
    | none => s.tip.headNum = 0 ∧ s.tip.libNum = 0 := by
  have headCached := sound.heads _ (List.mem_cons_self ..)
  have libCached := sound.libs _ (List.mem_cons_self ..)
  cases stored : s.tip.inner with
  | none =>
      simp only [Cached, ObservedTip.head, ObservedTip.lib, stored, Option.map_none, height_none,
        le_bot_iff, WithBot.coe_ne_bot, or_false] at headCached libCached
      exact ⟨headCached, libCached⟩
  | some pair =>
      simp only [Cached, ObservedTip.head, ObservedTip.lib, stored, Option.map_some, height_some,
        WithBot.coe_le_coe] at headCached libCached
      constructor
      · cases headCached with
        | inl zero => exact zero ▸ Fin.zero_le _
        | inr below => exact below
      · cases libCached with
        | inl zero => exact zero ▸ Fin.zero_le _
        | inr below => exact below

end TipRun

/-- Whatever the loads give and however the calls interleave: the stored numbers never
decrease, the cached ones are not above them, and when every call has returned the highest
head and LIB of all calls are stored. -/
theorem observe_loses_nothing {s : TipRun} (reachable : Reachable tipMachine TipEvent.Positive s) :
    (∀ s', Reachable (tipMachine.startingAt s) TipEvent.Positive s' →
      height s.tip.head ≤ height s'.tip.head ∧ height s.tip.lib ≤ height s'.tip.lib) ∧
    (match s.tip.inner with
      | some (head, lib) => s.tip.headNum ≤ head.num ∧ s.tip.libNum ≤ lib.num
      | none => s.tip.headNum = 0 ∧ s.tip.libNum = 0) ∧
    (s.calls ≠ [] → (∀ c ∈ s.calls, c.point = .returned) →
      ∃ head lib, s.tip.inner = some (head, lib) ∧
        (∀ c ∈ s.calls, c.head.num ≤ head.num ∧ c.lib.num ≤ lib.num) ∧
        (∃ c ∈ s.calls, c.head = head) ∧ ∃ c ∈ s.calls, c.lib = lib) := by
  have sound := TipRun.Sound.of_reachable reachable
  refine ⟨?_, sound.cached, ?_⟩
  · intro s' run
    exact ⟨(TipRun.grows_run run).head, (TipRun.grows_run run).lib⟩
  · intro begun returned
    have stored (c : Observation) (member : c ∈ s.calls) :
        height (some c.head) ≤ height s.tip.head ∧ height (some c.lib) ≤ height s.tip.lib := by
      have subsumed := sound.calls c member
      rwa [Observation.Subsumed, returned c member] at subsumed
    cases inner : s.tip.inner with
    | none =>
        obtain ⟨c, member⟩ := List.exists_mem_of_ne_nil s.calls begun
        have below := (stored c member).1
        simp [ObservedTip.head, inner] at below
    | some pair =>
        simp only [ObservedTip.head, ObservedTip.lib, inner, Option.map_some, height_some,
          WithBot.coe_le_coe] at stored
        obtain ⟨report, reported, isHead⟩ :=
          sound.head_reported pair.1 (by simp [ObservedTip.head, inner])
        obtain ⟨report', reported', isLib⟩ :=
          sound.lib_reported pair.2 (by simp [ObservedTip.lib, inner])
        obtain ⟨c, member, rfl⟩ := List.mem_map.mp reported
        obtain ⟨c', member', rfl⟩ := List.mem_map.mp reported'
        exact ⟨pair.1, pair.2, rfl, stored, ⟨c, member, isHead⟩, c', member', isLib⟩

/-- Two calls interleave: the first stores while the second waits for the lock. -/
theorem observe_loses_nothing_sample :
    ∃ s, Reachable tipMachine TipEvent.Positive s ∧
      s.calls.map (fun c => (c.head.num, c.lib.num)) = [(10, 5), (9, 7)] ∧
      ∃ head lib, s.tip.inner = some (head, lib) ∧
        (∀ c ∈ s.calls, c.head.num ≤ head.num ∧ c.lib.num ≤ lib.num) ∧
        (∃ c ∈ s.calls, c.head = head) ∧ ∃ c ∈ s.calls, c.lib = lib := by
  have run : ∃ s, Reachable tipMachine TipEvent.Positive s ∧
      s.calls.map (fun c => (c.head.num, c.lib.num)) = [(10, 5), (9, 7)] ∧
      s.calls ≠ [] ∧ ∀ c ∈ s.calls, c.point = .returned :=
    exists_reachable_of_run
      [.call (samplePos 10) (samplePos 5), .advance 0 0, .call (samplePos 9) (samplePos 7),
        .advance 0 0, .advance 0 0, .advance 1 10, .advance 1 0, .advance 0 0, .advance 1 0,
        .advance 1 0, .advance 1 0]
      rfl (by decide +kernel)
  obtain ⟨s, reachable, nums, begun, returned⟩ := run
  exact ⟨s, reachable, nums, (observe_loses_nothing reachable).2.2 begun returned⟩

/-! ## A call alone -/

namespace TipRun

variable {s : TipRun} {head lib : BlockPos} {c : Observation}

/-- A state that comes after `s`. -/
def Later (s : TipRun) : TipRun → Prop := Reachable (tipMachine.startingAt s) fun _ _ => True

/-- One call more. -/
def join (s : TipRun) (c : Observation) : TipRun := { s with calls := s.calls ++ [c] }

theorem moveTo_join (point : Point) :
    (s.join c).moveTo s.calls.length point = s.join { c with point } := by
  simp [moveTo, join, List.modify_eq_take_drop]

theorem Later.advance {t t' : TipRun} (later : s.Later (t.join c)) (loaded : Fin (2 ^ 32))
    (step : (t.join c).advance t.calls.length loaded c = some t') : s.Later t' := by
  refine .next (e := .advance t.calls.length loaded) later trivial ?_
  change (t.join c).step (.advance t.calls.length loaded) = some t'
  simpa [TipRun.step, join] using step

/-- Nobody else holds the lock, so the call stores both positions and their numbers. -/
theorem Later.store (free : ∀ c ∈ s.calls, c.point.holdsLock = false)
    (later : s.Later (s.join ⟨head, lib, .waiting⟩)) :
    ∃ s', s.Later s' ∧
      s'.tip = ⟨(s.tip.seen head lib).1.num, (s.tip.seen head lib).2.num,
        some (s.tip.seen head lib)⟩ := by
  have unlocked :
      (s.join ⟨head, lib, .waiting⟩).calls.any (fun c => c.point.holdsLock) = false := by
    simpa [join, Point.holdsLock] using free
  let seen := s.tip.seen head lib
  have locked : s.Later
      (join { s with tip := { s.tip with inner := some seen } }
        ⟨head, lib, .storingHead seen⟩) := by
    apply later.advance 0
    simp only [TipRun.advance, unlocked, Bool.false_eq_true, if_false, moveTo_join]
    rfl
  have headStored : s.Later
      (join
        { s with
          tip := { s.tip with headNum := seen.1.num, inner := some seen }
          headNums := s.tip.headNum :: s.headNums }
        ⟨head, lib, .storingLib seen⟩) := by
    apply locked.advance 0
    simp only [TipRun.advance, moveTo_join]
    rfl
  exact ⟨_, headStored.advance 0 rfl, rfl⟩

/-- A call that runs alone does what the hub takes an observation to do. -/
theorem observe_alone (free : ∀ c ∈ s.calls, c.point.holdsLock = false) (head lib : BlockPos) :
    ∃ s', s.Later s' ∧ s'.tip = s.tip.observe head lib := by
  have called : s.Later (s.join ⟨head, lib, .start⟩) :=
    .next (e := .call head lib) (.start rfl) trivial rfl
  have headLoaded : s.Later (s.join
      ⟨head, lib, if head.num ≤ s.tip.headNum then .headSeen else .waiting⟩) := by
    apply called.advance s.tip.headNum
    simp only [TipRun.advance, moveTo_join]
    exact if_pos (List.mem_cons_self ..)
  rw [ObservedTip.observe]
  by_cases headSeen : head.num ≤ s.tip.headNum
  · rw [if_pos headSeen] at headLoaded
    have libLoaded : s.Later (s.join
        ⟨head, lib, if lib.num ≤ s.tip.libNum then .returned else .waiting⟩) := by
      apply headLoaded.advance s.tip.libNum
      simp only [TipRun.advance, moveTo_join]
      exact if_pos (List.mem_cons_self ..)
    by_cases libSeen : lib.num ≤ s.tip.libNum
    · rw [if_pos ⟨headSeen, libSeen⟩]
      exact ⟨_, libLoaded, rfl⟩
    · rw [if_neg libSeen] at libLoaded
      rw [if_neg fun both => libSeen both.2]
      exact libLoaded.store free
  · rw [if_neg headSeen] at headLoaded
    rw [if_neg fun both => headSeen both.1]
    exact headLoaded.store free

end TipRun

end FleetRouter.Fleet
