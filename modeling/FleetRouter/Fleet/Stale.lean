import FleetRouter.Fleet.Monitor

/-!
# Upstreams that do not advance

At every interval the router compares the chain state of each upstream with the highest end it
has seen of it.  A live upstream whose end did not grow for twelve intervals is stale until it
grows again; a frozen one is never stale.  A new generation of a listener starts with the flags of
the one before, which stand until its own intervals say otherwise.
-/

namespace FleetRouter.Fleet

open Ship Session Transition

def staleThreshold : Nat := 12

/-- What is kept of each upstream between intervals; 0 for one that was not seen before. -/
structure ProgressTracker where
  lastBlock : String → Nat
  staleCounter : String → Nat

structure Looked where
  last : Nat
  counter : Nat
  state : Monitored
  advanced : Bool

structure Ticked where
  tracker : ProgressTracker
  entries : List (String × Monitored)
  updated : Nat

namespace ProgressTracker

def default : ProgressTracker := ⟨fun _ => 0, fun _ => 0⟩

/-- One upstream at an interval. -/
def look (last counter : Nat) (state : Monitored) : Looked :=
  let block := state.chainStateEndBlock.val
  if state.role = .frozen then ⟨block, 0, { state with stale := false }, false⟩
  else if last < block then ⟨block, 0, { state with stale := false }, true⟩
  else
    let counter := min (counter + 1) u32Max
    ⟨last, counter, { state with stale := state.stale || counter = staleThreshold }, false⟩

def lookAt (t : ProgressTracker) (server : String) (state : Monitored) : Looked :=
  look (t.lastBlock server) (t.staleCounter server) state

def store (t : ProgressTracker) (server : String) (looked : Looked) : ProgressTracker where
  lastBlock := Function.update t.lastBlock server looked.last
  staleCounter := Function.update t.staleCounter server looked.counter

/-- One interval, for the upstreams in the order the map is walked. -/
def tick (t : ProgressTracker) : List (String × Monitored) → Ticked
  | [] => ⟨t, [], 0⟩
  | (server, state) :: rest =>
      let looked := t.lookAt server state
      let ticked := (t.store server looked).tick rest
      ⟨ticked.tracker, (server, looked.state) :: ticked.entries,
        looked.advanced.toNat + ticked.updated⟩

theorem keys_tick (t : ProgressTracker) (entries : List (String × Monitored)) :
    (t.tick entries).entries.map Prod.fst = entries.map Prod.fst := by
  induction entries generalizing t with
  | nil => rfl
  | cons e rest ih =>
      rw [tick, List.map_cons, List.map_cons]
      exact congrArg _ (ih _)

variable {t : ProgressTracker} {entries : List (String × Monitored)} {server : String}

/-- An interval leaves what is kept of other upstreams alone. -/
theorem tracker_tick_other (other : server ∉ entries.map Prod.fst) :
    (t.tick entries).tracker.lastBlock server = t.lastBlock server ∧
      (t.tick entries).tracker.staleCounter server = t.staleCounter server := by
  induction entries generalizing t with
  | nil => exact ⟨rfl, rfl⟩
  | cons e rest ih =>
      rw [List.map_cons, List.mem_cons, not_or] at other
      have later := @ih (t.store e.1 (t.lookAt e.1 e.2)) other.2
      exact ⟨later.1.trans (Function.update_of_ne other.1 _ _),
        later.2.trans (Function.update_of_ne other.1 _ _)⟩

/-- Every upstream is looked at once. -/
theorem looked_tick (nodup : (entries.map Prod.fst).Nodup) {state : Monitored}
    (member : (server, state) ∈ (t.tick entries).entries) :
    ∃ before, (server, before) ∈ entries ∧ state = (t.lookAt server before).state ∧
      (t.tick entries).tracker.lastBlock server = (t.lookAt server before).last ∧
      (t.tick entries).tracker.staleCounter server = (t.lookAt server before).counter := by
  induction entries generalizing t with
  | nil => cases member
  | cons e rest ih =>
      obtain ⟨first, before⟩ := e
      rw [List.map_cons, List.nodup_cons] at nodup
      rw [tick, List.mem_cons, Prod.mk.injEq] at member
      cases member with
      | inl here =>
          obtain ⟨rfl, rfl⟩ := here
          have kept := @tracker_tick_other (t.store server (t.lookAt server before)) rest server
            nodup.1
          exact ⟨before, List.mem_cons_self, rfl, kept.1.trans (Function.update_self _ _ _),
            kept.2.trans (Function.update_self _ _ _)⟩
      | inr later =>
          obtain ⟨old, isOld, isState, last, counter⟩ := ih nodup.2 later
          have other : server ≠ first := by
            rintro rfl
            exact nodup.1 (List.mem_map.mpr ⟨_, isOld, rfl⟩)
          have same : (t.store first (t.lookAt first before)).lookAt server old =
              t.lookAt server old := by
            simp only [lookAt, store, Function.update_of_ne other]
          rw [same] at isState last counter
          exact ⟨old, List.mem_cons_of_mem _ isOld, isState, last, counter⟩

end ProgressTracker

/-! ## Quiet upstreams -/

/-- The highest of these ends. -/
def highest (ends : List Nat) : Nat := ends.foldr max 0

theorem le_highest {ends : List Nat} {block : Nat} (member : block ∈ ends) :
    block ≤ highest ends := by
  induction ends with
  | nil => cases member
  | cons first rest ih =>
      cases member with
      | head => exact Nat.le_max_left _ _
      | tail _ later => exact (ih later).trans (Nat.le_max_right _ _)

theorem highest_le {ends : List Nat} {bound : Nat} (below : ∀ block ∈ ends, block ≤ bound) :
    highest ends ≤ bound := by
  induction ends with
  | nil => exact Nat.zero_le _
  | cons first rest ih =>
      rw [List.forall_mem_cons] at below
      exact Nat.max_le.mpr ⟨below.1, ih below.2⟩

theorem highest_eq_zero {ends : List Nat} : highest ends = 0 ↔ ∀ block ∈ ends, block = 0 := by
  constructor
  · intro isZero block member
    exact Nat.eq_zero_of_le_zero ((le_highest member).trans_eq isZero)
  · intro zeros
    exact Nat.eq_zero_of_le_zero (highest_le fun block member => (zeros block member).le)

/-- None of the last `k` ends, newest first, is above all that came before these. -/
def QuietFor (k : Nat) (ends : List Nat) : Prop :=
  k ≤ ends.length ∧ ∀ block ∈ ends.take k, block ≤ highest (ends.drop k)

theorem quietFor_zero (ends : List Nat) : QuietFor 0 ends :=
  ⟨Nat.zero_le _, by simp⟩

theorem quietFor_succ {k block : Nat} {ends : List Nat} :
    QuietFor (k + 1) (block :: ends) ↔ block ≤ highest ends ∧ QuietFor k ends := by
  unfold QuietFor
  rw [List.take_succ_cons, List.drop_succ_cons, List.length_cons, Nat.add_le_add_iff_right,
    List.forall_mem_cons]
  constructor
  · rintro ⟨long, first, rest⟩
    have fewer : highest (ends.drop k) ≤ highest ends :=
      highest_le fun b member => le_highest (List.mem_of_mem_drop member)
    exact ⟨first.trans fewer, long, rest⟩
  · rintro ⟨first, long, rest⟩
    have same : highest ends ≤ highest (ends.drop k) := by
      apply highest_le
      intro b member
      rw [← List.take_append_drop k ends, List.mem_append] at member
      exact member.elim (rest b) le_highest
    exact ⟨long, first.trans same, rest⟩

/-- What is kept of a live upstream that started with the flag `inherited` and whose ends at the
intervals were these. -/
structure Tracks (inherited : Bool) (last counter : Nat) (stale : Bool) (ends : List Nat) :
    Prop where
  isHighest : last = highest ends
  counts : ∀ k ≤ staleThreshold, k ≤ counter ↔ QuietFor k ends
  flagged : stale = true ↔ staleThreshold ≤ counter ∨ last = 0 ∧ inherited = true

theorem Tracks.look {inherited : Bool} {last counter : Nat} {state : Monitored} {ends : List Nat}
    (tracks : Tracks inherited last counter state.stale ends) (isLive : state.role = .live) :
    Tracks inherited (ProgressTracker.look last counter state).last
      (ProgressTracker.look last counter state).counter
      (ProgressTracker.look last counter state).state.stale
      (state.chainStateEndBlock.val :: ends) := by
  have threshold : staleThreshold < u32Max := by decide
  unfold ProgressTracker.look
  rw [if_neg (by simp [isLive])]
  split
  · rename_i grew
    rw [tracks.isHighest] at grew
    refine ⟨(Nat.max_eq_left grew.le).symm, fun k _ => ?_, ?_⟩
    · cases k with
      | zero => exact iff_of_true le_rfl (quietFor_zero _)
      | succ k =>
          rw [quietFor_succ]
          exact iff_of_false (Nat.not_succ_le_zero k)
            fun quiet => absurd quiet.1 (not_le.mpr grew)
    · simp [staleThreshold, Nat.ne_zero_of_lt grew]
  · rename_i still
    rw [tracks.isHighest, not_lt] at still
    refine ⟨tracks.isHighest.trans (Nat.max_eq_right still).symm, fun k small => ?_, ?_⟩
    · cases k with
      | zero => exact iff_of_true (Nat.zero_le _) (quietFor_zero _)
      | succ k =>
          rw [quietFor_succ, ← tracks.counts k (Nat.le_of_succ_le small)]
          simp only [Nat.le_min, still, true_and]
          omega
    · change (state.stale || decide (min (counter + 1) u32Max = staleThreshold)) = true ↔
        staleThreshold ≤ min (counter + 1) u32Max ∨ last = 0 ∧ inherited = true
      rw [Bool.or_eq_true, tracks.flagged, decide_eq_true_eq, or_right_comm]
      apply or_congr_left
      generalize u32Max = limit at threshold ⊢
      omega

/-! ## Runs -/

/-- The monitor with the loop that flags stale upstreams; `seen` are the ends that its intervals
found, newest first, and `inherited` the flags it started with. -/
structure Progress where
  monitor : Monitor
  tracker : ProgressTracker
  seen : String → List Nat
  inherited : String → Bool

inductive ProgressEvent where
  | monitor (e : MonitorEvent)
  | tick

theorem StateDb.get_eq {db : StateDb} {endpoint : String} {state : Monitored}
    (member : (endpoint, state) ∈ db.entries) : db.get endpoint = some state := by
  have found : (db.entries.find? fun e => e.1 = endpoint).isSome := by
    rw [List.find?_isSome]
    exact ⟨_, member, decide_eq_true rfl⟩
  obtain ⟨⟨server, other⟩, isFound⟩ := Option.isSome_iff_exists.mp found
  have same : server = endpoint := by simpa using List.find?_some isFound
  subst same
  have isState := StateDb.unique (List.mem_of_find?_eq_some isFound) member
  rw [StateDb.get, isFound, isState]
  rfl

namespace Progress

/-- What a generation starts with that takes over from these earlier ones. -/
def start (db : StateDb) (previous : List StateDb) : Progress :=
  let db := previous.foldl StateDb.inheritObservations db
  { monitor := ⟨db, fun _ => none⟩
    tracker := .default
    seen := fun _ => []
    inherited := fun endpoint => (db.get endpoint).any fun state => state.stale }

def onTick (s : Progress) : Progress where
  monitor :=
    { s.monitor with
      db := ⟨(s.tracker.tick s.monitor.db.entries).entries, by
        rw [ProgressTracker.keys_tick]
        exact s.monitor.db.nodup⟩ }
  tracker := (s.tracker.tick s.monitor.db.entries).tracker
  seen := fun endpoint =>
    ((s.monitor.db.get endpoint).map fun state => state.chainStateEndBlock.val).toList ++
      s.seen endpoint
  inherited := s.inherited

def step (s : Progress) : ProgressEvent → Option Progress
  | .monitor e => (s.monitor.step e).map fun monitor => { s with monitor }
  | .tick => some s.onTick

end Progress

def progressMachine (servers : List Server) (expectedChainId : Option Checksum)
    (requireChainId : Bool) : Machine Progress ProgressEvent where
  init s := ∃ previous, s = .start (.build servers expectedChainId requireChainId) previous
  step := Progress.step

/-- A report changes neither the role of an upstream nor whether it is stale. -/
theorem Monitored.stale_applyReport (s : Monitored) (peer : Option Checksum) (variant : UInt8)
    (r : StatusReport) (now : Nat) :
    (s.applyReport peer variant r now).role = s.role ∧
      (s.applyReport peer variant r now).stale = s.stale := by
  apply applyReport_cases (P := fun s' => s'.role = s.role ∧ s'.stale = s.stale)
  · intro warned
    exact ⟨rfl, rfl⟩
  · intro warned _ _ _
    simp [accept]

theorem StateDb.stale_modify {db : StateDb} {endpoint : String} {f : Monitored → Monitored}
    (keeps : ∀ s, (f s).role = s.role ∧ (f s).stale = s.stale) {e : String × Monitored}
    (member : e ∈ (db.modify endpoint f).entries) :
    ∃ old, (e.1, old) ∈ db.entries ∧ e.2.role = old.role ∧ e.2.stale = old.stale := by
  rcases StateDb.mem_modify.mp member with ⟨-, same⟩ | ⟨rfl, old, isOld, isNew⟩
  · exact ⟨e.2, same, rfl, rfl⟩
  · exact ⟨old, isOld, isNew ▸ (keeps old).1, isNew ▸ (keeps old).2⟩

theorem Monitor.stale_step {s s' : Monitor} {event : MonitorEvent} (step : s.step event = some s')
    {e : String × Monitored} (member : e ∈ s'.db.entries) :
    ∃ old, (e.1, old) ∈ s.db.entries ∧ e.2.role = old.role ∧ e.2.stale = old.stale := by
  cases event with
  | markOffline endpoint now =>
      cases step
      exact StateDb.stale_modify (f := fun state => state.markOffline now)
        (fun s => ⟨rfl, rfl⟩) member
  | frame endpoint binMsg iteration now =>
      cases step
      simp only [StateDb.applyStatusUpdate] at member
      split at member
      · exact ⟨e.2, member, rfl, rfl⟩
      · exact ⟨e.2, member, rfl, rfl⟩
      · exact ⟨e.2, member, rfl, rfl⟩
      · exact StateDb.stale_modify (fun s => s.stale_applyReport _ _ _ _) member

namespace Progress

variable {s s' : Progress} {event : ProgressEvent}

/-- What the loop keeps up of every upstream. -/
def Kept (s : Progress) : Prop :=
  ∀ e ∈ s.monitor.db.entries,
    (e.2.role = .frozen → (e.2.stale = true ↔ s.seen e.1 = [] ∧ s.inherited e.1 = true)) ∧
    (e.2.role = .live → Tracks (s.inherited e.1) (s.tracker.lastBlock e.1)
      (s.tracker.staleCounter e.1) e.2.stale (s.seen e.1))

theorem Kept.onTick (kept : s.Kept) : s.onTick.Kept := by
  rintro ⟨server, state⟩ member
  obtain ⟨before, isBefore, rfl, last, counter⟩ :=
    ProgressTracker.looked_tick s.monitor.db.nodup member
  have seen : s.onTick.seen server = before.chainStateEndBlock.val :: s.seen server := by
    simp [Progress.onTick, StateDb.get_eq isBefore]
  have role : (s.tracker.lookAt server before).state.role = before.role := by
    unfold ProgressTracker.lookAt ProgressTracker.look
    dsimp only
    split
    · rfl
    · split <;> rfl
  constructor
  · intro isFrozen
    rw [role] at isFrozen
    rw [seen]
    simp [ProgressTracker.lookAt, ProgressTracker.look, isFrozen]
  · intro isLive
    rw [role] at isLive
    have tracks := ((kept _ isBefore).2 isLive).look isLive
    rw [seen]
    change Tracks (s.inherited server) ((s.tracker.tick _).tracker.lastBlock server)
      ((s.tracker.tick _).tracker.staleCounter server) _ _
    rw [last, counter]
    exact tracks

theorem Kept.step (kept : s.Kept) (step : s.step event = some s') : s'.Kept := by
  cases event with
  | tick =>
      cases step
      exact kept.onTick
  | monitor e =>
      obtain ⟨monitor, moved, rfl⟩ := Option.map_eq_some_iff.mp step
      intro e member
      obtain ⟨old, isOld, role, stale⟩ := Monitor.stale_step moved member
      rw [role, stale]
      exact kept _ isOld

variable {servers : List Server} {expectedChainId : Option Checksum} {requireChainId : Bool}
  {allowed : Progress → ProgressEvent → Prop}

theorem Kept.start (db : StateDb) (previous : List StateDb) : Kept (.start db previous) := by
  intro e member
  have flag : (Progress.start db previous).inherited e.1 = e.2.stale := by
    change ((Progress.start db previous).monitor.db.get e.1).any _ = _
    rw [StateDb.get_eq member, Option.any_some]
  have unseen : (Progress.start db previous).seen e.1 = [] := rfl
  rw [flag, unseen]
  refine ⟨fun _ => (and_iff_right rfl).symm, fun _ => ⟨rfl, fun k _ => ?_, ?_⟩⟩
  · cases k with
    | zero => exact iff_of_true le_rfl (quietFor_zero _)
    | succ k =>
        exact iff_of_false (Nat.not_succ_le_zero k) fun quiet => Nat.not_succ_le_zero k quiet.1
  · simp [Progress.start, ProgressTracker.default, staleThreshold]

/-- Whatever statuses and outages come between the intervals, a live upstream is stale exactly when
none of its last twelve ends was above all the ones before, or when it started so and no interval
has found an end above 0.  A frozen upstream is stale only until the first interval, if it started
so. -/
theorem stale_exact
    (reachable : Reachable (progressMachine servers expectedChainId requireChainId) allowed s) :
    ∀ e ∈ s.monitor.db.entries,
      (e.2.role = .frozen → (e.2.stale = true ↔ s.seen e.1 = [] ∧ s.inherited e.1 = true)) ∧
      (e.2.role = .live → (e.2.stale = true ↔ QuietFor 12 (s.seen e.1) ∨
        (∀ block ∈ s.seen e.1, block = 0) ∧ s.inherited e.1 = true)) := by
  have kept : s.Kept := by
    apply reachable.invariant (P := Kept)
    · rintro s ⟨previous, rfl⟩
      exact .start _ previous
    · exact fun s e s' _ kept _ step => kept.step step
  intro e member
  refine ⟨(kept e member).1, fun isLive => ?_⟩
  have tracks := (kept e member).2 isLive
  rw [tracks.flagged, tracks.counts staleThreshold le_rfl, tracks.isHighest, highest_eq_zero]
  rfl

theorem stale_exact_idle :
    ∃ s, Reachable (progressMachine [plainServer "a"] none false) (fun _ _ => True) s ∧
      ∃ e ∈ s.monitor.db.entries, e.2.stale = true ∧ e.2.role = .live ∧ s.inherited e.1 = false ∧
        QuietFor 12 (s.seen e.1) := by
  have found : ∃ s, Reachable (progressMachine [plainServer "a"] none false) (fun _ _ => True) s ∧
      ∃ e ∈ s.monitor.db.entries, e.2.stale = true ∧ e.2.role = .live ∧ s.inherited e.1 = false :=
    exists_reachable_of_run (List.replicate 13 .tick) ⟨[], rfl⟩ (by decide +kernel)
  obtain ⟨s, reachable, e, member, isStale, isLive, fresh⟩ := found
  refine ⟨s, reachable, e, member, isStale, isLive, fresh, ?_⟩
  cases ((stale_exact reachable e member).2 isLive).mp isStale with
  | inl quiet => exact quiet
  | inr inherited => simp [fresh] at inherited

end Progress

end FleetRouter.Fleet
