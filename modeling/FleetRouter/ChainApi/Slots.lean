import Mathlib.Order.Nat
import FleetRouter.Lib.Transition

/-!
# Slots of an upstream API

Each API serves a bounded number of requests at a time.  A request takes a slot by raising
`in_flight` while it is below `cap`; when the API is full it waits to be notified.  A request
that ends lowers `in_flight` and then notifies the waiters, and so does a change of the
cap that raises it.  Between any two of these actions every other request may act.
-/

namespace FleetRouter.ChainApi

open Transition

/-- Where a call for a slot is.  A waiting call carries the number of notifications made
when it last registered; a call that only tries has none. -/
inductive Point where
  | start (ticket : Option Nat)
  | capLoaded (ticket : Option Nat) (cap : Nat)
  /-- `in_flight` was `n` when the call last read it. -/
  | updating (ticket : Option Nat) (cap n : Nat)
  | waiting (ticket : Nat)
  | holding
  /-- The slot is given back; the waiters are not notified yet. -/
  | releasing
  | left
  deriving DecidableEq, Repr

/-- The cap a call goes by. -/
def Point.loaded : Point → Option Nat
  | .capLoaded _ cap | .updating _ cap _ => some cap
  | .start _ | .waiting _ | .holding | .releasing | .left => none

def Point.isHolding : Point → Bool
  | .holding => true
  | .start _ | .capLoaded _ _ | .updating _ _ _ | .waiting _ | .releasing | .left => false

/-- One API slot counter with every call so far. -/
structure SlotRun where
  cap : Nat
  inFlight : Nat
  /-- Calls of `notify_waiters` so far. -/
  notified : Nat
  /-- Changes of the cap that have yet to notify. -/
  raising : Nat
  calls : List Point
  /-- The highest cap so far. -/
  highest : Nat
  deriving DecidableEq, Repr

inductive SlotEvent where
  /-- `acquire_until`, or `try_acquire` when the call does not wait. -/
  | acquire (waits : Bool)
  /-- The next action of a call; dropping its guard when it holds a slot. -/
  | advance (i : Nat)
  /-- The deadline of a waiting call passes, or its request is gone. -/
  | giveUp (i : Nat)
  | setCap (cap : Nat)
  /-- A change that raised the cap notifies the waiters. -/
  | raised
  deriving DecidableEq, Repr

namespace SlotRun

def new (cap : Nat) : SlotRun where
  cap := max cap 1
  inFlight := 0
  notified := 0
  raising := 0
  calls := []
  highest := max cap 1

def isFull (s : SlotRun) : Bool := decide (s.cap ≤ s.inFlight)

def moveTo (s : SlotRun) (i : Nat) (point : Point) : SlotRun :=
  { s with calls := s.calls.set i point }

/-- What a call does when there is no slot for it. -/
def refused : Option Nat → Point
  | some ticket => .waiting ticket
  | none => .left

/-- The next action of the call `i`, which is at `point`. -/
def advance (s : SlotRun) (i : Nat) : Point → Option SlotRun
  | .start ticket => some (s.moveTo i (.capLoaded ticket s.cap))
  | .capLoaded ticket cap => some (s.moveTo i (.updating ticket cap s.inFlight))
  | .updating ticket cap n =>
      if n < cap then
        -- The exchange succeeds on the value that was read and gives the current one otherwise.
        if s.inFlight = n then some { s.moveTo i .holding with inFlight := n + 1 }
        else some (s.moveTo i (.updating ticket cap s.inFlight))
      else some (s.moveTo i (refused ticket))
  | .waiting ticket =>
      if ticket = s.notified then none else some (s.moveTo i (.start (some s.notified)))
  | .holding => some { s.moveTo i .releasing with inFlight := s.inFlight - 1 }
  | .releasing => some { s.moveTo i .left with notified := s.notified + 1 }
  | .left => none

def giveUp (s : SlotRun) (i : Nat) : Point → Option SlotRun
  | .waiting _ => some (s.moveTo i .left)
  | _ => none

def setCap (s : SlotRun) (cap : Nat) : SlotRun :=
  { s with
    cap := max cap 1
    raising := if s.cap < cap then s.raising + 1 else s.raising
    highest := max s.highest (max cap 1) }

def step (s : SlotRun) : SlotEvent → Option SlotRun
  | .acquire waits =>
      some { s with calls := s.calls ++ [.start (if waits then some s.notified else none)] }
  | .advance i => s.calls[i]?.bind (s.advance i)
  | .giveUp i => s.calls[i]?.bind (s.giveUp i)
  | .setCap cap => some (s.setCap cap)
  | .raised =>
      if 0 < s.raising then
        some { s with raising := s.raising - 1, notified := s.notified + 1 }
      else none

end SlotRun

def slotMachine (cap : Nat) : Machine SlotRun SlotEvent where
  init := (· = .new cap)
  step := SlotRun.step

/-! ## What a call knows -/

namespace SlotRun

variable {s s' : SlotRun} {i : Nat} {point p : Point}

/-- Somebody is about to notify the waiters. -/
def Owing (s : SlotRun) : Prop := 0 < s.raising ∨ .releasing ∈ s.calls

/-- What a call has read is still right, unless it was notified since it registered or is about
to be. -/
def Current (s : SlotRun) : Point → Prop
  | .start ticket => ∀ t ∈ ticket, t ≤ s.notified
  | .capLoaded ticket cap => ∀ t ∈ ticket, t ≤ s.notified ∧ (t = s.notified → s.cap ≤ cap ∨ s.Owing)
  | .updating ticket cap n =>
      ∀ t ∈ ticket, t ≤ s.notified ∧
        (t = s.notified → (s.cap ≤ cap ∧ n ≤ s.inFlight) ∨ s.Owing)
  | .waiting t => t ≤ s.notified ∧ (t = s.notified → s.cap ≤ s.inFlight ∨ s.Owing)
  | .holding | .releasing | .left => True

/-- Nothing became free that is not about to be notified. -/
structure Holds (s s' : SlotRun) : Prop where
  notified : s'.notified = s.notified
  cap : s'.cap ≤ s.cap ∨ s'.Owing
  inFlight : s.inFlight ≤ s'.inFlight ∨ s'.Owing
  owing : s.Owing → s'.Owing

theorem Current.holds (current : s.Current p) (holds : s.Holds s') : s'.Current p := by
  have cap := holds.cap
  have inFlight := holds.inFlight
  have owing := holds.owing
  cases p with
  | start ticket => simpa only [Current, holds.notified] using current
  | capLoaded | updating | waiting =>
      simp only [Current, holds.notified] at current ⊢
      grind
  | holding => trivial
  | releasing => trivial
  | left => trivial

/-- Nothing that a call has read matters once the waiters are notified. -/
theorem Current.notify (current : s.Current p) (notified : s'.notified = s.notified + 1) :
    s'.Current p := by
  cases p with
  | start ticket => exact fun t found => notified ▸ (current t found).trans (Nat.le_succ _)
  | capLoaded | updating =>
      intro t found
      have below := (current t found).1
      exact ⟨by omega, fun same => by omega⟩
  | waiting ticket =>
      have below := current.1
      exact ⟨by omega, fun same => by omega⟩
  | holding => trivial
  | releasing => trivial
  | left => trivial

/-- What holds between any two actions. -/
structure Sound (s : SlotRun) : Prop where
  positive : 0 < s.cap
  capped : s.cap ≤ s.highest
  bounded : s.inFlight ≤ s.highest
  loaded : ∀ p ∈ s.calls, ∀ cap ∈ p.loaded, cap ≤ s.highest
  counted : s.inFlight = s.calls.countP Point.isHolding
  current : ∀ p ∈ s.calls, s.Current p

theorem Sound.new (cap : Nat) : Sound (.new cap) where
  positive := Nat.lt_of_lt_of_le Nat.zero_lt_one (Nat.le_max_right cap 1)
  capped := le_rfl
  bounded := Nat.zero_le _
  loaded := by simp [SlotRun.new]
  counted := rfl
  current := by simp [SlotRun.new]

/-! ## One action -/

theorem owing_moveTo (found : s.calls[i]? = some point) (notReleasing : point ≠ .releasing)
    (owing : s.Owing) : (s.moveTo i p).Owing := by
  refine owing.imp_right fun releases => ?_
  obtain ⟨j, isAt⟩ := List.mem_iff_getElem?.mp releases
  have other : i ≠ j := by
    rintro rfl
    exact notReleasing (Option.some.inj (found.symm.trans isAt))
  exact List.mem_of_getElem? ((List.getElem?_set_ne other).trans isAt)

theorem countP_set (found : s.calls[i]? = some point) :
    (s.calls.set i p).countP Point.isHolding + point.isHolding.toNat =
      s.calls.countP Point.isHolding + p.isHolding.toNat := by
  obtain ⟨inside, isAt⟩ := List.getElem?_eq_some_iff.mp found
  rw [List.countP_set inside, isAt]
  cases was : point.isHolding with
  | false => cases p.isHolding <;> rfl
  | true =>
      have positive : 0 < s.calls.countP Point.isHolding :=
        List.countP_pos_iff.mpr ⟨point, List.mem_of_getElem? found, was⟩
      cases p.isHolding <;> simp <;> omega

/-- `s'` is `s` except for the call `i`, for `in_flight` and for who was notified. -/
structure Moved (s : SlotRun) (i : Nat) (p : Point) (s' : SlotRun) : Prop where
  cap : s'.cap = s.cap
  highest : s'.highest = s.highest
  calls : s'.calls = s.calls.set i p

/-- A call moves on and only it needs another look. -/
theorem Sound.moveTo (sound : s.Sound) (found : s.calls[i]? = some point) (moved : s.Moved i p s')
    (loaded : ∀ cap ∈ p.loaded, cap ≤ s.highest) (bounded : s'.inFlight ≤ s.highest)
    (counted : s'.inFlight + point.isHolding.toNat = s.inFlight + p.isHolding.toNat)
    (others : ∀ q, s.Current q → s'.Current q) (current : s'.Current p) : s'.Sound where
  positive := moved.cap ▸ sound.positive
  capped := moved.cap ▸ moved.highest ▸ sound.capped
  bounded := moved.highest ▸ bounded
  loaded := by
    intro q member
    rw [moved.highest]
    rw [moved.calls] at member
    cases List.mem_or_eq_of_mem_set member with
    | inl before => exact sound.loaded q before
    | inr here => exact here ▸ loaded
  counted := by
    have count := countP_set (p := p) found
    have before := sound.counted
    rw [moved.calls]
    omega
  current := by
    intro q member
    rw [moved.calls] at member
    cases List.mem_or_eq_of_mem_set member with
    | inl before => exact others q (sound.current q before)
    | inr here => exact here ▸ current

/-- The action of a call that has no slot and takes none changes nothing else. -/
theorem Holds.moveTo (found : s.calls[i]? = some point) (notReleasing : point ≠ .releasing) :
    s.Holds (s.moveTo i p) where
  notified := rfl
  cap := .inl le_rfl
  inFlight := .inl le_rfl
  owing := owing_moveTo found notReleasing

theorem Current.refused {ticket : Option Nat} {cap n : Nat}
    (current : s.Current (.updating ticket cap n)) (full : cap ≤ n) :
    s.Current (SlotRun.refused ticket) := by
  cases ticket with
  | none => trivial
  | some t =>
      have known := current t rfl
      exact ⟨known.1, fun same =>
        (known.2 same).imp_left fun read => read.1.trans (full.trans read.2)⟩

theorem Sound.advance (sound : s.Sound) (found : s.calls[i]? = some point)
    (step : s.advance i point = some s') : s'.Sound := by
  have member := List.mem_of_getElem? found
  have current := sound.current point member
  have loaded := sound.loaded point member
  cases point with
  | start ticket =>
      cases step
      refine sound.moveTo found ⟨rfl, rfl, rfl⟩ ?_ sound.bounded rfl ?_ ?_
      · exact fun cap isCap => Option.some.inj isCap ▸ sound.capped
      · exact fun q known => known.holds (.moveTo found nofun)
      · exact fun t isTicket => ⟨current t isTicket, fun _ => .inl le_rfl⟩
  | capLoaded ticket cap =>
      cases step
      have holds : s.Holds (s.moveTo i (.updating ticket cap s.inFlight)) := .moveTo found nofun
      refine sound.moveTo found ⟨rfl, rfl, rfl⟩ loaded sound.bounded rfl ?_ ?_
      · exact fun q known => known.holds holds
      · intro t isTicket
        have known := current.holds holds t isTicket
        exact ⟨known.1, fun same => (known.2 same).imp_left fun below => ⟨below, le_rfl⟩⟩
  | updating ticket cap n =>
      simp only [SlotRun.advance] at step
      split at step
      · rename_i below
        split at step
        · rename_i same
          cases step
          refine sound.moveTo found ⟨rfl, rfl, rfl⟩ nofun ?_ ?_ ?_ trivial
          · exact (Nat.succ_le_of_lt below).trans (loaded cap rfl)
          · rw [same]
            rfl
          · intro q known
            apply known.holds
            exact ⟨rfl, .inl le_rfl, .inl (same ▸ Nat.le_succ n), owing_moveTo found nofun⟩
        · cases step
          have holds : s.Holds (s.moveTo i (.updating ticket cap s.inFlight)) :=
            .moveTo found nofun
          refine sound.moveTo found ⟨rfl, rfl, rfl⟩ loaded sound.bounded rfl ?_ ?_
          · exact fun q known => known.holds holds
          · intro t isTicket
            have known := current.holds holds t isTicket
            exact ⟨known.1, fun same => (known.2 same).imp_left fun read => ⟨read.1, le_rfl⟩⟩
      · rename_i full
        cases step
        have holds : s.Holds (s.moveTo i (SlotRun.refused ticket)) := .moveTo found nofun
        refine sound.moveTo found ⟨rfl, rfl, rfl⟩ ?_ sound.bounded ?_ ?_ ?_
        · cases ticket <;> nofun
        · cases ticket <;> rfl
        · exact fun q known => known.holds holds
        · exact (current.refused (not_lt.mp full)).holds holds
  | waiting ticket =>
      simp only [SlotRun.advance, Option.ite_none_left_eq_some] at step
      cases step.2
      refine sound.moveTo found ⟨rfl, rfl, rfl⟩ nofun sound.bounded rfl ?_ ?_
      · exact fun q known => known.holds (.moveTo found nofun)
      · exact fun t isTicket => Option.some.inj isTicket ▸ le_rfl
  | holding =>
      cases step
      have releases : Owing { s.moveTo i .releasing with inFlight := s.inFlight - 1 } :=
        .inr (List.mem_set (List.getElem?_eq_some_iff.mp found).1 _)
      have holdsOne : 0 < s.inFlight := by
        rw [sound.counted]
        exact List.countP_pos_iff.mpr ⟨_, member, rfl⟩
      refine sound.moveTo found ⟨rfl, rfl, rfl⟩ nofun ?_ ?_ ?_ trivial
      · exact (Nat.sub_le _ _).trans sound.bounded
      · exact Nat.sub_add_cancel holdsOne
      · exact fun q known => known.holds ⟨rfl, .inl le_rfl, .inr releases, fun _ => releases⟩
  | releasing =>
      cases step
      refine sound.moveTo found ⟨rfl, rfl, rfl⟩ nofun sound.bounded rfl ?_ trivial
      exact fun q known => known.notify rfl
  | left => cases step

theorem Holds.setCap (positive : 0 < s.cap) (cap : Nat) : s.Holds (s.setCap cap) where
  notified := rfl
  cap := by
    by_cases higher : s.cap < cap
    · exact .inr (.inl (by simp [SlotRun.setCap, higher]))
    · exact .inl (Nat.max_le.mpr ⟨not_lt.mp higher, positive⟩)
  inFlight := .inl le_rfl
  owing := by
    refine Or.imp_left fun raising => ?_
    simp only [SlotRun.setCap]
    split
    · exact Nat.succ_pos _
    · exact raising

theorem Sound.setCap (sound : s.Sound) (cap : Nat) : (s.setCap cap).Sound where
  positive := Nat.lt_of_lt_of_le Nat.zero_lt_one (Nat.le_max_right cap 1)
  capped := Nat.le_max_right _ _
  bounded := sound.bounded.trans (Nat.le_max_left _ _)
  loaded := fun p member cap isCap =>
    (sound.loaded p member cap isCap).trans (Nat.le_max_left _ _)
  counted := sound.counted
  current := fun p member => (sound.current p member).holds (.setCap sound.positive cap)

theorem Sound.acquire (sound : s.Sound) {ticket : Option Nat}
    (below : ∀ t ∈ ticket, t ≤ s.notified) :
    Sound { s with calls := s.calls ++ [.start ticket] } where
  positive := sound.positive
  capped := sound.capped
  bounded := sound.bounded
  loaded := by
    rw [List.forall_mem_append, List.forall_mem_singleton]
    exact ⟨sound.loaded, nofun⟩
  counted := by
    rw [List.countP_append]
    exact sound.counted
  current := by
    intro p member
    rw [List.mem_append, List.mem_singleton] at member
    cases member with
    | inl before =>
        apply (sound.current p before).holds
        exact ⟨rfl, .inl le_rfl, .inl le_rfl, Or.imp_right (List.mem_append_left _)⟩
    | inr new =>
        subst new
        exact below

theorem Sound.step (sound : s.Sound) {e : SlotEvent} (step : s.step e = some s') : s'.Sound := by
  cases e with
  | acquire waits =>
      cases step
      apply sound.acquire
      intro t isTicket
      cases waits with
      | false => cases isTicket
      | true =>
          cases isTicket
          exact le_rfl
  | advance i =>
      obtain ⟨point, found, moved⟩ := Option.bind_eq_some_iff.mp step
      exact sound.advance found moved
  | giveUp i =>
      obtain ⟨point, found, moved⟩ := Option.bind_eq_some_iff.mp step
      cases point with
      | waiting ticket =>
          cases moved
          refine sound.moveTo found ⟨rfl, rfl, rfl⟩ nofun sound.bounded rfl ?_ trivial
          exact fun q known => known.holds (.moveTo found nofun)
      | start | capLoaded | updating | holding | releasing | left => cases moved
  | setCap cap =>
      cases step
      exact sound.setCap cap
  | raised =>
      simp only [SlotRun.step, Option.ite_none_right_eq_some] at step
      cases step.2
      exact
        { sound with current := fun p member => (sound.current p member).notify rfl }

variable {cap : Nat} {allowed : SlotRun → SlotEvent → Prop}

theorem sound (reachable : Reachable (slotMachine cap) allowed s) : s.Sound := by
  apply reachable.invariant
  · exact fun s isInitial => isInitial ▸ .new cap
  · exact fun s e s' _ sound _ step => sound.step step

/-! ## Results -/

/-- In every interleaving `in_flight` is the number of requests that hold a slot, and it never
exceeds the highest cap there was. -/
theorem inFlight_eq_held (reachable : Reachable (slotMachine cap) (fun _ _ => True) s) :
    s.inFlight = s.calls.countP Point.isHolding ∧ s.inFlight ≤ s.highest :=
  ⟨(sound reachable).counted, (sound reachable).bounded⟩

/-- Two requests race for the only slot of an API: both read that it is free. -/
def slotRace : List SlotEvent :=
  [.acquire true, .acquire true, .advance 0, .advance 1, .advance 0, .advance 1, .advance 0,
    .advance 1, .advance 1]

theorem inFlight_eq_held_race :
    ∃ s, Reachable (slotMachine 0) (fun _ _ => True) s ∧ s.calls = [.holding, .waiting 0] ∧
      s.inFlight = s.calls.countP Point.isHolding ∧ s.inFlight ≤ s.highest := by
  have found : ∃ s, Reachable (slotMachine 0) (fun _ _ => True) s ∧
      s.calls = [.holding, .waiting 0] :=
    exists_reachable_of_run slotRace rfl (by decide)
  obtain ⟨s, reachable, calls⟩ := found
  exact ⟨s, reachable, calls, inFlight_eq_held reachable⟩

/-- The actions of the call `i` and the notifications that others already owe. -/
def Undisturbed (i : Nat) (s : SlotRun) : SlotEvent → Prop
  | .advance j => j = i ∨ s.calls[j]? = some .releasing
  | .raised => True
  | .acquire _ | .giveUp _ | .setCap _ => False

section FreeSlot

variable {ticket : Nat}

theorem getElem?_moveTo (found : s.calls[i]? = some point) : (s.moveTo i p).calls[i]? = some p :=
  List.getElem?_set_self (List.getElem?_eq_some_iff.mp found).1

theorem own_action (run : Reachable ((slotMachine cap).startingAt s) (Undisturbed i) s')
    (found : s'.calls[i]? = some point) {s'' : SlotRun} (acts : s'.advance i point = some s'') :
    Reachable ((slotMachine cap).startingAt s) (Undisturbed i) s'' :=
  .next run (e := .advance i) (.inl rfl) (Option.bind_eq_some_iff.mpr ⟨point, found, acts⟩)

/-- A call that was notified takes a slot that is free all along. -/
theorem takes_free_slot (run : Reachable ((slotMachine cap).startingAt s) (Undisturbed i) s')
    (waits : s'.calls[i]? = some (.waiting ticket)) (notified : ticket ≠ s'.notified)
    (free : s'.inFlight < s'.cap) :
    ∃ s'', Reachable ((slotMachine cap).startingAt s) (Undisturbed i) s'' ∧
      s''.calls[i]? = some .holding := by
  have registers := own_action run waits (if_neg notified)
  have registered := getElem?_moveTo (p := .start (some s'.notified)) waits
  have loads := own_action registers registered rfl
  have loaded := getElem?_moveTo (p := .capLoaded (some s'.notified) s'.cap) registered
  have reads := own_action loads loaded rfl
  have read := getElem?_moveTo (p := .updating (some s'.notified) s'.cap s'.inFlight) loaded
  have takes := own_action reads read ((if_pos free).trans (if_pos rfl))
  exact ⟨_, takes, getElem?_moveTo read⟩

/-- A notification that is owed can be made, and it changes nothing else. -/
theorem notification_of_owing (owing : s.Owing) :
    ∃ e s', (∀ i, s.calls[i]? ≠ some .releasing → Undisturbed i s e ∧ s'.calls[i]? = s.calls[i]?) ∧
      s.step e = some s' ∧ s'.notified = s.notified + 1 ∧ s'.cap = s.cap ∧
      s'.inFlight = s.inFlight := by
  cases owing with
  | inl raising =>
      exact ⟨.raised, { s with raising := s.raising - 1, notified := s.notified + 1 },
        fun i _ => ⟨trivial, rfl⟩, if_pos raising, rfl, rfl, rfl⟩
  | inr releases =>
      obtain ⟨j, isAt⟩ := List.mem_iff_getElem?.mp releases
      refine ⟨.advance j, { s.moveTo j .left with notified := s.notified + 1 },
        fun i waits => ⟨.inr isAt, ?_⟩, Option.bind_eq_some_iff.mpr ⟨.releasing, isAt, rfl⟩,
        rfl, rfl, rfl⟩
      apply List.getElem?_set_ne
      intro same
      exact waits (same ▸ isAt)

/-- No wake-up is lost: a call sleeps only while the API is full or somebody is about to notify
it, and it gets a free slot by those notifications and its own actions alone. -/
theorem waiting_gets_free_slot (reachable : Reachable (slotMachine cap) (fun _ _ => True) s)
    (waits : s.calls[i]? = some (.waiting ticket)) :
    (ticket = s.notified → s.isFull = true ∨ s.Owing) ∧
      (s.isFull = false →
        ∃ s', Reachable ((slotMachine cap).startingAt s) (Undisturbed i) s' ∧
          s'.calls[i]? = some .holding) := by
  have current := (sound reachable).current _ (List.mem_of_getElem? waits)
  have asleep : ticket = s.notified → s.isFull = true ∨ s.Owing := fun same =>
    (current.2 same).imp_left decide_eq_true
  refine ⟨asleep, fun notFull => ?_⟩
  have free : s.inFlight < s.cap := not_le.mp (of_decide_eq_false notFull)
  have here : Reachable ((slotMachine cap).startingAt s) (Undisturbed i) s := .start rfl
  by_cases same : ticket = s.notified
  · have owing : s.Owing := (asleep same).resolve_left (by simp [notFull])
    obtain ⟨e, s', undisturbed, step, notified, capSame, inFlight⟩ := notification_of_owing owing
    obtain ⟨allowed, still⟩ := undisturbed i (by simp [waits])
    apply takes_free_slot (.next here allowed step) (still.trans waits)
    · omega
    · omega
  · exact takes_free_slot here waits same free

end FreeSlot

/-- After the race the first request has given its slot back and has not notified yet. -/
theorem waiting_gets_free_slot_race :
    ∃ s, Reachable (slotMachine 0) (fun _ _ => True) s ∧ s.notified = 0 ∧ s.isFull = false ∧
      s.Owing ∧ ∃ s', Reachable ((slotMachine 0).startingAt s) (Undisturbed 1) s' ∧
        s'.calls[1]? = some .holding := by
  have found : ∃ s, Reachable (slotMachine 0) (fun _ _ => True) s ∧
      s.calls[1]? = some (.waiting 0) ∧ s.notified = 0 ∧ s.isFull = false :=
    exists_reachable_of_run (slotRace ++ [.advance 0]) rfl (by decide)
  obtain ⟨s, reachable, waits, notified, free⟩ := found
  have result := waiting_gets_free_slot reachable waits
  exact ⟨s, reachable, notified, free, (result.1 notified.symm).resolve_left (by simp [free]),
    result.2 free⟩

end SlotRun

end FleetRouter.ChainApi
