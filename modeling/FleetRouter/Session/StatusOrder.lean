import FleetRouter.Lib.Transition
import FleetRouter.Session.Status

/-!
# The order of status requests

Status requests wait in one queue, may be relayed to the link through another, and
come back from it when the link ends.  A run of a `StatusFlow` records what was
accepted and answered, and when every request arrived, so that the order of the
answers and the deadline can be stated for whole runs.
-/

namespace FleetRouter.Session

open Transition

/-! ## What the operations do -/

namespace StatusFlow

variable {flow : StatusFlow}

theorem push_eq_some {v1 : Bool} {now wait : Nat} {flow' : StatusFlow}
    (accepted : flow.push v1 now wait = some flow') :
    flow.hold.length + flow.backlog.length < maxQueuedStatus ∧
      flow' = { flow with
        hold := flow.hold ++ [v1], deadline := some (flow.deadline.getD (now + wait)) } := by
  unfold push at accepted
  split at accepted
  · cases accepted
  · exact ⟨by omega, (Option.some.inj accepted).symm⟩

theorem push_eq_none {v1 : Bool} {now wait : Nat} (refused : flow.push v1 now wait = none) :
    maxQueuedStatus ≤ flow.hold.length + flow.backlog.length := by
  unfold push at refused
  split at refused
  · assumption
  · cases refused

@[simp] theorem settleDeadline_hold : flow.settleDeadline.hold = flow.hold := by
  unfold settleDeadline
  split <;> rfl

@[simp] theorem settleDeadline_backlog : flow.settleDeadline.backlog = flow.backlog := by
  unfold settleDeadline
  split <;> rfl

theorem settleDeadline_deadline :
    flow.settleDeadline.deadline = if flow.hold = [] then none else flow.deadline := by
  unfold settleDeadline
  by_cases empty : flow.hold = [] <;> simp [empty]

theorem settleDeadline_isSome (set : flow.deadline.isSome = true) :
    flow.settleDeadline.deadline.isSome = true ↔ flow.hold ≠ [] := by
  rw [settleDeadline_deadline]
  by_cases empty : flow.hold = [] <;> simp [empty, set]

/-- The oldest held request waits, is relayed, or is answered when none is relayed. -/
theorem next_cases (flow : StatusFlow) (ready canRelay : Bool) :
    (flow.hold = [] ∧ flow.next ready canRelay = ({ flow with deadline := none }, none)) ∨
      flow.hold ≠ [] ∧ flow.next ready canRelay = (flow, none) ∨
      ∃ v1 hold, flow.hold = v1 :: hold ∧
        (flow.next ready canRelay =
            (settleDeadline { flow with hold, backlog := flow.backlog ++ [v1] }, some (.relay v1)) ∨
          flow.backlog = [] ∧
            flow.next ready canRelay = (settleDeadline { flow with hold }, some (.reply v1))) := by
  unfold next
  split
  · rename_i empty
    exact .inl ⟨empty, rfl⟩
  · rename_i v1 hold held
    split
    · split
      · exact .inr (.inr ⟨v1, hold, held, .inl rfl⟩)
      · exact .inr (.inl ⟨by simp [held], rfl⟩)
    · rename_i direct
      have none : flow.backlog = [] := by simp_all
      exact .inr (.inr ⟨v1, hold, held, .inr ⟨none, rfl⟩⟩)

end StatusFlow

/-! ## Runs -/

/-- An accepted request: when it arrived, how long it may wait, and whether it came
back from a link that ended. -/
structure StatusRequest where
  v1 : Bool
  arrival : Nat
  wait : Nat
  returned : Bool
  deriving DecidableEq, Repr

/-- A flow with the history of its requests. -/
structure StatusRun where
  flow : StatusFlow
  /-- The versions of the accepted pushes. -/
  accepted : List Bool
  /-- The versions answered, by the router or by the upstream. -/
  answered : List Bool
  /-- The requests of `hold`. -/
  waiting : List StatusRequest
  /-- The requests of `backlog`. -/
  relayed : List StatusRequest
  /-- The time of the last event that has one. -/
  clock : Nat
  deriving DecidableEq, Repr

inductive StatusEvent where
  | push (v1 : Bool) (now wait : Nat)
  | next (ready canRelay : Bool)
  | replyArrived
  | linkEnded (now wait : Nat)
  deriving DecidableEq, Repr

namespace StatusRun

def start : StatusRun where
  flow := .default
  accepted := []
  answered := []
  waiting := []
  relayed := []
  clock := 0

def step (s : StatusRun) : StatusEvent → StatusRun
  | .push v1 now wait =>
      match s.flow.push v1 now wait with
      | none => { s with clock := now }
      | some flow =>
          { s with
            flow
            accepted := s.accepted ++ [v1]
            waiting := s.waiting ++ [⟨v1, now, wait, false⟩]
            clock := now }
  | .next ready canRelay =>
      let out := s.flow.next ready canRelay
      match out.2 with
      | none => { s with flow := out.1 }
      | some (.relay _) =>
          { s with
            flow := out.1
            waiting := s.waiting.tail
            relayed := s.relayed ++ s.waiting.head?.toList }
      | some (.reply v1) =>
          { s with flow := out.1, answered := s.answered ++ [v1], waiting := s.waiting.tail }
  | .replyArrived =>
      match s.flow.replyArrived with
      | none => s
      | some (flow, v1) =>
          { s with flow, answered := s.answered ++ [v1], relayed := s.relayed.tail }
  | .linkEnded now wait =>
      { s with
        flow := s.flow.linkEnded now wait
        waiting := s.relayed.map (fun r => { r with returned := true }) ++ s.waiting
        relayed := []
        clock := now }

end StatusRun

def statusMachine : Machine StatusRun StatusEvent where
  init s := s = .start
  step s e := some (s.step e)

/-- The clock does not go back, and every wait is the same. -/
def StatusEvent.Timely (wait : Nat) (s : StatusRun) : StatusEvent → Prop
  | .push _ now wait' | .linkEnded now wait' => s.clock ≤ now ∧ wait' = wait
  | .next _ _ | .replyArrived => True

/-! ## Invariants -/

namespace StatusRun

variable {s : StatusRun} {wait : Nat}

/-- Every accepted request is answered, relayed or waiting, in this order. -/
structure Inv (s : StatusRun) : Prop where
  order : s.answered ++ s.flow.backlog ++ s.flow.hold = s.accepted
  waiting : s.waiting.map StatusRequest.v1 = s.flow.hold
  relayed : s.relayed.map StatusRequest.v1 = s.flow.backlog
  bound : s.flow.hold.length + s.flow.backlog.length ≤ maxQueuedStatus
  deadline : s.flow.deadline.isSome = true ↔ s.flow.hold ≠ []

theorem Inv.start : Inv .start := ⟨rfl, rfl, rfl, by decide, by decide⟩

theorem Inv.push (inv : s.Inv) (v1 : Bool) (now wait : Nat) : (s.step (.push v1 now wait)).Inv := by
  simp only [step]
  split
  · exact { inv with }
  · rename_i flow accepted
    obtain ⟨room, rfl⟩ := StatusFlow.push_eq_some accepted
    refine ⟨?_, ?_, inv.relayed, ?_, by simp⟩
    · simp [← inv.order]
    · simp [inv.waiting]
    · simp only [List.length_append, List.length_singleton]
      omega

theorem Inv.next (inv : s.Inv) (ready canRelay : Bool) : (s.step (.next ready canRelay)).Inv := by
  have bound := inv.bound
  simp only [step]
  rcases s.flow.next_cases ready canRelay with
    ⟨empty, same⟩ | ⟨-, same⟩ | ⟨v1, hold, held, same | ⟨none, same⟩⟩ <;> rw [same]
  · exact ⟨inv.order, inv.waiting, inv.relayed, inv.bound, by simp [empty]⟩
  · exact { inv with }
  · obtain ⟨r, rest, split, rfl, others⟩ := List.map_eq_cons_iff.mp (inv.waiting.trans held)
    constructor
    · simp [← inv.order, held]
    · simp [split, others]
    · simp [split, inv.relayed]
    · simp only [StatusFlow.settleDeadline_hold, StatusFlow.settleDeadline_backlog,
        List.length_append, List.length_singleton]
      simp only [held, List.length_cons] at bound
      omega
    · simp only [StatusFlow.settleDeadline_hold]
      apply StatusFlow.settleDeadline_isSome
      exact inv.deadline.mpr (by simp [held])
  · obtain ⟨r, rest, split, rfl, others⟩ := List.map_eq_cons_iff.mp (inv.waiting.trans held)
    constructor
    · simp [← inv.order, held, none]
    · simp [split, others]
    · simp [inv.relayed]
    · simp only [StatusFlow.settleDeadline_hold, StatusFlow.settleDeadline_backlog]
      simp only [held, List.length_cons] at bound
      omega
    · simp only [StatusFlow.settleDeadline_hold]
      apply StatusFlow.settleDeadline_isSome
      exact inv.deadline.mpr (by simp [held])

theorem Inv.replyArrived (inv : s.Inv) : (s.step .replyArrived).Inv := by
  have bound := inv.bound
  cases sent : s.flow.backlog with
  | nil => simpa [step, StatusFlow.replyArrived, sent] using inv
  | cons v1 backlog =>
      obtain ⟨r, rest, split, rfl, same⟩ := List.map_eq_cons_iff.mp (inv.relayed.trans sent)
      simp only [step, StatusFlow.replyArrived, sent]
      constructor
      · simp [← inv.order, sent]
      · exact inv.waiting
      · simp [split, same]
      · simp only [sent, List.length_cons] at bound
        simp only
        omega
      · exact inv.deadline

theorem Inv.linkEnded (inv : s.Inv) (now wait : Nat) : (s.step (.linkEnded now wait)).Inv := by
  have bound := inv.bound
  simp only [step, StatusFlow.linkEnded]
  constructor
  · simp [← inv.order]
  · simp [Function.comp_def, inv.waiting, inv.relayed]
  · rfl
  · simp only [List.length_append, List.length_nil]
    omega
  · have none : s.flow.hold = [] → s.flow.deadline = none := by
      intro empty
      simpa [empty] using inv.deadline
    by_cases empty : s.flow.backlog ++ s.flow.hold = []
    · simp [empty, none (List.append_eq_nil_iff.mp empty).2]
    · simp [empty]

theorem Inv.step (inv : s.Inv) (e : StatusEvent) : (s.step e).Inv := by
  cases e with
  | push v1 now wait => exact inv.push v1 now wait
  | next ready canRelay => exact inv.next ready canRelay
  | replyArrived => exact inv.replyArrived
  | linkEnded now wait => exact inv.linkEnded now wait

theorem Inv.of_reachable {allowed : StatusRun → StatusEvent → Prop}
    (reachable : Reachable statusMachine allowed s) : s.Inv := by
  refine reachable.invariant ?_ ?_
  · rintro _ rfl
    exact .start
  · rintro s e _ - inv - ⟨⟩
    exact inv.step e

/-- The deadline is that of the oldest request that waits. -/
structure OnTime (wait : Nat) (s : StatusRun) : Prop where
  soon : ∀ d ∈ s.flow.deadline, d ≤ s.clock + wait
  waiting : ∀ r ∈ s.waiting, r.returned = false → ∀ d ∈ s.flow.deadline, d ≤ r.arrival + r.wait

/-- A step that sets no deadline and adds no request. -/
theorem OnTime.mono {s s' : StatusRun} (onTime : s.OnTime wait)
    (clock : s.clock ≤ s'.clock) (deadline : ∀ d ∈ s'.flow.deadline, d ∈ s.flow.deadline)
    (waiting : ∀ r ∈ s'.waiting, r.returned = false → r ∈ s.waiting) : s'.OnTime wait where
  soon d isDeadline := (onTime.soon d (deadline d isDeadline)).trans (Nat.add_le_add_right clock _)
  waiting r member here d isDeadline :=
    onTime.waiting r (waiting r member here) here d (deadline d isDeadline)

/-- A request that waits keeps a deadline, so a new one is only set for the first. -/
theorem Inv.deadline_of_waiting (inv : s.Inv) {r : StatusRequest}
    (member : r ∈ s.waiting) : ∃ d, s.flow.deadline = some d := by
  refine Option.isSome_iff_exists.mp (inv.deadline.mpr ?_)
  rw [← inv.waiting]
  exact List.ne_nil_of_mem (List.mem_map_of_mem member)

theorem OnTime.push (onTime : s.OnTime wait) (inv : s.Inv) (v1 : Bool)
    {now : Nat} (later : s.clock ≤ now) : (s.step (.push v1 now wait)).OnTime wait := by
  simp only [step]
  split
  · exact onTime.mono later (fun d isDeadline => isDeadline) (fun r member _ => member)
  · rename_i flow accepted
    obtain ⟨-, rfl⟩ := StatusFlow.push_eq_some accepted
    have soon : s.flow.deadline.getD (now + wait) ≤ now + wait := by
      cases deadline : s.flow.deadline with
      | none => exact le_rfl
      | some d => exact (onTime.soon d deadline).trans (Nat.add_le_add_right later _)
    constructor
    · rintro _ ⟨⟩
      exact soon
    · intro r member here
      rintro _ ⟨⟩
      rcases List.mem_append.mp member with old | new
      · obtain ⟨d, deadline⟩ := inv.deadline_of_waiting old
        simp only [deadline, Option.getD_some]
        exact onTime.waiting r old here d deadline
      · rw [List.mem_singleton.mp new]
        exact soon

theorem OnTime.next (onTime : s.OnTime wait) (ready canRelay : Bool) :
    (s.step (.next ready canRelay)).OnTime wait := by
  have settled : ∀ {flow : StatusFlow}, flow.deadline = s.flow.deadline →
      ∀ d ∈ flow.settleDeadline.deadline, d ∈ s.flow.deadline := by
    intro flow same d isDeadline
    rw [StatusFlow.settleDeadline_deadline] at isDeadline
    split at isDeadline
    · cases isDeadline
    · exact same ▸ isDeadline
  simp only [step]
  rcases s.flow.next_cases ready canRelay with
    ⟨-, same⟩ | ⟨-, same⟩ | ⟨v1, hold, -, same | ⟨-, same⟩⟩ <;> rw [same]
  · exact onTime.mono le_rfl nofun (fun r member _ => member)
  · exact onTime.mono le_rfl (fun d isDeadline => isDeadline) (fun r member _ => member)
  · exact onTime.mono le_rfl (settled rfl) (fun r member _ => List.mem_of_mem_tail member)
  · exact onTime.mono le_rfl (settled rfl) (fun r member _ => List.mem_of_mem_tail member)

theorem OnTime.replyArrived (onTime : s.OnTime wait) : (s.step .replyArrived).OnTime wait := by
  cases sent : s.flow.backlog with
  | nil => simpa [step, StatusFlow.replyArrived, sent] using onTime
  | cons v1 backlog =>
      simp only [step, StatusFlow.replyArrived, sent]
      exact onTime.mono le_rfl (fun d isDeadline => isDeadline) (fun r member _ => member)

theorem OnTime.linkEnded (onTime : s.OnTime wait) (inv : s.Inv)
    {now : Nat} (later : s.clock ≤ now) : (s.step (.linkEnded now wait)).OnTime wait := by
  cases deadline : s.flow.deadline with
  | some d =>
      have same : (s.flow.linkEnded now wait).deadline = some d := by
        simp [StatusFlow.linkEnded, deadline]
      refine onTime.mono later (fun d' isDeadline => ?_) ?_
      · simpa [step, same, deadline] using isDeadline
      · intro r member here
        rcases List.mem_append.mp member with back | old
        · obtain ⟨r', -, rfl⟩ := List.mem_map.mp back
          cases here
        · exact old
  | none =>
      constructor
      · intro d isDeadline
        have new : d = now + wait := by
          simp only [step, StatusFlow.linkEnded, deadline, Option.getD_none] at isDeadline
          split at isDeadline
          · cases isDeadline
          · exact (Option.some.inj isDeadline).symm
        exact new.le
      · intro r member here
        rcases List.mem_append.mp member with back | old
        · obtain ⟨r', -, rfl⟩ := List.mem_map.mp back
          cases here
        · obtain ⟨d, set⟩ := inv.deadline_of_waiting old
          simp [deadline] at set

theorem OnTime.step (onTime : s.OnTime wait) (inv : s.Inv)
    {e : StatusEvent} (timely : e.Timely wait s) : (s.step e).OnTime wait := by
  cases e with
  | push v1 now wait' =>
      obtain ⟨later, rfl⟩ := timely
      exact onTime.push inv v1 later
  | next ready canRelay => exact onTime.next ready canRelay
  | replyArrived => exact onTime.replyArrived
  | linkEnded now wait' =>
      obtain ⟨later, rfl⟩ := timely
      exact onTime.linkEnded inv later

theorem OnTime.of_reachable
    (reachable : Reachable statusMachine (fun s e => e.Timely wait s) s) : s.OnTime wait := by
  refine reachable.invariant ?_ ?_
  · rintro _ rfl
    exact ⟨nofun, nofun⟩
  · rintro s e _ before onTime timely ⟨⟩
    exact onTime.step (.of_reachable before) timely

end StatusRun

/-- Status requests are answered once and in order, however they move between the
queue and the links.  At most `maxQueuedStatus` are waiting or relayed, and a push is
refused only then; the router answers none itself while one is relayed; a deadline is
set exactly while one waits.  When all waits are equal and time does not go back, the
deadline is not later than the arrival of a waiting request plus its wait, unless the
request came back from a link. -/
theorem status_requests_in_order :
    (∀ s, Reachable statusMachine (fun _ _ => True) s →
      s.answered ++ s.flow.backlog ++ s.flow.hold = s.accepted ∧
      s.flow.hold.length + s.flow.backlog.length ≤ 1024 ∧
      (∀ v1 now wait, s.flow.push v1 now wait = none →
        s.flow.hold.length + s.flow.backlog.length = 1024) ∧
      (∀ ready canRelay v1, (s.flow.next ready canRelay).2 = some (.reply v1) →
        s.flow.backlog = []) ∧
      (s.flow.deadline.isSome = true ↔ s.flow.hold ≠ [])) ∧
    ∀ wait s, Reachable statusMachine (fun s e => e.Timely wait s) s →
      s.waiting.map StatusRequest.v1 = s.flow.hold ∧
      ∀ r ∈ s.waiting, r.returned = false → ∀ d ∈ s.flow.deadline, d ≤ r.arrival + r.wait := by
  constructor
  · intro s reachable
    have inv := StatusRun.Inv.of_reachable reachable
    refine ⟨inv.order, inv.bound, ?_, ?_, inv.deadline⟩
    · intro v1 now wait refused
      exact le_antisymm inv.bound (StatusFlow.push_eq_none refused)
    · intro ready canRelay v1 replies
      rcases s.flow.next_cases ready canRelay with
        ⟨-, same⟩ | ⟨-, same⟩ | ⟨v1', hold, -, same | ⟨none, -⟩⟩
      · simp [same] at replies
      · simp [same] at replies
      · simp [same] at replies
      · exact none
  · intro wait s reachable
    exact ⟨(StatusRun.Inv.of_reachable reachable).waiting,
      (StatusRun.OnTime.of_reachable reachable).waiting⟩

end FleetRouter.Session
