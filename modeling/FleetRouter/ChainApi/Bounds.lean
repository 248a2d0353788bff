import FleetRouter.ChainApi.Attempts
import FleetRouter.ChainApi.Block
import FleetRouter.ChainApi.Slots

/-!
# Bounds of the loop of attempts

The slots of the APIs fill up and free while a request runs.  Whatever they do, the
loop makes one attempt for each entry of its order at most, takes the first free
candidate at the moment of choice and ends.  When it breaks off before every candidate
was tried, the time or the races for a slot ran out, or an exec may have been written.
-/

namespace FleetRouter.ChainApi

open Ship Session Fleet Transition

/-! ## Orders of attempts -/

/-- Attempt order of `get_info`: the primary, then the other live APIs by head. -/
def infoOrder (apis : List ApiView) (primary : Option Nat) (maxAttempts : Nat) : List Nat :=
  let rest := sortBy
    (fun a b => (compare b.head a.head).then
      ((compare a.priority b.priority).then (compare a.index b.index)))
    (apis.filter fun a => a.isLive && a.usable getInfo && some a.index ≠ primary)
  let first := primary.filter fun p => apis.any fun a => a.index = p && a.isLive && a.usable getInfo
  (first.toList ++ rest.map ApiView.index).take (max maxAttempts 1)

/-- An order of attempts on APIs of the directory. -/
structure AttemptOrder (dir : ApiDirectory) where
  entries : List Nat
  known : ∀ i ∈ entries, ∃ a ∈ dir.apis, a.index = i

/-- The orders that requests give the loop. -/
inductive Issued (dir : ApiDirectory) (maxAttempts : Nat) : List Nat → Prop where
  | state (q : StateQuery) (limit : q.maxAttempts = maxAttempts) :
      Issued dir maxAttempts (stateOrder q dir.apis)
  | info (primary : Option Nat) : Issued dir maxAttempts (infoOrder dir.apis primary maxAttempts)
  | block (q : BlockQuery) (limit : q.maxAttempts = maxAttempts) {n : Fin (2 ^ 32)}
      {region : Region} {order : List Nat} {claimed : Bool} {idHolders : List Nat}
      (plan : planBlock q dir.apis = .routed n region order claimed idHolders) :
      Issued dir maxAttempts order

section Issued

variable {dir : ApiDirectory} {maxAttempts : Nat} {order : List Nat}

theorem stateOrder_length_le (q : StateQuery) (apis : List ApiView) :
    (stateOrder q apis).length ≤ max q.maxAttempts 1 := by
  simp only [stateOrder, List.length_map]
  exact List.length_take_le _ _

theorem mem_infoOrder {apis : List ApiView} {primary : Option Nat} {i : Nat}
    (member : i ∈ infoOrder apis primary maxAttempts) : ∃ a ∈ apis, a.index = i := by
  rcases List.mem_append.mp (List.mem_of_mem_take member) with first | rest
  · have usable := (Option.filter_eq_some_iff.mp (Option.mem_toList.mp first)).2
    obtain ⟨a, isApi, usable⟩ := List.any_eq_true.mp usable
    simp only [Bool.and_eq_true, decide_eq_true_eq] at usable
    exact ⟨a, isApi, usable.1.1⟩
  · obtain ⟨a, isRest, rfl⟩ := List.mem_map.mp rest
    exact ⟨a, (List.mem_filter.mp (mem_sortBy.mp isRest)).1, rfl⟩

theorem mem_reversibleOrder {n : Fin (2 ^ 32)} {path : String} {apis : List ApiView} {cap i : Nat}
    (member : i ∈ reversibleOrder n path apis cap) :
    ∃ a ∈ apis, a.index = i ∧ a.role = .live ∧ a.usable path = true := by
  obtain ⟨a, taken, rfl⟩ := List.mem_map.mp member
  have candidate : a ∈ apis.filter fun a => a.isLive && a.usable path := by
    rcases List.mem_append.mp (List.mem_of_mem_take taken) with ahead | behind
    · exact (List.mem_filter.mp (mem_sortBy.mp ahead)).1
    · exact (List.mem_filter.mp (mem_sortBy.mp behind)).1
  obtain ⟨isApi, usable⟩ := List.mem_filter.mp candidate
  simp only [ApiView.isLive, Bool.and_eq_true, decide_eq_true_eq] at usable
  exact ⟨a, isApi, rfl, usable⟩

theorem irreversibleOrder_length_le (n : Fin (2 ^ 32)) (q : BlockQuery) (claimed : Bool)
    (apis : List ApiView) (cap : Nat) :
    (irreversibleOrder n q claimed apis cap).length ≤ cap := by
  have first := keepLive_replaces (tiers_sound n q claimed apis) q cap
    (((tiers n q claimed apis).concat q).take cap)
  rw [irreversibleOrder, List.length_map, irreversibleViews,
    (keepHolder_replaces n q.byId (tiers n q claimed apis) q cap _).length, first.length]
  exact List.length_take_le _ _

/-- A routed block request is tried in one of the two orders. -/
theorem planBlock_order {q : BlockQuery} {apis : List ApiView} {n : Fin (2 ^ 32)}
    {region : Region} {order : List Nat} {claimed : Bool} {idHolders : List Nat}
    (plan : planBlock q apis = .routed n region order claimed idHolders) :
    order = reversibleOrder n q.endpoint.path apis (max q.maxAttempts 1) ∨
      order = irreversibleOrder n q claimed apis (max q.maxAttempts 1) := by
  cases region with
  | irreversible => exact .inr (planBlock_irreversible plan).1
  | reversible =>
      unfold planBlock at plan
      cases hint : q.hint with
      | none => simp [hint] at plan
      | some hint' =>
          simp only [hint, BlockPlan.routed.injEq] at plan
          obtain ⟨rfl, isRegion, rfl, -⟩ := plan
          simp [isRegion]

theorem Issued.known (issued : Issued dir maxAttempts order) :
    ∀ i ∈ order, ∃ a ∈ dir.apis, a.index = i := by
  intro i member
  cases issued with
  | state q limit =>
      obtain ⟨a, isApi, same, -⟩ := stateOrder_live member
      exact ⟨a, isApi, same⟩
  | info primary => exact mem_infoOrder member
  | block q limit plan =>
      rcases planBlock_order plan with rfl | rfl
      · obtain ⟨a, isApi, same, -⟩ := mem_reversibleOrder member
        exact ⟨a, isApi, same⟩
      · obtain ⟨a, isApi, same, -⟩ := mem_irreversibleOrder member
        exact ⟨a, isApi, same⟩

theorem Issued.length_le (issued : Issued dir maxAttempts order) :
    order.length ≤ max maxAttempts 1 := by
  cases issued with
  | state q limit => exact limit ▸ stateOrder_length_le q dir.apis
  | info primary => exact List.length_take_le _ _
  | block q limit plan =>
      subst limit
      rcases planBlock_order plan with rfl | rfl
      · rw [reversibleOrder, List.length_map]
        exact List.length_take_le _ _
      · exact irreversibleOrder_length_le ..

/-- Whatever a request gives the loop is an order of attempts. -/
def AttemptOrder.ofIssued (issued : Issued dir maxAttempts order) : AttemptOrder dir :=
  ⟨order, issued.known⟩

end Issued

/-! ## The choice of a candidate -/

/-- The first untried candidate that is not full, else a wait for the first untried. -/
theorem nextAttempt_eq (order tried : List Nat) (full : Nat → Bool) :
    nextAttempt order tried full =
      match order.find? fun i => !tried.contains i && !full i with
      | some i => .attempt i
      | none =>
          match (order.filter fun i => !tried.contains i).head? with
          | some i => .wait i
          | none => .exhausted := by
  have found : (order.find? fun i => !tried.contains i && !full i) =
      (order.filter fun i => !tried.contains i).find? fun i => !full i := by
    rw [List.find?_filter]
    simp
  rw [found, nextAttempt]
  cases order.filter fun i => !tried.contains i with
  | nil => rfl
  | cons first rest =>
      cases isFull : full first with
      | false => simp [isFull]
      | true =>
          simp only [isFull, Bool.not_true, List.find?_cons, List.head?_cons]
          cases rest.find? fun i => !full i <;> rfl

/-- No untried candidate before the chosen one was free. -/
theorem nextAttempt_first {order tried : List Nat} {full : Nat → Bool} {i : Nat}
    (next : nextAttempt order tried full = .attempt i ∨ nextAttempt order tried full = .wait i)
    {before after : List Nat} (split : order = before ++ i :: after) (first : i ∉ before) :
    ∀ j ∈ before, j ∉ tried → full j = true := by
  have unfree : (before.find? fun j => !tried.contains j && !full j) = none := by
    rw [nextAttempt_eq, split, List.find?_append] at next
    cases found : before.find? fun j => !tried.contains j && !full j with
    | none => rfl
    | some j =>
        rw [found] at next
        simp only [Option.some_or, NextAttempt.attempt.injEq, reduceCtorEq, or_false] at next
        exact absurd (next ▸ List.mem_of_find?_eq_some found) first
  intro j member untried
  have tried := List.find?_eq_none.mp unfree j member
  simpa [untried] using tried

/-- Every candidate was tried once none is left. -/
theorem nextAttempt_exhausted {order tried : List Nat} {full : Nat → Bool}
    (next : nextAttempt order tried full = .exhausted) : ∀ i ∈ order, i ∈ tried := by
  have none : (order.filter fun i => !tried.contains i) = [] := by
    unfold nextAttempt at next
    repeat' split at next
    · assumption
    all_goals cases next
  intro i listed
  have isTried := List.filter_eq_nil_iff.mp none i listed
  simpa using isTried

/-! ## Slots -/

/-- The requests in flight on an API and how many it may have. -/
structure Slot where
  inFlight : Nat
  cap : Nat
  deriving DecidableEq, Repr

namespace Slot

def isFull (s : Slot) : Bool := s.cap ≤ s.inFlight

/-- A free slot, if there is one. -/
def tryAcquire (s : Slot) : Option Slot :=
  if s.inFlight < s.cap then some { s with inFlight := s.inFlight + 1 } else none

/-- A slot, waiting for one to free up; the list is what the waiter sees each time it
looks before its time is out. -/
def acquireUntil (seen : List Slot) : Option Slot := seen.findSome? tryAcquire

end Slot

namespace SlotRun

variable {s : SlotRun} {i : Nat} {ticket : Option Nat}

/-- What a look at the counters sees. -/
def slot (s : SlotRun) : Slot := ⟨s.inFlight, s.cap⟩

/-- The three actions of a call that asks for a slot, while no other call acts. -/
def look (s : SlotRun) (i : Nat) : Option SlotRun :=
  (s.step (.advance i)).bind fun s => (s.step (.advance i)).bind fun s => s.step (.advance i)

theorem step_moveTo (present : i < s.calls.length) (point : Point) :
    (s.moveTo i point).step (.advance i) = (s.moveTo i point).advance i point := by
  have isPoint : (s.moveTo i point).calls[i]? = some point :=
    List.getElem?_set_self present
  rw [SlotRun.step, isPoint, Option.bind_some]

@[simp] theorem moveTo_moveTo (point point' : Point) :
    (s.moveTo i point).moveTo i point' = s.moveTo i point' := by
  simp [moveTo]

/-- A call that is not disturbed takes the slot it sees, or is refused. -/
theorem look_eq (starts : s.calls[i]? = some (.start ticket)) :
    s.look i = some (s.slot.tryAcquire.elim (s.moveTo i (refused ticket))
      fun taken => { s.moveTo i .holding with inFlight := taken.inFlight }) := by
  have present : i < s.calls.length := (List.getElem?_eq_some_iff.mp starts).1
  have loads : s.step (.advance i) = some (s.moveTo i (.capLoaded ticket s.cap)) := by
    rw [SlotRun.step, starts]
    rfl
  have reads : (s.moveTo i (.capLoaded ticket s.cap)).step (.advance i) =
      some (s.moveTo i (.updating ticket s.cap s.inFlight)) := by
    rw [step_moveTo present, SlotRun.advance, moveTo_moveTo]
    rfl
  rw [look, loads, Option.bind_some, reads, Option.bind_some, step_moveTo present,
    SlotRun.advance, Slot.tryAcquire]
  change (if s.inFlight < s.cap then _ else _) = some ((if s.inFlight < s.cap then _ else _ :
    Option Slot).elim _ _)
  split
  · rw [moveTo_moveTo]
    exact if_pos rfl
  · rw [moveTo_moveTo]
    rfl

/-- A waiting call that looks, is refused and looks again when it is notified; the slots are those
it sees, and others act between its looks. -/
inductive Waits (i : Nat) : SlotRun → List Slot → Bool → Prop
  | looked {s s' : SlotRun} {ticket : Nat} (starts : s.calls[i]? = some (.start (some ticket)))
      (looks : s.look i = some s') : Waits i s [s.slot] (s'.calls[i]? = some .holding)
  | again {s s' later : SlotRun} {ticket : Nat} {seen : List Slot} {got : Bool}
      (starts : s.calls[i]? = some (.start (some ticket))) (looks : s.look i = some s')
      (refused : s'.calls[i]? ≠ some .holding)
      (others : Reachable ((slotMachine s'.cap).startingAt s') (fun _ _ => True) later)
      (waits : Waits i later seen got) : Waits i s (s.slot :: seen) got

/-- After a look a call holds a slot exactly when there was one. -/
theorem holding_look {s' : SlotRun} (starts : s.calls[i]? = some (.start ticket))
    (looks : s.look i = some s') : s'.calls[i]? = some .holding ↔ s.slot.tryAcquire.isSome := by
  have present : i < s.calls.length := (List.getElem?_eq_some_iff.mp starts).1
  rw [look_eq starts, Option.some.injEq] at looks
  subst looks
  cases s.slot.tryAcquire with
  | none =>
      have isRefused : (s.moveTo i (refused ticket)).calls[i]? = some (refused ticket) :=
        List.getElem?_set_self present
      rw [Option.elim_none, isRefused]
      cases ticket <;> simp [refused]
  | some taken => exact iff_of_true (List.getElem?_set_self present) rfl

/-- Waiting for a slot gets one exactly when one of the looks finds one. -/
theorem Waits.acquireUntil {seen : List Slot} {got : Bool} (waits : Waits i s seen got) :
    got = (Slot.acquireUntil seen).isSome := by
  induction waits with
  | @looked s s' ticket starts looks =>
      have holds := holding_look starts looks
      rw [Slot.acquireUntil, List.findSome?_cons, List.findSome?_nil, Bool.eq_iff_iff,
        decide_eq_true_eq, holds]
      cases s.slot.tryAcquire <;> rfl
  | @again s s' later ticket seen got starts looks refused others waits ih =>
      have missed : s.slot.tryAcquire = none := by
        rw [Ne, holding_look starts looks, Option.not_isSome_iff_eq_none] at refused
        exact refused
      rw [ih, Slot.acquireUntil, Slot.acquireUntil, List.findSome?_cons, missed]

end SlotRun

/-- What happens around the loop in one iteration. -/
structure Moment where
  expired : Bool
  /-- The slots when the candidate is chosen. -/
  slots : Nat → Slot
  /-- The slot of the chosen candidate when it is taken. -/
  taken : Slot
  /-- What a waiter sees of the slot it waits for. -/
  seen : List Slot
  built : Bool
  cutShort : Bool
  attempt : Attempt
  peek : Peek

namespace Attempts

variable (cx : Attempts)

/-- What a moment means for the loop: a slot is taken at once or waited for. -/
def turnAt (st : LoopState) (m : Moment) : Turn where
  expired := m.expired
  full i := (m.slots i).isFull
  acquired :=
    match cx.choice st fun i => (m.slots i).isFull with
    | .wait _ => (Slot.acquireUntil m.seen).isSome
    | .attempt _ | .exhausted => m.taken.tryAcquire.isSome
  built := m.built
  cutShort := m.cutShort
  attempt := m.attempt
  peek := m.peek

/-- The first `n` iterations while the slots change as they do. -/
def runAt (moments : Nat → Moment) : Nat → Run
  | 0 => ⟨.start, none⟩
  | n + 1 => cx.advance (runAt moments n) (cx.turnAt (runAt moments n).st (moments n))

theorem runAt_eq (moments : Nat → Moment) (n : Nat) :
    cx.runAt moments n = cx.run (fun k => cx.turnAt (cx.runAt moments k).st (moments k)) n := by
  induction n with
  | zero => rfl
  | succ n ih => rw [runAt, run, ← ih]

end Attempts

/-! ## Why the loop breaks off -/

/-- Why an iteration from `st` to `st'` breaks the loop off before every candidate was
tried. -/
inductive CutOff (cx : Attempts) (st : LoopState) (t : Turn) (st' : LoopState) : Prop where
  /-- The deadline had passed. -/
  | expired (passed : t.expired = true) (same : st' = st)
  /-- The deadline passed during an attempt that it left less than its own timeout. -/
  | timedOut (i : Nat) (sent : st'.sent = st.sent ++ [⟨i, t.attempt⟩]) (cut : t.cutShort = true)
      (time : t.attempt = .connectTimeout ∨ t.attempt = .timeout)
  /-- The deadline passed while a body was read. -/
  | unread (i : Nat) (r : Response) (sent : st'.sent = st.sent ++ [⟨i, .response r⟩])
      (passed : t.peek = .deadline)
  /-- The wait for a slot ran out. -/
  | waited (i : Nat) (wait : cx.choice st t.full = .wait i) (missed : t.acquired = false)
      (same : st' = st)
  /-- The last race for a slot was lost. -/
  | raced (i : Nat) (race : cx.choice st t.full = .attempt i) (lost : t.acquired = false)
      (last : slotRaces ≤ st.races) (same : st' = st)
  /-- An exec was lost after it may have been written. -/
  | written (i : Nat) (exec : cx.policy = .exec) (sent : st'.sent = st.sent ++ [⟨i, t.attempt⟩])
      (may : t.attempt.mayBeWritten = true)

namespace Attempts

variable {cx : Attempts} {st st' : LoopState} {t : Turn}

/-- A response breaks the loop off only when its body could not be read in time. -/
theorem onResponse_break {slot : ApiView} {r : Response} {peek : Peek}
    (stop : cx.onResponse st slot r peek = .break st') : peek = .deadline ∧ st' = st := by
  simp only [onResponse] at stop
  repeat' split at stop
  all_goals first
    | cases stop; exact ⟨rfl, rfl⟩
    | simp at stop

theorem send_break {slot : ApiView} (stop : cx.send st slot t = .break st') :
    CutOff cx st t st' := by
  simp only [send] at stop
  split at stop
  · cases stop
  unfold onAttempt at stop
  split at stop
  · rename_i r answered
    obtain ⟨passed, rfl⟩ := onResponse_break stop
    exact .unread slot.index r (by simp [answered]) passed
  · cases stop
  · split at stop
    · cases stop
      rename_i answered cut
      exact .timedOut slot.index rfl cut (.inl answered)
    · cases stop
  · split at stop
    · cases stop
      rename_i answered exec
      exact .written slot.index exec rfl (by simp [answered, Attempt.mayBeWritten])
    · cases stop
  · split at stop
    · cases stop
      rename_i answered exec
      exact .written slot.index exec rfl (by simp [answered, Attempt.mayBeWritten])
    · split at stop
      · cases stop
        rename_i answered _ cut
        exact .timedOut slot.index rfl cut (.inr answered)
      · cases stop

/-- With APIs of the directory, the loop breaks off when every candidate was tried, or
for one of the reasons above. -/
theorem iterate_break (known : ∀ i ∈ cx.order, (cx.dir.slot i).isSome)
    (stop : cx.iterate st t = .break st') :
    (∀ i ∈ cx.order, i ∈ st'.tried) ∨ CutOff cx st t st' := by
  have iterated := cx.iterate_iterated st t
  rw [stop] at iterated
  cases iterated with
  | expired passed => exact .inr (.expired passed rfl)
  | exhausted next => exact .inl (nextAttempt_exhausted next)
  | lastRace i next lost last => exact .inr (.raced i next lost last rfl)
  | noApi i next missing =>
      have isApi := known i (nextAttempt_untried (.inr next)).1
      simp [missing] at isApi
  | waited i next lost => exact .inr (.waited i next lost rfl)
  | sends slot found next same => exact .inr (send_break same)

/-- What is sent was chosen. -/
theorem iterate_sent {s : Sent} (sent : (cx.iterate st t).st.sent = st.sent ++ [s]) :
    cx.choice st t.full = .attempt s.index ∨ cx.choice st t.full = .wait s.index := by
  have idle : st.sent ≠ st.sent ++ [s] := by simp
  have iterated := cx.iterate_iterated st t
  generalize cx.iterate st t = flow at iterated sent
  cases iterated with
  | sends slot found next same =>
      subst same
      rcases (cx.send_st st slot t).2.2 with unsent | more
      · exact absurd (unsent.symm.trans sent) idle
      · obtain rfl : (⟨slot.index, t.attempt⟩ : Sent) = s := by simpa using more.symm.trans sent
        exact next
  | _ => exact absurd sent idle

/-- An iteration of an unanswered request leaves what the loop leaves. -/
theorem advance_st (cx : Attempts) (run : Run) (t : Turn) :
    (cx.advance run t).st = run.st ∨ (cx.advance run t).st = (cx.iterate run.st t).st := by
  rcases cx.advance_cases run t with
    ⟨-, same⟩ | ⟨-, ⟨st, flow, same⟩ | ⟨st, flow, same⟩ | ⟨answered, st, flow, same⟩⟩
  · exact .inl (by rw [same])
  all_goals exact .inr (by rw [flow, same, Flow.st])

end Attempts

theorem ApiDirectory.slot_isSome {dir : ApiDirectory} {i : Nat}
    (known : ∃ a ∈ dir.apis, a.index = i) : (dir.slot i).isSome := by
  obtain ⟨a, isApi, same⟩ := known
  rw [slot, List.find?_isSome]
  exact ⟨a, isApi, by simpa using same⟩

/-! ## The loop is bounded -/

/-- What holds of every run of the loop. -/
structure Bounded (cx : Attempts) (moments : Nat → Moment) : Prop where
  attempts : ∀ n, (cx.runAt moments n).st.sent.length ≤ cx.order.length
  once : ∀ n, ((cx.runAt moments n).st.sent.map Sent.index).Nodup
  listed : ∀ n, ∀ s ∈ (cx.runAt moments n).st.sent, s.index ∈ cx.order
  /-- The untried candidates before the one of an attempt were full when it was chosen. -/
  firstFree : ∀ n s, (cx.runAt moments (n + 1)).st.sent = (cx.runAt moments n).st.sent ++ [s] →
    ∀ before after, cx.order = before ++ s.index :: after → s.index ∉ before →
      ∀ j ∈ before, j ∉ (cx.runAt moments n).st.tried → ((moments n).slots j).isFull = true
  ends : ∀ n, cx.order.length + 17 ≤ n → (cx.runAt moments n).answer ≠ none
  cutOff : ∀ n st', (cx.runAt moments n).answer = none →
    let t := cx.turnAt (cx.runAt moments n).st (moments n)
    cx.iterate (cx.runAt moments n).st t = .break st' → (∃ i ∈ cx.order, i ∉ st'.tried) →
      CutOff cx (cx.runAt moments n).st t st'

end FleetRouter.ChainApi
