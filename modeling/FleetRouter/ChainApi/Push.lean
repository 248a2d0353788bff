import FleetRouter.ChainApi.Attempts

/-!
# Calls that are written at most once

A push may be applied by the node it reaches, and so may an exec call.  Both move
on to another API only while nothing can have been written; the first attempt that
may have been is the last, and decides what the client gets.
-/

namespace FleetRouter.ChainApi

open Session

/-- State and exec calls: live APIs that list the path. -/
def state (dir : ApiDirectory) (q : StateQuery) (policy : Policy) (maxResponseBytes : Nat)
    (turns : Nat → Turn) (n : Nat) : Run :=
  let order := stateOrder q dir.apis
  if order.isEmpty then ⟨.start, some (.router (.busy .noLiveUpstream) 0)⟩
  else
    Attempts.run { dir, order, policy, exhaustedWhy := .noUpstream, maxResponseBytes } turns n

/-- No target of a push could be reached. -/
def pushFailed (tries : Nat) : Answered :=
  .router (.busy (if tries = 0 then .noLiveUpstream else .noUpstream)) tries

/-- The attempts a push has made. -/
structure PushState where
  tries : Nat
  sent : List Sent
  deriving DecidableEq, Repr

/-- How a target leaves the push: it goes on to the next one or answers. -/
inductive PushFlow where
  | continue (st : PushState)
  | return (answered : Answered) (st : PushState)
  deriving DecidableEq, Repr

/-- One target of a push.  Only a slot that was not got or a connection that was not
made moves on to the next one. -/
def pushOn (dir : ApiDirectory) (st : PushState) (index : Nat) (t : Turn) : PushFlow :=
  if t.expired then .return (pushFailed st.tries) st
  else
    match dir.slot index with
    | none => .continue st
    | some slot =>
        if !t.acquired || !t.built then .continue st
        else
          let st : PushState := ⟨st.tries + 1, st.sent ++ [⟨slot.index, t.attempt⟩]⟩
          match t.attempt with
          | .response r => .return (.relayed r none slot st.tries) st
          | .connect => .continue st
          | .connectTimeout =>
              if t.cutShort then .return (pushFailed st.tries) st else .continue st
          | .lost | .timeout => .return (.router (.busy .lostAfterSend) st.tries) st

/-- A push over its targets, from the given turn on. -/
def pushFrom (dir : ApiDirectory) (turns : Nat → Turn) :
    List Nat → Nat → PushState → Answered × List Sent
  | [], _, st => (pushFailed st.tries, st.sent)
  | index :: targets, turn, st =>
      match pushOn dir st index (turns turn) with
      | .continue st => pushFrom dir turns targets (turn + 1) st
      | .return answered st => (answered, st.sent)

/-- A push: written once, to the first target that can be reached. -/
def push (dir : ApiDirectory) (path : String) (pushServers : List Nat) (current : Option Nat)
    (turns : Nat → Turn) : Answered × List Sent :=
  pushFrom dir turns (pushTargets dir.apis path pushServers (infoPrimary dir.apis current)) 0
    ⟨0, []⟩

/-! ## Written once -/

/-- A response is relayed unless it declares a length above the limit. -/
structure Response.RelayedAs (r : Response) (maxBytes : Option Nat) (reply : Option Reply) :
    Prop where
  refused : ∀ length max, r.length = some length → maxBytes = some max → max < length →
    reply = some (.router (.answerTooLarge max))
  streamed : (∀ length max, r.length = some length → maxBytes = some max → length ≤ max) →
    reply = some (.streamed r maxBytes)

theorem relayedAs_relayed (r : Response) (maxBytes : Option Nat) (slot : ApiView) (tries : Nat) :
    r.RelayedAs maxBytes (some (Answered.relayed r maxBytes slot tries).reply) := by
  constructor
  · intro length max isLength isMax longer
    simp [Answered.relayed, isLength, isMax, longer, Answered.router]
  · intro within
    unfold Answered.relayed
    split
    · rename_i length max isLength
      rw [if_neg (not_lt.mpr (within length max isLength rfl))]
      rfl
    · rfl

/-- Only the last attempt may have been written, and its response or its loss is
what the client gets. -/
structure WrittenOnce (sent : List Sent) (maxBytes : Option Nat) (reply : Option Reply) :
    Prop where
  before : ∀ s ∈ sent.dropLast, s.attempt.mayBeWritten = false
  response : ∀ s ∈ sent.getLast?, ∀ r, s.attempt = .response r → r.RelayedAs maxBytes reply
  lost : ∀ s ∈ sent.getLast?, s.attempt = .lost ∨ s.attempt = .timeout →
    reply = some (.router (.busy .lostAfterSend))

/-- Nothing has been written so far. -/
def Unwritten (sent : List Sent) : Prop := ∀ s ∈ sent, s.attempt.mayBeWritten = false

theorem Unwritten.append {sent : List Sent} (unwritten : Unwritten sent) {s : Sent}
    (surely : s.attempt.mayBeWritten = false) : Unwritten (sent ++ [s]) := by
  intro other member
  rcases List.mem_append.mp member with before | last
  · exact unwritten other before
  · rw [List.mem_singleton.mp last]
    exact surely

theorem Unwritten.writtenOnce {sent : List Sent} (unwritten : Unwritten sent)
    (maxBytes : Option Nat) (reply : Option Reply) : WrittenOnce sent maxBytes reply where
  before s member := unwritten s (List.mem_of_mem_dropLast member)
  response s last r isResponse := by
    have surely := unwritten s (List.mem_of_getLast? last)
    simp [isResponse, Attempt.mayBeWritten] at surely
  lost s last isLost := by
    have surely := unwritten s (List.mem_of_getLast? last)
    rcases isLost with same | same <;> simp [same, Attempt.mayBeWritten] at surely

/-- After attempts that were not written, one more decides the reply. -/
theorem Unwritten.writtenOnce_append {sent : List Sent} (unwritten : Unwritten sent) {s : Sent}
    {maxBytes : Option Nat} {reply : Option Reply}
    (response : ∀ r, s.attempt = .response r → r.RelayedAs maxBytes reply)
    (lost : s.attempt = .lost ∨ s.attempt = .timeout →
      reply = some (.router (.busy .lostAfterSend))) :
    WrittenOnce (sent ++ [s]) maxBytes reply where
  before := by simpa [Unwritten] using unwritten
  response := by simpa using response
  lost := by simpa using lost

/-! ## Exec calls -/

namespace Attempts

variable {cx : Attempts} {st : LoopState}

/-- What an exec call keeps until it is answered. -/
structure Pending (st : LoopState) : Prop where
  unwritten : Unwritten st.sent
  notLost : st.lostAfterSend = false

/-- The loop of an exec call goes on only while nothing was written. -/
def OnceFlow (cx : Attempts) (flow : Flow) : Prop :=
  match flow with
  | .continue st => Pending st
  | .break st =>
      WrittenOnce st.sent (maxBytes cx.maxResponseBytes) (some (cx.conclude st).reply)
  | .return answered st =>
      WrittenOnce st.sent (maxBytes cx.maxResponseBytes) (some answered.reply)

theorem send_once (exec : cx.policy = .exec) (pending : Pending st) (slot : ApiView) (t : Turn) :
    cx.OnceFlow (cx.send st slot t) := by
  unfold send
  split
  · exact ⟨pending.unwritten, pending.notLost⟩
  unfold onAttempt
  cases attempt : t.attempt with
  | response r =>
      have returns : cx.onResponse
          { st with
            tried := st.tried ++ [slot.index]
            sent := st.sent ++ [⟨slot.index, .response r⟩] } slot r t.peek =
          .return (.relayed r (maxBytes cx.maxResponseBytes) slot (st.tried.length + 1))
            { st with
              tried := st.tried ++ [slot.index]
              sent := st.sent ++ [⟨slot.index, .response r⟩] } := by
        simp [onResponse, exec]
      simp only [returns, OnceFlow]
      refine pending.unwritten.writtenOnce_append ?_ (by simp)
      rintro _ ⟨⟩
      exact relayedAs_relayed ..
  | connect => exact ⟨pending.unwritten.append rfl, pending.notLost⟩
  | connectTimeout =>
      have unwritten := pending.unwritten.append
        (s := ⟨slot.index, Attempt.connectTimeout⟩) rfl
      simp only
      split
      · exact unwritten.writtenOnce _ _
      · exact ⟨unwritten, pending.notLost⟩
  | lost | timeout =>
      simp only [exec, if_true, OnceFlow]
      exact pending.unwritten.writtenOnce_append (by simp) fun _ => by
        simp [conclude, Answered.router]

theorem iterate_once (exec : cx.policy = .exec) (pending : Pending st) (t : Turn) :
    cx.OnceFlow (cx.iterate st t) := by
  rcases cx.iterate_cases st t with
    stop | ⟨i, -, -, passed⟩ | ⟨_, raced⟩ | ⟨slot, -, -, -, sends⟩
  · rw [stop]
    exact pending.unwritten.writtenOnce _ _
  · rw [passed]
    exact ⟨pending.unwritten, pending.notLost⟩
  · rw [raced]
    exact ⟨pending.unwritten, pending.notLost⟩
  · rw [sends]
    exact send_once exec pending slot t

theorem run_once (exec : cx.policy = .exec) (turns : Nat → Turn) (n : Nat) :
    ((cx.run turns n).answer = none → Pending (cx.run turns n).st) ∧
      WrittenOnce (cx.run turns n).st.sent (maxBytes cx.maxResponseBytes)
        ((cx.run turns n).answer.map Answered.reply) := by
  induction n with
  | zero =>
      have pending : Pending .start := ⟨by simp [Unwritten, LoopState.start], rfl⟩
      exact ⟨fun _ => pending, pending.unwritten.writtenOnce _ _⟩
  | succ n ih =>
      rw [run]
      rcases cx.advance_cases (cx.run turns n) (turns n) with
        ⟨-, same⟩ | ⟨before, steps⟩
      · rwa [same]
      · have once := iterate_once exec (ih.1 before) (turns n)
        rcases steps with ⟨st, flow, same⟩ | ⟨st, flow, same⟩ | ⟨answered, st, flow, same⟩ <;>
          rw [flow] at once <;> rw [same]
        · exact ⟨fun _ => once, Unwritten.writtenOnce (Pending.unwritten once) _ _⟩
        · exact ⟨by simp, once⟩
        · exact ⟨by simp, once⟩

end Attempts

/-! ## Pushes -/

def PushFlow.st : PushFlow → PushState
  | .continue st => st
  | .return _ st => st

section Push

variable {dir : ApiDirectory} {st : PushState} {index : Nat}

/-- A target is attempted at most once. -/
theorem pushOn_sent (dir : ApiDirectory) (st : PushState) (index : Nat) (t : Turn) :
    (pushOn dir st index t).st.sent = st.sent ∨
      ∃ attempt, (pushOn dir st index t).st.sent = st.sent ++ [⟨index, attempt⟩] := by
  unfold pushOn
  split
  · exact .inl rfl
  split
  · exact .inl rfl
  · rename_i slot found
    obtain rfl := ApiDirectory.slot_index found
    split
    · exact .inl rfl
    · refine .inr ⟨t.attempt, ?_⟩
      repeat' split
      all_goals rfl

/-- A push goes on only while nothing was written. -/
def PushFlow.Once : PushFlow → Prop
  | .continue st => Unwritten st.sent
  | .return answered st => WrittenOnce st.sent none (some answered.reply)

theorem pushOn_once (unwritten : Unwritten st.sent) (t : Turn) : (pushOn dir st index t).Once := by
  unfold pushOn
  split
  · exact unwritten.writtenOnce _ _
  split
  · exact unwritten
  split
  · exact unwritten
  cases attempt : t.attempt with
  | response r =>
      refine unwritten.writtenOnce_append ?_ (by simp)
      rintro _ ⟨⟩
      exact relayedAs_relayed ..
  | connect => exact unwritten.append rfl
  | connectTimeout =>
      simp only
      split
      · exact (unwritten.append rfl).writtenOnce _ _
      · exact unwritten.append rfl
  | lost | timeout => exact unwritten.writtenOnce_append (by simp) fun _ => rfl

theorem pushFrom_once (dir : ApiDirectory) (turns : Nat → Turn) (targets : List Nat) (turn : Nat)
    (unwritten : Unwritten st.sent) :
    WrittenOnce (pushFrom dir turns targets turn st).2 none
      (some (pushFrom dir turns targets turn st).1.reply) := by
  induction targets generalizing turn st with
  | nil => exact unwritten.writtenOnce _ _
  | cons index targets ih =>
      have once : (pushOn dir st index (turns turn)).Once := pushOn_once unwritten _
      unfold pushFrom
      split <;> rename_i flow <;> rw [flow] at once
      · exact ih (turn + 1) once
      · exact once

/-- The attempts of a push follow its targets. -/
theorem pushFrom_sublist (dir : ApiDirectory) (turns : Nat → Turn) (targets : List Nat)
    (turn : Nat) (st : PushState) :
    ((pushFrom dir turns targets turn st).2.map Sent.index).Sublist
      (st.sent.map Sent.index ++ targets) := by
  induction targets generalizing turn st with
  | nil => simp [pushFrom]
  | cons index targets ih =>
      have onTarget (st' : PushState) (left : (pushOn dir st index (turns turn)).st = st') :
          (st'.sent.map Sent.index).Sublist (st.sent.map Sent.index ++ [index]) := by
        rw [← left]
        rcases pushOn_sent dir st index (turns turn) with same | ⟨attempt, more⟩
        · rw [same]
          exact List.sublist_append_left _ _
        · rw [more, List.map_append]
          exact .refl _
      rw [List.append_cons]
      unfold pushFrom
      split
      · rename_i st' flow
        exact (ih (turn + 1) st').trans ((onTarget st' (by rw [flow]; rfl)).append (.refl _))
      · rename_i st' flow
        exact (onTarget st' (by rw [flow]; rfl)).trans (List.sublist_append_left _ _)

end Push

/-- The APIs of a directory with this index are live. -/
def ApiDirectory.OnlyLive (dir : ApiDirectory) (index : Nat) : Prop :=
  ∀ a ∈ dir.apis, a.index = index → a.role = .live

theorem ApiDirectory.onlyLive_of_usable {dir : ApiDirectory} {path : String} {index : Nat}
    (usable : ∃ a ∈ dir.apis, a.index = index ∧ a.role = .live ∧ a.usable path = true) :
    dir.OnlyLive index := by
  obtain ⟨a, isApi, rfl, live, -⟩ := usable
  exact fun b isOther same => ApiDirectory.live_of_index live isApi isOther same

/-- The attempts of a state or exec call are on live APIs. -/
theorem state_live (dir : ApiDirectory) (q : StateQuery) (policy : Policy)
    (maxResponseBytes : Nat) (turns : Nat → Turn) (n : Nat) {s : Sent}
    (sent : s ∈ (state dir q policy maxResponseBytes turns n).st.sent) : dir.OnlyLive s.index := by
  unfold state at sent
  extract_lets order at sent
  split at sent
  · simp [LoopState.start] at sent
  · have orderly := Attempts.run_orderly
      { dir, order, policy, exhaustedWhy := .noUpstream, maxResponseBytes } turns n
    have tried := orderly.sent.subset (List.mem_map_of_mem sent)
    exact dir.onlyLive_of_usable (stateOrder_live (orderly.tried _ tried))

/-- A push and an exec call are written to at most one node.  Whatever the candidates,
the slots and the outcomes of the attempts, only the last attempt may have been
written, and the client gets its response, or that it was lost after it was sent; an
exec response that declares a length above the limit gets the router's 502, and one
that declares none is streamed up to it.  No attempt is on a frozen range server, and
a push follows the configured push servers, or goes to the `get_info` primary. -/
theorem push_exec_written_once (dir : ApiDirectory) (maxResponseBytes : Nat)
    (turns : Nat → Turn) :
    (∀ order exhaustedWhy n,
      let run := Attempts.run
        { dir, order, policy := .exec, exhaustedWhy, maxResponseBytes } turns n
      WrittenOnce run.st.sent (maxBytes maxResponseBytes) (run.answer.map Answered.reply) ∧
        (order.length + slotRaces < n → run.answer ≠ none)) ∧
    (∀ q n, ∀ s ∈ (state dir q .exec maxResponseBytes turns n).st.sent, dir.OnlyLive s.index) ∧
    (∀ targets, let out := pushFrom dir turns targets 0 ⟨0, []⟩
      WrittenOnce out.2 none (some out.1.reply)) ∧
    ∀ path pushServers current, let out := push dir path pushServers current turns
      (∀ s ∈ out.2, dir.OnlyLive s.index) ∧
        (out.2.map Sent.index).Sublist
          (pushServersOr pushServers (infoPrimary dir.apis current)) := by
  refine ⟨fun order exhaustedWhy n => ⟨?_, ?_⟩, fun q n s sent => ?_, fun targets => ?_,
    fun path pushServers current => ⟨fun s sent => ?_, ?_⟩⟩
  · exact (Attempts.run_once rfl turns n).2
  · exact fun enough => Attempts.run_answered _ turns enough
  · exact state_live dir q .exec maxResponseBytes turns n sent
  · exact pushFrom_once dir turns targets 0 (by simp [Unwritten])
  · have target := (pushFrom_sublist dir turns _ 0 ⟨0, []⟩).subset (List.mem_map_of_mem sent)
    exact dir.onlyLive_of_usable (pushTargets_live (by simpa using target))
  · have follows := pushFrom_sublist dir turns
      (pushTargets dir.apis path pushServers (infoPrimary dir.apis current)) 0 ⟨0, []⟩
    exact follows.trans (pushTargets_sublist ..)

/-! ## A response of undeclared length -/

/-- A live API that is up. -/
def sampleApi (index : Nat) : ApiView where
  index := index
  endpoint := "api"
  role := .live
  priority := 0
  weight := 1
  up := true
  busy := false
  inFlight := 0
  full := false
  apis := none
  head := some 100
  lib := some 90
  earliest := none
  verified := false
  blocks := none
  declared := none

/-- A turn whose attempt is sent and ends as given. -/
def sampleTurn (attempt : Attempt) : Turn where
  expired := false
  full _ := false
  acquired := true
  built := true
  cutShort := false
  attempt := attempt
  peek := .read

/-- One byte above the smallest limit, sent without a length. -/
def chunkedResponse : Response where
  status := 200
  length := none
  body := ⟨List.replicate 65537 0, none⟩

/-- An exec response longer than the limit is streamed, not answered 502, when it does
not declare its length. -/
theorem exec_long_response_streamed :
    let run := state ⟨[sampleApi 0], by decide⟩
      ⟨"/v1/chain/send_read_only_transaction", some 100, 0, 0, 3⟩ .exec 65536
      (fun _ => sampleTurn (.response chunkedResponse)) 1
    run.st.sent = [⟨0, .response chunkedResponse⟩] ∧
      65536 < chunkedResponse.body.bytes.length ∧
      run.answer.map Answered.reply = some (.streamed chunkedResponse (some 65536)) := by
  refine ⟨rfl, ?_, rfl⟩
  rw [chunkedResponse, List.length_replicate]
  decide

end FleetRouter.ChainApi
