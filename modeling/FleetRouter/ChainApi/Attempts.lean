import FleetRouter.ChainApi.Pick

/-!
# The attempts of a chain API request

Block, state, `get_info` and exec requests share one loop of attempts; a push has
its own.  What the environment decides in one iteration is a turn: whether the
deadline has passed, which slots are full, whether a slot was got, how the attempt
ended and how its body was read.
-/

namespace FleetRouter.ChainApi

open Session

/-- An upstream's response, with its length when it is declared. -/
structure Response where
  status : Fin (2 ^ 16)
  length : Option Nat
  body : Body
  deriving DecidableEq, Repr

/-- What one attempt on one upstream gave. -/
inductive Attempt where
  | response (r : Response)
  /-- The connection could not be made. -/
  | connect
  /-- The time ran out while the connection was being made. -/
  | connectTimeout
  /-- The connection failed after the request may have been written. -/
  | lost
  /-- No response head in time on a connection that was made. -/
  | timeout
  deriving DecidableEq, Repr

/-- Only an attempt whose connection was never made has surely not been
written. -/
def Attempt.mayBeWritten : Attempt → Bool
  | .connect | .connectTimeout => false
  | .response _ | .lost | .timeout => true

/-- Why the router answers 503. -/
inductive Busy where
  | noUpstream
  | noLiveUpstream
  | lostAfterSend
  deriving DecidableEq, Repr

def Busy.what : Busy → String
  | .noUpstream => "No chain API upstream available"
  | .noLiveUpstream => "No live chain API upstream available"
  | .lostAfterSend => "Upstream connection lost after the request was sent"

/-- A response the router generates. -/
inductive RouterError where
  /-- The upstream's answer is longer than the limit. -/
  | answerTooLarge (limit : Nat)
  | busy (why : Busy)
  deriving DecidableEq, Repr

namespace RouterError

def status : RouterError → Fin (2 ^ 16)
  | .answerTooLarge _ => 502
  | .busy _ => 503

/-- The `message` and `error.name` texts. -/
def name : RouterError → String
  | .answerTooLarge _ => "Bad Gateway"
  | .busy _ => "Busy"

/-- The `error.what` text. -/
def what : RouterError → String
  | .answerTooLarge limit => "Upstream answer exceeds " ++ toString limit ++ " bytes"
  | .busy why => why.what

/-- The JSON body.  None of the texts needs escaping. -/
def body (err : RouterError) : String :=
  let code := toString err.status.val
  "\x7b\"code\":" ++ code ++ ",\"message\":\"" ++ err.name ++ "\",\"error\":\x7b\"code\":" ++ code
    ++ ",\"name\":\"" ++ err.name ++ "\",\"what\":\"" ++ err.what ++ "\",\"details\":[]\x7d\x7d"

end RouterError

/-- What the client gets. -/
inductive Reply where
  /-- The upstream's response as it arrives, cut off once it passes the limit. -/
  | streamed (r : Response) (maxBytes : Option Nat)
  /-- A response that was read whole. -/
  | buffered (r : Response)
  | router (err : RouterError)
  deriving DecidableEq, Repr

/-- The answer to a proxied request and who wrote it. -/
structure Answered where
  reply : Reply
  role : Option Role
  upstream : Option Nat
  tries : Nat
  deriving DecidableEq, Repr

namespace Answered

def router (err : RouterError) (tries : Nat) : Answered where
  reply := .router err
  role := none
  upstream := none
  tries := tries

/-- The answer of an API. -/
def byApi (reply : Reply) (slot : ApiView) (tries : Nat) : Answered where
  reply := reply
  role := some slot.role
  upstream := some slot.index
  tries := tries

/-- The response of an API, streamed; one declared longer than the limit is not
relayed at all. -/
def relayed (r : Response) (maxBytes : Option Nat) (slot : ApiView) (tries : Nat) : Answered :=
  match r.length, maxBytes with
  | some length, some max =>
      if max < length then router (.answerTooLarge max) tries
      else byApi (.streamed r maxBytes) slot tries
  | _, _ => byApi (.streamed r maxBytes) slot tries

end Answered

/-- How the reading of a body that must be classified went. -/
inductive Peek where
  | read
  | failed
  | deadline
  deriving DecidableEq, Repr

/-- What the environment decides in one iteration. -/
structure Turn where
  /-- The request's deadline has passed. -/
  expired : Bool
  full : Nat → Bool
  /-- The slot was got, at once or after waiting for it. -/
  acquired : Bool
  /-- The request could be built for the API. -/
  built : Bool
  /-- The deadline leaves the attempt less than its own timeout. -/
  cutShort : Bool
  attempt : Attempt
  peek : Peek

/-- An attempt that was sent, and how it ended. -/
structure Sent where
  index : Nat
  attempt : Attempt
  deriving DecidableEq, Repr

/-! ## The loop of attempts -/

/-- How the attempts of one request move on. -/
inductive Policy where
  | block (region : Region) (claimed : Bool) (idHolders : List Nat)
  | state
  | info
  | exec
  deriving DecidableEq, Repr

def Policy.region : Policy → Region
  | .block region _ _ => region
  | _ => .reversible

def Policy.claimed : Policy → Bool
  | .block _ claimed _ => claimed
  | _ => false

def Policy.idHolders : Policy → List Nat
  | .block _ _ idHolders => idHolders
  | _ => []

/-- Times a request loses a free slot to another before it answers Busy. -/
def slotRaces : Nat := 16

structure LoopState where
  tried : List Nat
  kept : List (Role × Response)
  lostAfterSend : Bool
  races : Nat
  /-- Every attempt made so far. -/
  sent : List Sent
  deriving DecidableEq, Repr

def LoopState.start : LoopState where
  tried := []
  kept := []
  lostAfterSend := false
  races := 0
  sent := []

/-- How an iteration leaves the loop: it goes on, breaks off or answers. -/
inductive Flow where
  | continue (st : LoopState)
  | break (st : LoopState)
  | return (answered : Answered) (st : LoopState)
  deriving DecidableEq, Repr

/-- What the loop of one request runs with. -/
structure Attempts where
  dir : ApiDirectory
  order : List Nat
  policy : Policy
  exhaustedWhy : Busy
  /-- No limit when 0. -/
  maxResponseBytes : Nat

/-- The limit in effect. -/
def maxBytes (maxResponseBytes : Nat) : Option Nat :=
  if 0 < maxResponseBytes then some maxResponseBytes else none

namespace Attempts

variable (cx : Attempts)

/-- A response head has arrived from `slot`. -/
def onResponse (st : LoopState) (slot : ApiView) (r : Response) (peek : Peek) : Flow :=
  let region := cx.policy.region
  let tries := st.tried.length
  let more := cx.order.any fun i => !st.tried.contains i
  let relayed := Answered.relayed r (maxBytes cx.maxResponseBytes) slot tries
  if cx.policy = .info ∧ 500 ≤ r.status ∧ more then .continue st
  else if cx.policy = .exec then .return relayed st
  else if !needsPeek region r.status r.length then
    match classify region (.response r.status none) with
    | .final => .return relayed st
    | .next _ _ => .continue st
  else
    match peek with
    | .failed => .continue st
    | .deadline => .break st
    | .read =>
        if peekLimit < r.body.bytes.length then
          .return (.byApi (.streamed r (maxBytes cx.maxResponseBytes)) slot tries) st
        else
          match classify region (.response r.status (some r.body)) with
          | .final => .return (.byApi (.buffered r) slot tries) st
          | .next reason keep =>
              if settles reason (cx.policy.idHolders.contains slot.index) then
                .return (.byApi (.buffered r) slot tries) st
              else if keep && keeps reason cx.policy.claimed then
                .continue { st with kept := st.kept ++ [(slot.role, r)] }
              else .continue st

/-- The attempt on `slot` has ended. -/
def onAttempt (st : LoopState) (slot : ApiView) (t : Turn) : Flow :=
  match t.attempt with
  | .response r => cx.onResponse st slot r t.peek
  | .connect => .continue st
  | .connectTimeout => if t.cutShort then .break st else .continue st
  | .lost =>
      if cx.policy = .exec then .break { st with lostAfterSend := true } else .continue st
  | .timeout =>
      if cx.policy = .exec then .break { st with lostAfterSend := true }
      else if t.cutShort then .break st
      else .continue st

/-- One attempt on `slot`, whose slot is held. -/
def send (st : LoopState) (slot : ApiView) (t : Turn) : Flow :=
  let st := { st with tried := st.tried ++ [slot.index] }
  if !t.built then .continue st
  else cx.onAttempt { st with sent := st.sent ++ [⟨slot.index, t.attempt⟩] } slot t

def iterate (st : LoopState) (t : Turn) : Flow :=
  if t.expired then .break st
  else
    match nextAttempt cx.order st.tried fun i => (cx.dir.slot i).isNone || t.full i with
    | .exhausted => .break st
    | .attempt i =>
        match cx.dir.slot i with
        | none => .continue { st with tried := st.tried ++ [i] }
        | some slot =>
            if t.acquired then cx.send st slot t
            else if st.races < slotRaces then .continue { st with races := st.races + 1 }
            else .break st
    | .wait i =>
        match cx.dir.slot i with
        | none => .break st
        | some slot => if t.acquired then cx.send st slot t else .break st

/-- The answer after the loop broke off: that a request was lost after it was sent,
else a kept answer, else Busy. -/
def conclude (st : LoopState) : Answered :=
  let tries := st.tried.length
  if st.lostAfterSend then .router (.busy .lostAfterSend) tries
  else
    match exhausted (st.kept.map fun k => (k.1, k)) with
    | some (role, r) => { reply := .buffered r, role := some role, upstream := none, tries }
    | none => .router (.busy cx.exhaustedWhy) tries

end Attempts

/-- The loop so far, and the answer once it has one. -/
structure Run where
  st : LoopState
  answer : Option Answered
  deriving DecidableEq, Repr

namespace Attempts

variable (cx : Attempts)

def advance (run : Run) (t : Turn) : Run :=
  match run.answer with
  | some _ => run
  | none =>
      match cx.iterate run.st t with
      | .continue st => ⟨st, none⟩
      | .break st => ⟨st, some (cx.conclude st)⟩
      | .return answered st => ⟨st, some answered⟩

/-- The first `n` iterations of the loop. -/
def run (turns : Nat → Turn) : Nat → Run
  | 0 => ⟨.start, none⟩
  | n + 1 => cx.advance (run turns n) (turns n)

end Attempts

/-! ## What an iteration does -/

/-- The state an iteration leaves. -/
def Flow.st : Flow → LoopState
  | .continue st => st
  | .break st => st
  | .return _ st => st

namespace Attempts

variable {cx : Attempts} {st st' : LoopState} {t : Turn}

/-- A response touches nothing but the kept answers. -/
theorem onResponse_st (cx : Attempts) (st : LoopState) (slot : ApiView)
    (r : Response) (peek : Peek) :
    ∃ kept, (cx.onResponse st slot r peek).st = { st with kept } := by
  simp only [onResponse]
  repeat' split
  all_goals exact ⟨_, rfl⟩

theorem onAttempt_st (cx : Attempts) (st : LoopState) (slot : ApiView) (t : Turn) :
    ∃ kept lostAfterSend, (cx.onAttempt st slot t).st = { st with kept, lostAfterSend } := by
  unfold onAttempt
  split
  · rename_i r _
    obtain ⟨kept, same⟩ := cx.onResponse_st st slot r t.peek
    exact ⟨kept, st.lostAfterSend, same⟩
  all_goals
    repeat' split
    all_goals exact ⟨_, _, rfl⟩

/-- An attempt uses up its API, and is recorded when it was sent. -/
theorem send_st (cx : Attempts) (st : LoopState) (slot : ApiView) (t : Turn) :
    (cx.send st slot t).st.tried = st.tried ++ [slot.index] ∧
      (cx.send st slot t).st.races = st.races ∧
      ((cx.send st slot t).st.sent = st.sent ∨
        (cx.send st slot t).st.sent = st.sent ++ [⟨slot.index, t.attempt⟩]) := by
  simp only [send]
  split
  · exact ⟨rfl, rfl, .inl rfl⟩
  · obtain ⟨kept, lost, same⟩ := cx.onAttempt_st
      { st with
        tried := st.tried ++ [slot.index]
        sent := st.sent ++ [⟨slot.index, t.attempt⟩] } slot t
    rw [same]
    exact ⟨rfl, rfl, .inr rfl⟩

/-- The choice of the loop. -/
def choice (cx : Attempts) (st : LoopState) (full : Nat → Bool) : NextAttempt :=
  nextAttempt cx.order st.tried fun i => (cx.dir.slot i).isNone || full i

/-- The ways an iteration can go, by its choice. -/
inductive Iterated (cx : Attempts) (st : LoopState) (t : Turn) : Flow → Prop where
  | expired (passed : t.expired = true) : Iterated cx st t (.break st)
  | exhausted (next : cx.choice st t.full = .exhausted) : Iterated cx st t (.break st)
  | passedOver (i : Nat) (next : cx.choice st t.full = .attempt i) :
      Iterated cx st t (.continue { st with tried := st.tried ++ [i] })
  | raced (more : st.races < slotRaces) :
      Iterated cx st t (.continue { st with races := st.races + 1 })
  | lastRace (i : Nat) (next : cx.choice st t.full = .attempt i) (lost : t.acquired = false)
      (last : slotRaces ≤ st.races) : Iterated cx st t (.break st)
  | noApi (i : Nat) (next : cx.choice st t.full = .wait i) (missing : cx.dir.slot i = none) :
      Iterated cx st t (.break st)
  | waited (i : Nat) (next : cx.choice st t.full = .wait i) (lost : t.acquired = false) :
      Iterated cx st t (.break st)
  | sends (slot : ApiView) {flow : Flow} (found : cx.dir.slot slot.index = some slot)
      (next : cx.choice st t.full = .attempt slot.index ∨ cx.choice st t.full = .wait slot.index)
      (same : cx.send st slot t = flow) : Iterated cx st t flow

theorem iterate_iterated (cx : Attempts) (st : LoopState) (t : Turn) :
    Iterated cx st t (cx.iterate st t) := by
  unfold iterate
  split
  · exact .expired ‹_›
  split
  · exact .exhausted ‹_›
  · rename_i i next
    split
    · exact .passedOver i next
    · rename_i slot found
      obtain rfl := ApiDirectory.slot_index found
      split
      · exact .sends slot found (.inl next) rfl
      · rename_i lost
        split
        · exact .raced ‹_›
        · exact .lastRace _ next (Bool.eq_false_iff.mpr lost) (Nat.le_of_not_lt ‹_›)
  · rename_i i next
    split
    · exact .noApi i next ‹_›
    · rename_i slot found
      obtain rfl := ApiDirectory.slot_index found
      split
      · exact .sends slot found (.inr next) rfl
      · exact .waited _ next (Bool.eq_false_iff.mpr ‹_›)

/-- An iteration breaks off, passes over an index without an API, loses a race for
a slot, or makes an attempt on an untried candidate. -/
theorem iterate_cases (cx : Attempts) (st : LoopState) (t : Turn) :
    cx.iterate st t = .break st ∨
      (∃ i ∈ cx.order, i ∉ st.tried ∧
        cx.iterate st t = .continue { st with tried := st.tried ++ [i] }) ∨
      (st.races < slotRaces ∧ cx.iterate st t = .continue { st with races := st.races + 1 }) ∨
      ∃ slot, cx.dir.slot slot.index = some slot ∧ slot.index ∈ cx.order ∧
        slot.index ∉ st.tried ∧ cx.iterate st t = cx.send st slot t := by
  have iterated := cx.iterate_iterated st t
  generalize cx.iterate st t = flow at iterated ⊢
  cases iterated with
  | passedOver i next =>
      obtain ⟨listed, untried⟩ := nextAttempt_untried (.inl next)
      exact .inr (.inl ⟨i, listed, untried, rfl⟩)
  | raced more => exact .inr (.inr (.inl ⟨more, rfl⟩))
  | sends slot found next same =>
      obtain ⟨listed, untried⟩ := nextAttempt_untried next
      exact .inr (.inr (.inr ⟨slot, found, listed, untried, same.symm⟩))
  | _ => exact .inl rfl

/-- An answered request stays as it is; another takes one more iteration. -/
theorem advance_cases (cx : Attempts) (run : Run) (t : Turn) :
    (run.answer ≠ none ∧ cx.advance run t = run) ∨
      run.answer = none ∧
        ((∃ st, cx.iterate run.st t = .continue st ∧ cx.advance run t = ⟨st, none⟩) ∨
          (∃ st, cx.iterate run.st t = .break st ∧
            cx.advance run t = ⟨st, some (cx.conclude st)⟩) ∨
          ∃ answered st, cx.iterate run.st t = .return answered st ∧
            cx.advance run t = ⟨st, some answered⟩) := by
  unfold advance
  split
  · rename_i known
    exact .inl ⟨by simp [known], rfl⟩
  · rename_i unanswered
    refine .inr ⟨unanswered, ?_⟩
    cases cx.iterate run.st t with
    | «continue» st => exact .inl ⟨st, rfl, rfl⟩
    | «break» st => exact .inr (.inl ⟨st, rfl, rfl⟩)
    | «return» answered st => exact .inr (.inr ⟨answered, st, rfl, rfl⟩)

end Attempts

/-! ## One attempt for each candidate -/

/-- Every API is tried at most once, and only candidates are. -/
structure LoopState.Orderly (order : List Nat) (st : LoopState) : Prop where
  nodup : st.tried.Nodup
  tried : ∀ i ∈ st.tried, i ∈ order
  sent : (st.sent.map Sent.index).Sublist st.tried

theorem LoopState.Orderly.tried_append {order : List Nat} {st st' : LoopState} {i : Nat}
    (orderly : st.Orderly order) (listed : i ∈ order) (untried : i ∉ st.tried)
    (tried : st'.tried = st.tried ++ [i])
    (sent : st'.sent = st.sent ∨ ∃ attempt, st'.sent = st.sent ++ [⟨i, attempt⟩]) :
    st'.Orderly order where
  nodup := by
    rw [tried, List.nodup_append]
    refine ⟨orderly.nodup, List.nodup_singleton i, ?_⟩
    rintro j isTried _ isLast rfl
    rw [List.mem_singleton] at isLast
    exact untried (isLast ▸ isTried)
  tried := by
    intro j isTried
    rw [tried, List.mem_append, List.mem_singleton] at isTried
    rcases isTried with before | rfl
    · exact orderly.tried j before
    · exact listed
  sent := by
    rw [tried]
    rcases sent with same | ⟨attempt, more⟩
    · rw [same]
      exact orderly.sent.trans (List.sublist_append_left _ _)
    · rw [more, List.map_append]
      exact orderly.sent.append (.refl _)

namespace Attempts

variable {cx : Attempts} {st st' : LoopState} {t : Turn}

theorem iterate_orderly (orderly : st.Orderly cx.order) (t : Turn) :
    (cx.iterate st t).st.Orderly cx.order := by
  rcases cx.iterate_cases st t with
    stop | ⟨i, listed, untried, passed⟩ | ⟨_, raced⟩ | ⟨slot, -, listed, untried, sends⟩
  · rw [stop]
    exact orderly
  · rw [passed]
    exact orderly.tried_append listed untried rfl (.inl rfl)
  · rw [raced]
    exact ⟨orderly.nodup, orderly.tried, orderly.sent⟩
  · rw [sends]
    obtain ⟨tried, -, sent⟩ := cx.send_st st slot t
    exact orderly.tried_append listed untried tried (sent.imp_right fun more => ⟨_, more⟩)

theorem run_orderly (cx : Attempts) (turns : Nat → Turn) (n : Nat) :
    (cx.run turns n).st.Orderly cx.order := by
  induction n with
  | zero => exact ⟨List.nodup_nil, by simp [run, LoopState.start], .refl _⟩
  | succ n ih =>
      have next := iterate_orderly ih (turns n)
      rw [run]
      rcases cx.advance_cases (cx.run turns n) (turns n) with
        ⟨-, same⟩ | ⟨-, ⟨st, flow, same⟩ | ⟨st, flow, same⟩ | ⟨answered, st, flow, same⟩⟩
      · rwa [same]
      all_goals
        rw [flow] at next
        rw [same]
        exact next

/-! ## The loop ends -/

/-- The untried candidates and the races that may still be lost. -/
def remaining (cx : Attempts) (st : LoopState) : Nat :=
  (cx.order.filter fun i => !st.tried.contains i).length + (slotRaces - st.races)

theorem length_untried_lt {order tried : List Nat} {i : Nat} (listed : i ∈ order)
    (untried : i ∉ tried) :
    (order.filter fun j => !(tried ++ [i]).contains j).length <
      (order.filter fun j => !tried.contains j).length := by
  have again : (order.filter fun j => !(tried ++ [i]).contains j) =
      (order.filter fun j => !tried.contains j).filter fun j => j ≠ i := by
    rw [List.filter_filter]
    refine List.filter_congr fun j _ => ?_
    by_cases same : j = i <;> simp [same]
  rw [again, List.length_filter_lt_length_iff_exists]
  exact ⟨i, List.mem_filter.mpr ⟨listed, by simpa using untried⟩, by simp⟩

theorem remaining_lt (goes : cx.iterate st t = .continue st') :
    cx.remaining st' < cx.remaining st := by
  rcases cx.iterate_cases st t with
    stop | ⟨i, listed, untried, passed⟩ | ⟨more, raced⟩ | ⟨slot, -, listed, untried, sends⟩
  · simp [stop] at goes
  · obtain rfl := Flow.continue.inj (passed.symm.trans goes)
    exact Nat.add_lt_add_right (length_untried_lt listed untried) _
  · obtain rfl := Flow.continue.inj (raced.symm.trans goes)
    simp only [remaining]
    omega
  · obtain ⟨tried, races, -⟩ := cx.send_st st slot t
    rw [← sends, goes, Flow.st] at tried races
    simp only [remaining, tried, races]
    exact Nat.add_lt_add_right (length_untried_lt listed untried) _

theorem run_unanswered {turns : Nat → Turn} {n : Nat}
    (unanswered : (cx.run turns n).answer = none) :
    n + cx.remaining (cx.run turns n).st ≤ cx.order.length + slotRaces := by
  induction n with
  | zero => simp [run, remaining, LoopState.start]
  | succ n ih =>
      rw [run] at unanswered ⊢
      rcases cx.advance_cases (cx.run turns n) (turns n) with
        ⟨known, same⟩ | ⟨before, ⟨st, goes, same⟩ | ⟨st, -, same⟩ | ⟨answered, st, -, same⟩⟩
      · exact absurd (same ▸ unanswered) known
      · have less := remaining_lt goes
        have bound := ih before
        rw [same]
        simp only
        omega
      · simp [same] at unanswered
      · simp [same] at unanswered

/-- The loop answers within one iteration for each candidate, one for each race and
one more. -/
theorem run_answered (cx : Attempts) (turns : Nat → Turn) {n : Nat}
    (enough : cx.order.length + slotRaces < n) : (cx.run turns n).answer ≠ none := by
  intro unanswered
  have bound := run_unanswered unanswered
  omega

end Attempts

end FleetRouter.ChainApi
