import FleetRouter.ChainApi.Block
import FleetRouter.ChainApi.Push
import FleetRouter.ChainApi.Relay

/-!
# The answer to a block request

What the client of an irreversible block gets, as a function of what its attempts
brought: the first answer that decides, else a kept one, else Busy.  An Unknown Block
is never the answer for a block an archive claims, unless an archive that holds the
block refused its id.
-/

namespace FleetRouter.ChainApi

open Session Transition

/-- The loop of a routed block request. -/
def blockAttempts (dir : ApiDirectory) (region : Region) (order : List Nat) (claimed : Bool)
    (idHolders : List Nat) (maxResponseBytes : Nat) : Attempts where
  dir := dir
  order := order
  policy := .block region claimed idHolders
  exhaustedWhy := .noUpstream
  maxResponseBytes := maxResponseBytes

/-- A block request.  One without a hint is a state call, which reads the directory
once more. -/
def block (dir later : ApiDirectory) (q : BlockQuery) (stateQuery : StateQuery)
    (maxResponseBytes : Nat) (turns : Nat → Turn) (k : Nat) : Run :=
  match planBlock q dir.apis with
  | .unhinted =>
      state later { stateQuery with path := q.endpoint.path } .state maxResponseBytes turns k
  | .routed _ region order claimed idHolders =>
      if order.isEmpty then ⟨.start, some (.router (.busy .noUpstream) 0)⟩
      else (blockAttempts dir region order claimed idHolders maxResponseBytes).run turns k

/-! ## What the attempts bring -/

/-- The response the client receives whole. -/
def Reply.response : Reply → Option Response
  | .streamed r maxBytes =>
      if maxBytes.all fun max => r.body.bytes.length ≤ max then some r else none
  | .buffered r => some r
  | .router _ => none

/-- A streamed response reaches the client whole exactly when its relay can run to its end. -/
theorem response_streamed_iff {r : Response} {maxBytes : Option Nat} {body : List BodyFrame}
    (isBody : dataOf body = r.body.bytes) (short : r.body.bytes.length ≤ u64Max) :
    (Reply.streamed r maxBytes).response = some r ↔
      ∃ s, Reachable (relayMachine body) (fun _ _ => True) s ∧ s.maxBytes = maxBytes ∧
        s.ended = some .complete := by
  rw [← isBody] at short
  have whole : (Reply.streamed r maxBytes).response = some r ↔
      ∀ max ∈ maxBytes, (dataOf body).length ≤ max := by
    rw [isBody]
    cases maxBytes <;> simp [Reply.response]
  rw [whole]
  constructor
  · intro fits
    let first : RelayRun := .start 0 maxBytes 0 .done [] body
    have reachable : Reachable (relayMachine body) (fun _ _ => True) first :=
      .start ⟨0, maxBytes, 0, .done, [], body, rfl, .inl ⟨rfl, rfl⟩⟩
    have relays := (RelayRun.sound_of_reachable short reachable).going rfl
    obtain ⟨s, run, ended, -⟩ := RelayRun.flow_to_end short _ (.start rfl) relays fits rfl
    exact ⟨s, reachable.later (fun _ _ _ => trivial) run, RelayRun.maxBytes_of_reachable run, ended⟩
  · rintro ⟨s, reachable, rfl, ended⟩ max isMax
    have sound := RelayRun.sound_of_reachable short reachable
    have all : dataOf s.sent = dataOf body := (sound.explained _ ended).2
    exact all ▸ sound.bounded max isMax

def Response.isUnknownBlock (r : Response) : Bool :=
  r.status = 400 && ChainApi.isUnknownBlock r.body

/-- What an attempt on an irreversible block brings. -/
inductive Heard where
  /-- A transport failure, also while the body of a 400 or a 404 is read. -/
  | failed
  | busy
  | notFound (r : Response)
  | unknownBlock (r : Response)
  | answer (r : Response)
  deriving DecidableEq, Repr

def heard (attempt : Attempt) (peek : Peek) : Heard :=
  match attempt with
  | .response r =>
      if r.status = 503 then .busy
      else if r.status ≠ 400 ∧ r.status ≠ 404 then .answer r
      else if peek ≠ .read then .failed
      else if r.status = 404 then .notFound r
      else if r.isUnknownBlock then .unknownBlock r
      else .answer r
  | .connect | .connectTimeout | .lost | .timeout => .failed

/-- An attempt, the API it was made on and what it brought. -/
structure Received where
  slot : ApiView
  heard : Heard
  deriving DecidableEq, Repr

namespace Received

/-- The answer the client gets at once. -/
def decides (idHolder : ApiView → Bool) (g : Received) : Option Response :=
  match g.heard with
  | .answer r => some r
  | .unknownBlock r => if idHolder g.slot then some r else none
  | .failed | .busy | .notFound _ => none

/-- The answer that is kept. -/
def keeps (claimed : Bool) (g : Received) : Option (Role × Response) :=
  match g.heard with
  | .notFound r => some (g.slot.role, r)
  | .unknownBlock r => if claimed then none else some (g.slot.role, r)
  | .failed | .busy | .answer _ => none

end Received

/-- The last kept answer from a live node, else the last one. -/
def lastKept (kept : List (Role × Response)) : Option Response :=
  (((kept.filter fun k => k.1 = .live).getLast?).or kept.getLast?).map Prod.snd

/-- What the client of an irreversible block is to get. -/
structure Answers (idHolder : ApiView → Bool) (claimed : Bool) (received : List Received)
    (reply : Reply) : Prop where
  decided : ∀ r, received.findSome? (Received.decides idHolder) = some r → reply.response = some r
  kept : received.findSome? (Received.decides idHolder) = none →
    ∀ r, lastKept (received.filterMap (Received.keeps claimed)) = some r → reply.response = some r
  busy : received.findSome? (Received.decides idHolder) = none →
    received.filterMap (Received.keeps claimed) = [] → reply = .router (.busy .noUpstream)

/-- What the attempts made between two states brought. -/
def Attempts.between (cx : Attempts) (st st' : LoopState) (peek : Peek) : List Received :=
  (st'.sent.drop st.sent.length).filterMap fun s =>
    (cx.dir.slot s.index).map fun slot => ⟨slot, heard s.attempt peek⟩

/-- Everything the first `k` iterations received. -/
def Attempts.received (cx : Attempts) (turns : Nat → Turn) : Nat → List Received
  | 0 => []
  | k + 1 => cx.received turns k ++
      cx.between (cx.run turns k).st (cx.run turns (k + 1)).st (turns k).peek

/-- A response and its declared length are no longer than the limit. -/
def Response.Within (r : Response) (limit : Nat) : Prop :=
  (∀ length ∈ r.length, length ≤ limit) ∧ r.body.bytes.length ≤ limit

/-- A response that is small enough to be classified and relayed. -/
structure Response.Fits (r : Response) (maxBytes : Option Nat) : Prop where
  classified : r.status = 400 ∨ r.status = 404 → r.Within peekLimit
  relayed : ∀ max ∈ maxBytes, r.Within max

theorem exhausted_eq_lastKept (kept : List (Role × Response)) :
    (exhausted (kept.map fun k => (k.1, k))).map Prod.snd = lastKept kept := by
  have last : ((kept.map fun k => (k.1, k)).reverse.find? fun k => k.1 = .live).map Prod.snd =
      (kept.filter fun k => k.1 = .live).getLast? := by
    rw [← List.map_reverse, List.find?_map, Option.map_map, ← List.head?_filter,
      List.filter_reverse, List.head?_reverse]
    exact congrFun Option.map_id _
  rw [exhausted, lastKept, ← last, List.getLast?_map, Option.map_map]
  cases kept.getLast? <;> cases (kept.map _).reverse.find? _ <;> rfl

namespace Attempts

variable {cx : Attempts} {claimed : Bool} {idHolders : List Nat}

/-- What becomes of an attempt, from what it brought. -/
def Becomes (idHolder : ApiView → Bool) (claimed : Bool) (st : LoopState) (g : Received)
    (flow : Flow) : Prop :=
  match g.decides idHolder with
  | some r => ∃ answered, answered.reply.response = some r ∧ flow = .return answered st
  | none =>
      let st' := { st with kept := st.kept ++ (g.keeps claimed).toList }
      flow = .continue st' ∨ flow = .break st'

/-- A response that needs no body to be classified. -/
theorem onResponse_unread (policy : cx.policy = .block .irreversible claimed idHolders)
    (st : LoopState) (slot : ApiView) {r : Response} (peek : Peek)
    (fits : r.Fits (maxBytes cx.maxResponseBytes)) (other : r.status ≠ 400 ∧ r.status ≠ 404) :
    cx.onResponse st slot r peek =
      if r.status = 503 then .continue st
      else .return
        (.byApi (.streamed r (maxBytes cx.maxResponseBytes)) slot st.tried.length) st := by
  have unread : needsPeek .irreversible r.status r.length = false := by simp [needsPeek, other]
  have whole : Answered.relayed r (maxBytes cx.maxResponseBytes) slot st.tried.length =
      .byApi (.streamed r (maxBytes cx.maxResponseBytes)) slot st.tried.length := by
    unfold Answered.relayed
    split
    · rename_i length max isLength isMax
      rw [if_neg (not_lt.mpr ((fits.relayed max isMax).1 length isLength))]
    · rfl
  simp only [onResponse, policy, Policy.region, unread, whole]
  by_cases busy : r.status = 503 <;> simp [classify, busy]

/-- A response that is read to be classified. -/
theorem onResponse_read (policy : cx.policy = .block .irreversible claimed idHolders)
    (st : LoopState) (slot : ApiView) {r : Response} (peek : Peek)
    (fits : r.Fits (maxBytes cx.maxResponseBytes)) (read : r.status = 400 ∨ r.status = 404) :
    cx.onResponse st slot r peek =
      match peek with
      | .failed => .continue st
      | .deadline => .break st
      | .read =>
          if r.status = 404 ∨ r.isUnknownBlock then
            if r.status = 400 ∧ idHolders.contains slot.index then
              .return (.byApi (.buffered r) slot st.tried.length) st
            else if r.status = 400 ∧ claimed then .continue st
            else .continue { st with kept := st.kept ++ [(slot.role, r)] }
          else .return (.byApi (.buffered r) slot st.tried.length) st := by
  obtain ⟨declared, short⟩ := fits.classified read
  have reads : needsPeek .irreversible r.status r.length = true := by
    simpa [needsPeek, read, Option.all_eq_true] using declared
  have notBusy : r.status ≠ 503 := by
    rcases read with same | same <;> rw [same] <;> decide
  simp only [onResponse, policy, Policy.region, Policy.idHolders, Policy.claimed, reads]
  cases peek with
  | failed => simp
  | deadline => simp
  | read =>
      rcases read with isBad | isMissing
      · by_cases unknown : isUnknownBlock r.body = true
        · by_cases holder : slot.index ∈ idHolders <;> cases claimed <;>
            simp [classify, Response.isUnknownBlock, isBad, unknown, holder, settles, keeps,
              not_lt.mpr short]
        · simp [classify, Response.isUnknownBlock, isBad, unknown, not_lt.mpr short]
      · simp [classify, isMissing, settles, keeps, not_lt.mpr short]

/-- What the loop does with what an attempt brings. -/
theorem onAttempt_becomes (policy : cx.policy = .block .irreversible claimed idHolders)
    {idHolder : ApiView → Bool} (st : LoopState) {slot : ApiView}
    (holder : idHolders.contains slot.index = idHolder slot) (t : Turn)
    (fits : ∀ r, t.attempt = .response r → r.Fits (maxBytes cx.maxResponseBytes)) :
    Becomes idHolder claimed st ⟨slot, heard t.attempt t.peek⟩ (cx.onAttempt st slot t) := by
  have notExec : cx.policy ≠ .exec := by simp [policy]
  unfold onAttempt
  cases attempt : t.attempt with
  | response r =>
      have fits := fits r attempt
      by_cases read : r.status = 400 ∨ r.status = 404
      · have notBusy : r.status ≠ 503 := by
          rcases read with same | same <;> rw [same] <;> decide
        have isRead : ¬(r.status ≠ 400 ∧ r.status ≠ 404) := by tauto
        simp only [onResponse_read policy st slot t.peek fits read, Becomes, heard, notBusy, isRead,
          holder]
        cases t.peek with
        | failed | deadline => simp [Received.decides, Received.keeps]
        | read =>
            rcases read with isBad | isMissing
            · by_cases unknown : r.isUnknownBlock = true
              · cases holds : idHolder slot with
                | true =>
                    simp only [isBad, unknown, holds, Received.decides]
                    exact ⟨_, rfl, rfl⟩
                | false =>
                    cases claimed <;>
                      simp [isBad, unknown, holds, Received.decides, Received.keeps]
              · simp only [isBad, unknown, Received.decides]
                exact ⟨_, rfl, rfl⟩
            · simp [isMissing, Received.decides, Received.keeps]
      · have other : r.status ≠ 400 ∧ r.status ≠ 404 := by tauto
        have whole : (Reply.streamed r (maxBytes cx.maxResponseBytes)).response = some r := by
          refine if_pos ?_
          simpa [Option.all_eq_true] using fun max isMax => (fits.relayed max isMax).2
        simp only [onResponse_unread policy st slot t.peek fits other]
        by_cases busy : r.status = 503
        · simp [Becomes, heard, busy, Received.decides, Received.keeps]
        · have brings : heard (.response r) t.peek = .answer r := by simp [heard, busy, other]
          rw [if_neg busy, brings]
          exact ⟨_, whole, rfl⟩
  | connect => simp [Becomes, heard, Received.decides, Received.keeps]
  | connectTimeout =>
      cases t.cutShort <;> simp [Becomes, heard, Received.decides, Received.keeps]
  | lost => simp [Becomes, heard, Received.decides, Received.keeps, notExec]
  | timeout =>
      cases t.cutShort <;> simp [Becomes, heard, Received.decides, Received.keeps, notExec]

end Attempts

/-! ## The loop of an irreversible block -/

/-- Nothing received so far decides. -/
structure Undecided (idHolder : ApiView → Bool) (claimed : Bool) (received : List Received)
    (st : LoopState) : Prop where
  undecided : received.findSome? (Received.decides idHolder) = none
  kept : st.kept = received.filterMap (Received.keeps claimed)
  notLost : st.lostAfterSend = false

theorem Undecided.congr {idHolder : ApiView → Bool} {claimed : Bool} {received : List Received}
    {st st' : LoopState} (undecided : Undecided idHolder claimed received st)
    (kept : st'.kept = st.kept) (notLost : st'.lostAfterSend = st.lostAfterSend) :
    Undecided idHolder claimed received st' :=
  ⟨undecided.undecided, kept.trans undecided.kept, notLost.trans undecided.notLost⟩

namespace Attempts

variable {cx : Attempts} {claimed : Bool} {idHolders : List Nat} {idHolder : ApiView → Bool}
  {received : List Received} {st : LoopState}

/-- How an iteration leaves a request, with what it received in it. -/
def Leaves (idHolder : ApiView → Bool) (claimed : Bool) (received : List Received) : Flow → Prop
  | .continue st | .break st => Undecided idHolder claimed received st
  | .return answered _ => Answers idHolder claimed received answered.reply

theorem between_same (cx : Attempts) {st' : LoopState} (same : st'.sent = st.sent) (peek : Peek) :
    cx.between st st' peek = [] := by
  simp [between, same]

theorem between_sent {slot : ApiView} (found : cx.dir.slot slot.index = some slot)
    {st' : LoopState} {attempt : Attempt} (sent : st'.sent = st.sent ++ [⟨slot.index, attempt⟩])
    (peek : Peek) : cx.between st st' peek = [⟨slot, heard attempt peek⟩] := by
  simp [between, sent, found]

/-- An iteration that made no attempt. -/
theorem leaves_same {flow : Flow} (same : flow.st.sent = st.sent) {peek : Peek}
    (leaves : Leaves idHolder claimed received flow) :
    Leaves idHolder claimed (received ++ cx.between st flow.st peek) flow := by
  rwa [between_same cx same, List.append_nil]

/-- A request that received one more answer. -/
theorem Becomes.leaves {g : Received} {flow : Flow} {st' : LoopState}
    (becomes : Becomes idHolder claimed st' g flow)
    (undecided : Undecided idHolder claimed received st)
    (kept : st'.kept = st.kept) (notLost : st'.lostAfterSend = st.lostAfterSend) :
    Leaves idHolder claimed (received ++ [g]) flow := by
  have first : (received ++ [g]).findSome? (Received.decides idHolder) = g.decides idHolder := by
    rw [List.findSome?_append, undecided.undecided, Option.none_or]
    cases decides : g.decides idHolder <;> simp [decides]
  unfold Becomes at becomes
  cases decides : g.decides idHolder with
  | some r =>
      simp only [decides] at becomes first
      obtain ⟨answered, gets, rfl⟩ := becomes
      refine ⟨?_, by simp [first], by simp [first]⟩
      intro r' isFirst
      cases first.symm.trans isFirst
      exact gets
  | none =>
      simp only [decides] at becomes first
      have next : Undecided idHolder claimed (received ++ [g])
          { st' with kept := st'.kept ++ (g.keeps claimed).toList } := by
        refine ⟨first, ?_, notLost.trans undecided.notLost⟩
        cases keeps : g.keeps claimed <;> simp [kept, undecided.kept, keeps]
      rcases becomes with rfl | rfl
      · exact next
      · exact next

/-- One iteration on an undecided request. -/
theorem iterate_leaves (policy : cx.policy = .block .irreversible claimed idHolders)
    (holders : ∀ a ∈ cx.dir.apis, a.index ∈ cx.order → idHolders.contains a.index = idHolder a)
    (undecided : Undecided idHolder claimed received st) (t : Turn)
    (fits : ∀ r, t.attempt = .response r → r.Fits (maxBytes cx.maxResponseBytes)) :
    Leaves idHolder claimed (received ++ cx.between st (cx.iterate st t).st t.peek)
      (cx.iterate st t) := by
  rcases cx.iterate_cases st t with
    stop | ⟨i, -, -, passed⟩ | ⟨-, raced⟩ | ⟨slot, found, listed, -, sends⟩
  · rw [stop]
    apply leaves_same
    · rfl
    · exact undecided
  · rw [passed]
    apply leaves_same
    · rfl
    · exact undecided.congr rfl rfl
  · rw [raced]
    apply leaves_same
    · rfl
    · exact undecided.congr rfl rfl
  · rw [sends]
    unfold send
    split
    · apply leaves_same
      · rfl
      · exact undecided.congr rfl rfl
    · obtain ⟨kept, lost, same⟩ := cx.onAttempt_st
        { st with
          tried := st.tried ++ [slot.index]
          sent := st.sent ++ [⟨slot.index, t.attempt⟩] } slot t
      rw [between_sent found (by rw [same])]
      have holder := holders slot (List.mem_of_find?_eq_some found) listed
      exact (onAttempt_becomes policy _ holder t fits).leaves undecided rfl rfl

/-- The answer of a request that ran out of attempts. -/
theorem conclude_answers (why : cx.exhaustedWhy = .noUpstream)
    (undecided : Undecided idHolder claimed received st) :
    Answers idHolder claimed received (cx.conclude st).reply := by
  have last := exhausted_eq_lastKept st.kept
  rw [undecided.kept] at last
  refine ⟨by simp [undecided.undecided], ?_, ?_⟩
  · intro _ r isLast
    obtain ⟨k, found, rfl⟩ := Option.map_eq_some_iff.mp (last.trans isLast)
    simp [conclude, undecided.notLost, undecided.kept, found, Reply.response]
  · intro _ empty
    simp [conclude, undecided.notLost, undecided.kept, empty, exhausted, why, Answered.router]

/-- Every answer of the loop is the one its attempts call for. -/
theorem run_answers (policy : cx.policy = .block .irreversible claimed idHolders)
    (why : cx.exhaustedWhy = .noUpstream)
    (holders : ∀ a ∈ cx.dir.apis, a.index ∈ cx.order → idHolders.contains a.index = idHolder a)
    (turns : Nat → Turn)
    (fits : ∀ k r, (turns k).attempt = .response r → r.Fits (maxBytes cx.maxResponseBytes))
    (k : Nat) :
    match (cx.run turns k).answer with
    | none => Undecided idHolder claimed (cx.received turns k) (cx.run turns k).st
    | some answered => Answers idHolder claimed (cx.received turns k) answered.reply := by
  induction k with
  | zero => exact ⟨rfl, rfl, rfl⟩
  | succ k ih =>
      rcases cx.advance_cases (cx.run turns k) (turns k) with ⟨-, same⟩ | ⟨unanswered, steps⟩
      · rwa [received, run, same, between_same cx rfl, List.append_nil]
      · rw [unanswered] at ih
        have leaves := iterate_leaves policy holders ih (turns k) (fits k)
        rw [received, run]
        rcases steps with ⟨st, flow, same⟩ | ⟨st, flow, same⟩ | ⟨answered, st, flow, same⟩ <;>
          rw [flow] at leaves <;> rw [same]
        · exact leaves
        · exact conclude_answers why leaves
        · exact leaves

/-- Everything received is what an attempt on a candidate brought. -/
theorem received_from (cx : Attempts) (turns : Nat → Turn) {k : Nat} {g : Received}
    (member : g ∈ cx.received turns k) :
    g.slot ∈ cx.dir.apis ∧ g.slot.index ∈ cx.order ∧
      ∃ attempt peek, g.heard = heard attempt peek := by
  induction k with
  | zero => simp [received] at member
  | succ k ih =>
      rcases List.mem_append.mp member with before | new
      · exact ih before
      · obtain ⟨s, isNew, brought⟩ := List.mem_filterMap.mp new
        obtain ⟨slot, found, rfl⟩ := Option.map_eq_some_iff.mp brought
        have orderly := cx.run_orderly turns (k + 1)
        have tried := orderly.sent.subset (List.mem_map_of_mem (List.mem_of_mem_drop isNew))
        refine ⟨List.mem_of_find?_eq_some found, ?_, _, _, rfl⟩
        rw [ApiDirectory.slot_index found]
        exact orderly.tried _ tried

end Attempts

/-! ## Claimed blocks -/

theorem heard_answer {attempt : Attempt} {peek : Peek} {r : Response}
    (brings : heard attempt peek = .answer r) : r.isUnknownBlock = false := by
  cases attempt with
  | response r' =>
      simp only [heard] at brings
      split at brings
      · cases brings
      · split at brings
        · rename_i other
          cases brings
          simp [Response.isUnknownBlock, other]
        · split at brings
          · cases brings
          · split at brings
            · cases brings
            · split at brings
              · cases brings
              · rename_i known
                cases brings
                simpa using known
  | _ => cases brings

theorem heard_notFound {attempt : Attempt} {peek : Peek} {r : Response}
    (brings : heard attempt peek = .notFound r) : r.isUnknownBlock = false := by
  cases attempt with
  | response r' =>
      simp only [heard] at brings
      repeat' split at brings
      all_goals cases brings
      rename_i missing
      simp [Response.isUnknownBlock, missing]
  | _ => cases brings

theorem lastKept_mem {kept : List (Role × Response)} {r : Response}
    (last : lastKept kept = some r) :
    ∃ role, (role, r) ∈ kept := by
  obtain ⟨⟨role, r'⟩, found, rfl⟩ := Option.map_eq_some_iff.mp last
  refine ⟨role, ?_⟩
  rcases Option.or_eq_some_iff.mp found with live | ⟨-, any⟩
  · exact (List.mem_filter.mp (List.mem_of_getLast? live)).1
  · exact List.mem_of_getLast? any

theorem lastKept_eq_none {kept : List (Role × Response)} (none : lastKept kept = none) :
    kept = [] := by
  exact List.getLast?_eq_none_iff.mp (Option.or_eq_none_iff.mp (Option.map_eq_none_iff.mp none)).2

/-- An Unknown Block that is the answer for a claimed block comes from an id holder. -/
theorem Answers.unknownBlock {idHolder : ApiView → Bool} {received : List Received} {reply : Reply}
    (answers : Answers idHolder true received reply)
    (origin : ∀ g ∈ received, ∃ attempt peek, g.heard = heard attempt peek)
    {r : Response} (gets : reply.response = some r) (unknown : r.isUnknownBlock = true) :
    ∃ g ∈ received, g.heard = .unknownBlock r ∧ idHolder g.slot = true := by
  cases first : received.findSome? (Received.decides idHolder) with
  | some r' =>
      obtain rfl := Option.some.inj (gets.symm.trans (answers.decided r' first))
      obtain ⟨g, member, decides⟩ := List.exists_of_findSome?_eq_some first
      obtain ⟨attempt, peek, brings⟩ := origin g member
      refine ⟨g, member, ?_⟩
      cases heard : g.heard with
      | answer r' =>
          simp only [Received.decides, heard, Option.some.injEq] at decides
          rw [heard_answer (brings.symm.trans (decides ▸ heard))] at unknown
          cases unknown
      | unknownBlock r' => simpa [Received.decides, heard, and_comm] using decides
      | failed | busy | notFound => simp [Received.decides, heard] at decides
  | none =>
      cases last : lastKept (received.filterMap (Received.keeps true)) with
      | none =>
          rw [answers.busy first (lastKept_eq_none last)] at gets
          cases gets
      | some r' =>
          obtain rfl := Option.some.inj (gets.symm.trans (answers.kept first r' last))
          obtain ⟨role, isKept⟩ := lastKept_mem last
          obtain ⟨g, member, keeps⟩ := List.mem_filterMap.mp isKept
          obtain ⟨attempt, peek, brings⟩ := origin g member
          cases heard : g.heard with
          | notFound r' =>
              simp only [Received.keeps, heard, Option.some.injEq, Prod.mk.injEq] at keeps
              rw [heard_notFound (brings.symm.trans (keeps.2 ▸ heard))] at unknown
              cases unknown
          | _ => simp [Received.keeps, heard] at keeps

/-- What the run of a routed block request has in common with its loop. -/
theorem block_run (dir later : ApiDirectory) {q : BlockQuery} (stateQuery : StateQuery)
    (maxResponseBytes : Nat) (turns : Nat → Turn) {n : Fin (2 ^ 32)} {order : List Nat}
    {isClaimed : Bool} {holders : List Nat}
    (plan : planBlock q dir.apis = .routed n .irreversible order isClaimed holders)
    (fits : ∀ k r, (turns k).attempt = .response r → r.Fits (maxBytes maxResponseBytes)) (k : Nat) :
    let run := block dir later q stateQuery maxResponseBytes turns k
    (∀ answered ∈ run.answer, Answers (fun a => q.byId && a.holdsId n) isClaimed
      ((blockAttempts dir .irreversible order isClaimed holders maxResponseBytes).received turns k)
      answered.reply) ∧
    (∀ s ∈ run.st.sent, s.index ∈ order) ∧
    (order.length + slotRaces < k → run.answer ≠ none) := by
  obtain ⟨-, -, isHolders⟩ := planBlock_irreversible plan
  generalize isCx : blockAttempts dir .irreversible order isClaimed holders maxResponseBytes = cx
  simp only [block, plan, isCx]
  split
  · rename_i empty
    have nothing : cx.received turns k = [] := by
      refine List.eq_nil_iff_forall_not_mem.mpr fun g member => ?_
      have listed := (cx.received_from turns member).2.1
      simp [← isCx, blockAttempts, List.isEmpty_iff.mp empty] at listed
    refine ⟨?_, by simp [LoopState.start], by simp⟩
    rintro _ ⟨⟩
    rw [nothing]
    exact ⟨by simp, by simp [lastKept], fun _ _ => rfl⟩
  · have holder : ∀ a ∈ cx.dir.apis, a.index ∈ cx.order →
        holders.contains a.index = (q.byId && a.holdsId n) := by
      subst isCx
      intro a isApi listed
      rw [isHolders]
      cases q.byId
      · rfl
      · have isHolder : (idHolders n order dir.apis).contains a.index = a.holdsId n :=
          contains_idHolders isApi listed
        rw [if_pos rfl, isHolder, Bool.true_and]
    have answers := Attempts.run_answers (by rw [← isCx]; rfl) (by rw [← isCx]; rfl) holder turns
      (by rw [← isCx]; exact fits) k
    refine ⟨?_, ?_, ?_⟩
    · intro answered isAnswer
      rwa [Option.mem_def.mp isAnswer] at answers
    · intro s sent
      have orderly := cx.run_orderly turns k
      have tried := orderly.sent.subset (List.mem_map_of_mem sent)
      simpa [← isCx, blockAttempts] using orderly.tried _ tried
    · intro enough
      exact cx.run_answered turns (by simpa [← isCx, blockAttempts] using enough)

/-- A block that an archive claims is never reported unknown, unless an archive that
holds it below its declared end refused its id, and no live node whose log begins
above it is asked.  Whatever the block, the client gets the first answer that decides,
else a kept one, else Busy, and it gets one of them. -/
theorem claimed_block_never_unknown (dir later : ApiDirectory) (q : BlockQuery)
    (stateQuery : StateQuery) (maxResponseBytes : Nat) (turns : Nat → Turn) {n : Fin (2 ^ 32)}
    {order : List Nat} {isClaimed : Bool} {holders : List Nat}
    (plan : planBlock q dir.apis = .routed n .irreversible order isClaimed holders)
    (fits : ∀ k r, (turns k).attempt = .response r → r.Fits (maxBytes maxResponseBytes)) (k : Nat) :
    let run := block dir later q stateQuery maxResponseBytes turns k
    let received :=
      (blockAttempts dir .irreversible order isClaimed holders maxResponseBytes).received turns k
    (isClaimed = true →
      (∀ answered ∈ run.answer, ∀ r, answered.reply.response = some r → r.isUnknownBlock = true →
        q.byId = true ∧ ∃ a ∈ dir.apis, ⟨a, .unknownBlock r⟩ ∈ received ∧
          a.archives n = true ∧ ∀ d ∈ a.declared, n < d.end) ∧
      ∀ s ∈ run.st.sent, ∀ a ∈ dir.apis, a.index = s.index → a.role = .live →
        ∀ e ∈ a.earliest, e ≤ n) ∧
    (∀ answered ∈ run.answer,
      Answers (fun a => q.byId && a.holdsId n) isClaimed received answered.reply) ∧
    (order.length + slotRaces < k → run.answer ≠ none) := by
  obtain ⟨isOrder, -, -⟩ := planBlock_irreversible plan
  obtain ⟨answers, sent, ends⟩ :=
    block_run dir later stateQuery maxResponseBytes turns plan fits k
  refine ⟨fun claims => ⟨?_, ?_⟩, answers, ends⟩
  · intro answered isAnswer r gets unknown
    have origin := answers answered isAnswer
    rw [claims] at origin
    obtain ⟨⟨a, brought⟩, member, rfl, holds⟩ := origin.unknownBlock
      (fun g member => (Attempts.received_from _ turns member).2.2) gets unknown
    simp only [ApiView.holdsId, Bool.and_eq_true, Option.all_eq_true, decide_eq_true_eq] at holds
    obtain ⟨isApi, -, -⟩ := Attempts.received_from _ turns member
    exact ⟨holds.1, a, isApi, claims ▸ member, holds.2.1, holds.2.2⟩
  · intro s isSent a isApi same live e earliest
    obtain ⟨b, isApi', same', candidate⟩ := mem_irreversibleOrder (isOrder ▸ sent s isSent)
    obtain rfl := List.inj_on_of_nodup_map dir.nodup isApi isApi' (same.trans same'.symm)
    rcases candidate.live live with ⟨⟨e', earliest', below⟩, -⟩ | ⟨none, -⟩ | ⟨unclaimed, -⟩
    · cases Option.mem_unique earliest earliest'
      exact below
    · simp [none] at earliest
    · simp [claims] at unclaimed

/-- A live node's refusal of an id. -/
def unknownResponse : Response where
  status := 400
  length := none
  body := ⟨[], some unknownBlockCode⟩

/-- The live node does not know the block, and the archive's connection is lost. -/
def sampleTurns (k : Nat) : Turn :=
  if k = 0 then sampleTurn (.response unknownResponse) else sampleTurn .lost

/-- A claimed block that only a live node denies is answered Busy. -/
theorem claimed_block_never_unknown_sample :
    let run :=
      block sampleDirectory sampleDirectory (rawById 7) ⟨"", none, 0, 0, 2⟩ 0 sampleTurns 19
    planBlock (rawById 7) sampleDirectory.apis = .routed 7 .irreversible [0, 1] true [1] ∧
      run.answer.map Answered.reply = some (.router (.busy .noUpstream)) ∧
      ∀ answered ∈ run.answer, ∀ r, answered.reply.response = some r → r.isUnknownBlock = true →
        ∃ a ∈ sampleDirectory.apis, a.archives 7 = true ∧ ∀ d ∈ a.declared, 7 < d.end := by
  have plan : planBlock (rawById 7) sampleDirectory.apis =
      .routed 7 .irreversible [0, 1] true [1] := by decide
  have fits : ∀ k r, (sampleTurns k).attempt = .response r → r.Fits (maxBytes 0) := by
    intro k r received
    unfold sampleTurns at received
    split at received
    · cases received
      exact ⟨fun _ => ⟨by simp [unknownResponse], by simp [unknownResponse]⟩, by simp [maxBytes]⟩
    · cases received
  refine ⟨plan, by decide +kernel, ?_⟩
  intro answered isAnswer r gets unknown
  have never := claimed_block_never_unknown sampleDirectory sampleDirectory (rawById 7)
    ⟨"", none, 0, 0, 2⟩ 0 sampleTurns plan fits 19
  obtain ⟨-, a, isApi, -, archives, declared⟩ := (never.1 rfl).1 answered isAnswer r gets unknown
  exact ⟨a, isApi, archives, declared⟩

end FleetRouter.ChainApi
