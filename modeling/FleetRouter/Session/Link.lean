import FleetRouter.Session.Judge

/-!
# Requests of a link

The request a link is sent is always rebuilt from the client's mirror
(`buildRequest`).  `settled` and `quiescent` decide from the link's own memory
whether its socket can take another request.
-/

namespace FleetRouter.Session

open Ship

/-- Whether nothing of the link's request can ever arrive, whatever credit the
client adds. -/
def settled (st : LinkState) (legacyStatus : Bool) : Bool :=
  match st.req with
  | none => true
  | some req =>
      match st.upCursor with
      | .exact u =>
          if req.end ≤ u then
            match st.role with
            | .frozen => true
            | .live =>
                (st.lastLib.any fun lib => req.end.val ≤ lib.num.val + 1)
                  && st.keepalivesSeen == 0 && !legacyStatus
          else false
      | .uncertain _ _ => false

/-- Whether the link can take a new request on the same socket.  `preCredit` is
the client credit before that request. -/
def quiescent (st : LinkState) (preCredit : Fin (2 ^ 32)) (legacyStatus : Bool) : Bool :=
  preCredit = 0 || settled st legacyStatus

/-- What the router knows about the upstream a request goes to. -/
structure Target where
  topology : Topology
  idsBegin : Option (Fin (2 ^ 32))
  deriving DecidableEq, Repr

/-- The `have_positions` sent upstream. -/
def positionsFor (c : ClientSide) (creq : BlocksRequest) (role : Role) (fresh : Bool)
    (start : Fin (2 ^ 32)) (target : Target) : List BlockPos :=
  match role, fresh with
  | .frozen, _ => []
  | .live, true =>
      match target.topology with
      | .pool => creq.havePositions
      | .stitched =>
          creq.havePositions.filter fun p =>
            p.num < start && target.idsBegin.any fun b => b ≤ p.num
  | .live, false =>
      if creq.irreversibleOnly then []
      else c.delivered.reversibleTail (c.libSent.elim 0 BlockPos.num) c.cursor resumePositions

/-- Nothing was delivered for the current request. -/
def ClientSide.fresh (c : ClientSide) : Bool := c.deliveredForRequest = 0

/-- Where the next request sent upstream starts. -/
def requestStart (c : ClientSide) (creq : BlocksRequest) : Fin (2 ^ 32) :=
  if c.fresh then creq.start else c.cursor

/-- Build the request a link is sent and record it on the link. -/
def buildRequest (c : ClientSide) (creq : BlocksRequest) (st : LinkState)
    («end» : Fin (2 ^ 32)) (purpose : Purpose) (target : Target) :
    BlocksRequest × LinkState :=
  let start := requestStart c creq
  let havePositions := positionsFor c creq st.role c.fresh start target
  let lo := ((havePositions.map BlockPos.num).filter fun n => n < start).min?
  ({ v1 := creq.v1
     start
     «end»
     maxInFlight := c.credit
     havePositions
     irreversibleOnly := creq.irreversibleOnly
     fetchBlock := creq.fetchBlock
     fetchTraces := creq.fetchTraces
     fetchDeltas := creq.fetchDeltas
     fetchFinalityData := creq.fetchFinalityData },
   { st with
     req := some
       { start, «end»
         clamped := «end» < creq.end
         irreversibleOnly := creq.irreversibleOnly
         purpose }
     upCursor := match lo with
       | some lo => .uncertain lo start
       | none => .exact start
     resumeFloor := if !c.fresh && (purpose = .failover || !havePositions.isEmpty)
       then some c.cursor else none
     expectIdsFrom := match st.role with
       | .frozen => target.idsBegin.getD 0
       | .live => 0
     firstResultPending := true })

/-! ## A result on its way through the router -/

/-- What the router learns from the fleet while it handles one result. -/
structure FleetAnswers where
  lacks : Fin (2 ^ 32) → Lacks
  alternative : Fin (2 ^ 32) → Bool
  tip : Option (BlockPos × BlockPos)
  patch : Bool
  /-- An upstream that holds blocks would take the stream from an archive that
  lacks them. -/
  blockHolder : Bool

/-- Forward a judged result: charge it, record the head and LIB it is sent with,
and commit it. -/
def forwardResult (c : ClientSide) (st : LinkState) (fleet : FleetAnswers) (h : ResultHead)
    (fw : Forward) : ClientSide × LinkState :=
  commit (headLibFor c.charge.1 st.role h.head h.lib fleet.tip fleet.patch).1 st h fw

/-- Drop a replay.  Its credit is refunded upstream. -/
def dropDuplicate (st : LinkState) (advanceTo : Option (Fin (2 ^ 32))) : LinkState :=
  match advanceTo with
  | some next => { st with upCursor := .exact next }
  | none => st

/-- What becomes of a result read from a link. -/
inductive Handled where
  | forwarded (c : ClientSide) (st : LinkState) (fw : Forward)
  | dropped (st : LinkState)
  | ended (reason : UpEnd)
  | ignored

def Handled.isForwarded : Handled → Bool
  | .forwarded _ _ _ => true
  | .dropped _ | .ended _ | .ignored => false

theorem Handled.exists_of_isForwarded {handled : Handled} (forwarded : handled.isForwarded = true) :
    ∃ c st fw, handled = .forwarded c st fw := by
  cases handled with
  | forwarded c st fw => exact ⟨c, st, fw, rfl⟩
  | dropped | ended | ignored => cases forwarded

/-- Handle one block result read from a link. -/
def onBlockResult (c : ClientSide) (st : LinkState) (fleet : FleetAnswers) (h : ResultHead) :
    Handled :=
  match c.req, st.req with
  | some creq, some lr =>
      match judge c st creq lr h fleet.lacks fleet.alternative with
      | .forward fw =>
          if fw.noBlock && fleet.blockHolder then .ended .noBlockLog
          else
            let (c, st) := forwardResult c st fleet h fw
            .forwarded c st fw
      | .duplicate advanceTo => .dropped (dropDuplicate st advanceTo)
      | .ended reason => .ended reason
  | _, _ =>
      match st.role with
      | .frozen => .ended (.violation .variant)
      | .live => .ignored

/-- How a result comes to be handled as it is. -/
inductive HandledBy (c : ClientSide) (st : LinkState) (fleet : FleetAnswers) (h : ResultHead) :
    Handled → Prop where
  | unasked {handled : Handled} (none : c.req = none ∨ st.req = none)
      (byRole : handled = .ended (.violation .variant) ∨ handled = .ignored) :
      HandledBy c st fleet h handled
  | unlogged : HandledBy c st fleet h (.ended .noBlockLog)
  | forward {creq : BlocksRequest} {lr : LinkReq} {fw : Forward} (request : c.req = some creq)
      (linkRequest : st.req = some lr)
      (judged : judge c st creq lr h fleet.lacks fleet.alternative = .forward fw) :
      HandledBy c st fleet h (.forwarded
        (commitClient (headLibFor c.charge.1 st.role h.head h.lib fleet.tip fleet.patch).1 h fw)
        (commitLink st h fw) fw)
  | duplicate {creq : BlocksRequest} {lr : LinkReq} {advanceTo : Option (Fin (2 ^ 32))}
      (request : c.req = some creq) (linkRequest : st.req = some lr)
      (judged : judge c st creq lr h fleet.lacks fleet.alternative = .duplicate advanceTo) :
      HandledBy c st fleet h (.dropped (dropDuplicate st advanceTo))
  | ended {reason : UpEnd} : HandledBy c st fleet h (.ended reason)

section

variable {c : ClientSide} {st : LinkState} {fleet : FleetAnswers} {h : ResultHead}

theorem HandledBy.of_onBlockResult {handled : Handled}
    (isHandled : onBlockResult c st fleet h = handled) : HandledBy c st fleet h handled := by
  subst isHandled
  simp only [onBlockResult]
  cases request : c.req with
  | none =>
      apply HandledBy.unasked (.inl request)
      cases st.role with
      | frozen => exact .inl rfl
      | live => exact .inr rfl
  | some creq =>
      cases linkRequest : st.req with
      | none =>
          apply HandledBy.unasked (.inr linkRequest)
          cases st.role with
          | frozen => exact .inl rfl
          | live => exact .inr rfl
      | some lr =>
          simp only
          cases judged : judge c st creq lr h fleet.lacks fleet.alternative with
          | forward fw =>
              simp only
              split
              · exact .unlogged
              · exact .forward request linkRequest judged
          | duplicate advanceTo => exact .duplicate request linkRequest judged
          | ended reason => exact .ended

/-- The step of a forwarded result, read backwards. -/
theorem onBlockResult_forwarded {c' : ClientSide} {st' : LinkState} {fw : Forward}
    (handled : onBlockResult c st fleet h = .forwarded c' st' fw) :
    ∃ creq lr, c.req = some creq ∧ st.req = some lr ∧
      judge c st creq lr h fleet.lacks fleet.alternative = .forward fw ∧
      c' = commitClient
        (headLibFor c.charge.1 st.role h.head h.lib fleet.tip fleet.patch).1 h fw ∧
      st' = commitLink st h fw := by
  cases HandledBy.of_onBlockResult handled with
  | unasked _ byRole => simp at byRole
  | @forward creq lr _ request linkRequest judged =>
      exact ⟨creq, lr, request, linkRequest, judged, rfl, rfl⟩

theorem onBlockResult_dropped {st' : LinkState}
    (handled : onBlockResult c st fleet h = .dropped st') :
    ∃ creq lr n, c.req = some creq ∧ st.req = some lr ∧
      (classifyResult h st.upCursor lr).n = some n ∧ n < c.cursor ∧
      st.resumeFloor.isSome ∧ c.isDup n h.thisBlock ∧
      st' = dropDuplicate st (some (nextBlock n)) := by
  cases HandledBy.of_onBlockResult handled with
  | unasked _ byRole => simp at byRole
  | @duplicate creq lr _ request linkRequest judged =>
      obtain ⟨n, found, below, window, dup, rfl⟩ := judge_eq_duplicate judged
      exact ⟨creq, lr, n, request, linkRequest, found, below, window, dup, rfl⟩

/-- Results are ignored only without a request. -/
theorem onBlockResult_ignored (handled : onBlockResult c st fleet h = .ignored) :
    c.req = none ∨ st.req = none := by
  cases HandledBy.of_onBlockResult handled with
  | unasked none => exact none

end

/-! ## Sample values -/

/-- A live result for block `n`, sent with the given head and LIB. -/
def liveResult (n head lib : Fin (2 ^ 32)) : ResultHead where
  v1 := false
  head := samplePos head
  lib := samplePos lib
  thisBlock := some (samplePos n)
  prevBlock := none
  fieldsAt := 111

/-- No other upstream, no fleet tip. -/
def quietFleet : FleetAnswers where
  lacks := fun _ => .nothing
  alternative := fun _ => false
  tip := none
  patch := true
  blockHolder := false

/-- A request for blocks 101 to 999. -/
def streamRequest : BlocksRequest where
  v1 := false
  start := 101
  «end» := 1000
  maxInFlight := 100
  havePositions := []
  irreversibleOnly := false
  fetchBlock := true
  fetchTraces := false
  fetchDeltas := false
  fetchFinalityData := false

end FleetRouter.Session
