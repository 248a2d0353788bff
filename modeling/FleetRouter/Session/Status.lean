import FleetRouter.Ship.Zcd
import FleetRouter.Fleet.View
import FleetRouter.Session.Judge

/-!
# Status replies

The router answers status requests itself from the fleet view once the fleet
tip is known; until then a pool session relays them to its link.  `StatusFlow`
keeps the requests in order and `routerStatus` encodes the router's own reply.
-/

namespace FleetRouter.Session

open Ship Fleet

/-- What to do with the oldest waiting status request. -/
inductive StatusStep where
  | reply (v1 : Bool)
  | relay (v1 : Bool)
  deriving DecidableEq, Repr

/-- The session's status requests: those not answered yet, and those relayed to
the current link and not answered yet. -/
structure StatusFlow where
  hold : List Bool
  backlog : List Bool
  /-- When the oldest waiting request gives up. -/
  deadline : Option Nat
  deriving DecidableEq, Repr

/-- Status requests a session may have waiting or in flight. -/
def maxQueuedStatus : Nat := 1024

namespace StatusFlow

def default : StatusFlow := { hold := [], backlog := [], deadline := none }

/-- Queue a client request, unless the session has too many already. -/
def push (flow : StatusFlow) (v1 : Bool) (now wait : Nat) : Option StatusFlow :=
  if maxQueuedStatus ≤ flow.hold.length + flow.backlog.length then none
  else some
    { flow with hold := flow.hold ++ [v1], deadline := some (flow.deadline.getD (now + wait)) }

/-- The deadline goes with the last held request. -/
def settleDeadline (flow : StatusFlow) : StatusFlow :=
  if flow.hold.isEmpty then { flow with deadline := none } else flow

/-- The next step for the oldest held request.  While relayed requests are
outstanding, later ones are relayed behind them. -/
def next (flow : StatusFlow) (ready canRelay : Bool) : StatusFlow × Option StatusStep :=
  match flow.hold with
  | [] => ({ flow with deadline := none }, none)
  | v1 :: hold =>
      if !flow.backlog.isEmpty || !ready then
        if canRelay then
          (settleDeadline { flow with hold, backlog := flow.backlog ++ [v1] }, some (.relay v1))
        else (flow, none)
      else (settleDeadline { flow with hold }, some (.reply v1))

/-- An upstream status reply arrived: the version of the oldest relayed
request. -/
def replyArrived (flow : StatusFlow) : Option (StatusFlow × Bool) :=
  match flow.backlog with
  | [] => none
  | v1 :: backlog => some ({ flow with backlog }, v1)

/-- The link ended: relayed requests go back to the front of the queue. -/
def linkEnded (flow : StatusFlow) (now wait : Nat) : StatusFlow :=
  let hold := flow.backlog ++ flow.hold
  { hold, backlog := []
    deadline := if hold.isEmpty then flow.deadline else some (flow.deadline.getD (now + wait)) }

end StatusFlow

/-- Whether the router can answer status for this view. -/
def statusReady (view : FleetView) (tip : Option BlockPos × Option BlockPos) : Bool :=
  tip.1.isSome && tip.2.isSome && (view.topology = .pool || view.frozenUnknown = 0)

/-- The range status reports for one log: the top coverage component, with a
live end moved to `head + 1`. -/
def statusRange (coverage : LogCoverage) (head : Fin (2 ^ 32)) : Range :=
  let range := coverage.top
  if !range.isEmpty && coverage.liveTailBegin.any fun b => b ≤ range.end then
    { range with «end» := max range.end (nextBlock head) }
  else range

/-- The reply a router status carries. -/
def statusBody (view : FleetView) (head lib : BlockPos) : StatusBody where
  head := head
  lib := lib
  trace := statusRange view.trace head.num
  chainState := statusRange view.chainState head.num
  finality := statusRange view.finality head.num
  chainId := view.chainId.getD (Vector.replicate 32 0)

/-- The bytes of the router's reply: a v0 reply leaves out an unknown chain
id. -/
def statusBytes (view : FleetView) (head lib : BlockPos) (v1 : Bool) : List UInt8 :=
  let bytes := encodeStatus v1 (statusBody view head lib)
  if view.chainId.isNone && !v1 then bytes.take (statusV0Len - 32) else bytes

/-- A status reply the router encoded. -/
structure RouterStatus where
  bytes : List UInt8
  /-- A v1 reply carries zeros because no chain id is known. -/
  zeroChainId : Bool
  deriving DecidableEq, Repr

/-- Encode the router's status reply and record the head and LIB sent.  Nothing
is sent while the fleet tip is not known. -/
def routerStatus (view : FleetView) (tip : Option BlockPos × Option BlockPos) (c : ClientSide)
    (v1 : Bool) : Option (ClientSide × RouterStatus) :=
  match tip with
  | (some head, some lib) =>
      let h := mono head c.headSent
      let lib := mono lib c.libSent
      let l := if h.num < lib.num then h else lib
      some ({ c with headSent := some h, libSent := some l },
        { bytes := statusBytes view h l v1, zeroChainId := view.chainId.isNone && v1 })
  | _ => none

/-- A router status records the same marks as a live result that reports the
fleet tip. -/
theorem routerStatus_eq {view : FleetView} {tip : Option BlockPos × Option BlockPos}
    {c c' : ClientSide} {v1 : Bool} {reply : RouterStatus}
    (sent : routerStatus view tip c v1 = some (c', reply)) :
    ∃ head lib, tip = (some head, some lib) ∧
      c' = (headLibFor c .live head lib none true).1 ∧
      reply.bytes = statusBytes view (headLibMarks c .live head lib none).1
        (headLibMarks c .live head lib none).2 v1 := by
  obtain ⟨head, lib⟩ := tip
  cases head with
  | none => cases sent
  | some head =>
      cases lib with
      | none => cases sent
      | some lib =>
          cases sent
          exact ⟨head, lib, rfl, rfl, rfl⟩

theorem statusBytes_eq_sentStatus (view : FleetView) (head lib : BlockPos) (v1 : Bool) :
    statusBytes view head lib v1 =
      sentStatus (statusBody view head lib) v1 view.chainId.isSome := by
  cases chain : view.chainId <;> simp [statusBytes, sentStatus, chain, statusV0MinLen]

/-- Every router status begins with its index and the head and LIB it reports. -/
theorem statusBytes_eq (view : FleetView) (head lib : BlockPos) (v1 : Bool) :
    ∃ index rest, statusBytes view head lib v1 = index :: (putPos head ++ putPos lib ++ rest) := by
  have layout : ∃ index rest, encodeStatus v1 (statusBody view head lib) =
      index :: (putPos head ++ putPos lib ++ rest) := by
    simp only [encodeStatus, statusBody, List.cons_append, List.append_assoc]
    exact ⟨_, _, rfl⟩
  obtain ⟨index, rest, bytes⟩ := layout
  simp only [statusBytes, bytes]
  split
  · have whole : (putPos head ++ putPos lib).length = 2 * posLen := by simp [posLen]
    refine ⟨index, rest.take 16, ?_⟩
    rw [show statusV0Len - 32 = (2 * posLen + 16) + 1 from rfl, List.take_succ_cons, ← whole,
      List.take_length_add_append]
  · exact ⟨index, rest, rfl⟩

/-- The sessions and the monitor read the router's own status results alike: as
a status of the version sent, with the head, LIB, ranges and chain id put in, the
chain id absent when it is not known.  The monitor accepts a v0 body of 88 bytes
or at least 120, a v1 body of at least 128, and reads each field at its fixed
offset.  Of the messages that are a status result for the sessions it rejects
exactly the v0 ones with a part of a chain id. -/
theorem status_codecs_agree :
    (∀ (s : StatusBody) (v1 known : Bool),
      classifyUpstream (sentStatus s v1 known) = .status v1 ∧
      readHeadLib (sentStatus s v1 known) = some (s.head, s.lib) ∧
      ∃ z, deserializeStatus v1 ((sentStatus s v1 known).drop 1) = .ok z ∧
        requireU32 z .headBlockNum = .ok s.head.num ∧
        statusReport z v1 s.head.num = .ok
          { head := s.head
            lib := s.lib
            trace := s.trace
            chainState := s.chainState
            finality := if v1 then some s.finality else none
            chainId := if v1 || known then some s.chainId else none }) ∧
    (∀ view tip c v1 c' reply, routerStatus view tip c v1 = some (c', reply) →
      ∃ head lib, reply.bytes =
        sentStatus (statusBody view head lib) v1 view.chainId.isSome) ∧
    (∀ b : List UInt8,
      ((∃ z, deserializeStatusResult b = .ok z) ↔ b.length = 88 ∨ 120 ≤ b.length) ∧
      ((∃ z, deserializeStatusResultV1 b = .ok z) ↔ 128 ≤ b.length) ∧
      (∀ z, deserializeStatusResult b = .ok z →
        ∀ line ∈ tableOffsets 0 statusResultV0Fields, z.get line.2.name =
          .ok (if line.1 + line.2.size ≤ b.length then valueAt b line.1 line.2.type else none)) ∧
      ∀ z, deserializeStatusResultV1 b = .ok z →
        ∀ line ∈ tableOffsets 0 statusResultV1Fields, z.get line.2.name =
          .ok (valueAt b line.1 line.2.type)) ∧
    ∀ b v1, classifyUpstream b = .status v1 →
      ((∃ error, readStatusFrame b = .error error) ↔
        v1 = false ∧ statusV0MinLen < b.length ∧ b.length < statusV0Len) := by
  refine ⟨?_, ?_, ?_, fun b v1 => readStatusFrame_error⟩
  · intro s v1 known
    exact ⟨classifyUpstream_sentStatus s v1 known, readHeadLib_sentStatus s v1 known,
      deserializeStatus_sentStatus s v1 known⟩
  · intro view tip c v1 c' reply sent
    obtain ⟨head, lib, -, -, bytes⟩ := routerStatus_eq sent
    exact ⟨_, _, bytes.trans (statusBytes_eq_sentStatus _ _ _ _)⟩
  · intro b
    refine ⟨exists_deserializeStatusResult, exists_deserializeStatusResultV1, ?_, ?_⟩
    · intro z decoded line member
      have decoded : deserializeStatus false b = .ok z := decoded
      exact get_deserializeStatus decoded member
    · intro z decoded line member
      have long := exists_deserializeStatusResultV1.mp ⟨z, decoded⟩
      have decoded : deserializeStatus true b = .ok z := decoded
      have read := get_deserializeStatus decoded member
      have inside : line.1 + line.2.size ≤ 128 := tableOffsets_le member
      rwa [if_pos (inside.trans long)] at read

example : (tableOffsets 0 statusResultV1Fields).map Prod.fst =
    [0, 4, 36, 40, 72, 76, 80, 84, 88, 120, 124] := rfl

end FleetRouter.Session
