import FleetRouter.Fleet.Planner
import FleetRouter.Session.Archive

/-!
# Stitched sessions

A stitched session serves one client request from several upstreams, leg by
leg.  The planner decides each leg; the session sends it on the link it has, on
a standby link or on a new dial, and otherwise waits or holds.  A link whose
request is finished may stay open for a following leg.

When timers fire and views change is up to the environment: every event that
plans carries what the planner reads at that moment.
-/

namespace FleetRouter.Session

open Ship Fleet Transition

/-! ## Plans -/

/-- A leg the planner served, with the plan it came from. -/
structure PlannedLeg where
  plan : Planning
  shape : Shape
  leg : ServeStep
  bounded : leg.Bounded plan shape

/-- A planner step whose leg carries its plan. -/
inductive PlannedStep where
  | serve (planned : PlannedLeg)
  | hold (block : Fin (2 ^ 32)) (why : HoldWhy) (bounded : Bool)
  | wait (block : Fin (2 ^ 32))
  | gap (block : Fin (2 ^ 32))
  | done

def PlannedStep.of (p : Planning) (sh : Shape) (start : Fin (2 ^ 32)) : PlannedStep :=
  match served : p.nextStep sh start with
  | .serve leg => .serve ⟨p, sh, leg, (Planning.nextStep_bounded served).2⟩
  | .hold block why bounded => .hold block why bounded
  | .wait block => .wait block
  | .gap block => .gap block
  | .done => .done

namespace PlannedStep

def isHold : PlannedStep → Bool
  | .hold _ _ _ => true
  | _ => false

def isAtCapacity : PlannedStep → Bool
  | .hold _ .atCapacity _ => true
  | _ => false

/-- Replace a step by a second plan, if there is one to make. -/
def orPlan (step : PlannedStep) (again : Bool) (second : Option Planning) (sh : Shape)
    (start : Fin (2 ^ 32)) : PlannedStep :=
  match again, second with
  | true, some p => .of p sh start
  | _, _ => step

/-- A hold is reported as busy only while an upstream that answered 503 is
excluded. -/
def reportBusy (step : PlannedStep) (busy : Bool) : PlannedStep :=
  match step with
  | .hold block .busy bounded => .hold block (if busy then .busy else .offline) bounded
  | step => step

end PlannedStep

/-- What a session plans with.  A hold is planned again without the exclusion of
an operator move, and a hold at capacity without the slot of the link that just
ended. -/
structure PlanEnv where
  first : Planning
  withoutMove : Option Planning
  withoutRetired : Option Planning
  /-- Also without the upstream the session is just leaving. -/
  withoutLeft : Planning
  /-- An upstream that answered 503 is still excluded. -/
  busy : Bool

def PlanEnv.view (env : PlanEnv) : FleetView := env.first.view

/-- The planner's next step for the client's request at block `start`. -/
def PlanEnv.plan (env : PlanEnv) (c : ClientSide) (start : Fin (2 ^ 32)) : PlannedStep :=
  match c.req.map Shape.of with
  | none => .done
  | some sh =>
      let step := PlannedStep.of env.first sh start
      let step := step.orPlan step.isHold env.withoutMove sh start
      let step := step.orPlan step.isAtCapacity env.withoutRetired sh start
      step.reportBusy env.busy

/-- The leg a dial to upstream `up` would now be sent, while that upstream can
still serve the cursor. -/
def PlanEnv.dialedLeg (env : PlanEnv) (c : ClientSide) (up : Nat) : Option PlannedLeg :=
  match c.req.map Shape.of with
  | none => none
  | some sh =>
      match served : env.first.serveOn sh c.cursor up with
      | some leg => some ⟨env.first, sh, leg, (Planning.serveOn_bounded served).2.2⟩
      | none => none

/-- The leg another online upstream would serve, when the dialed one is seen
offline. -/
def PlanEnv.onlineInsteadOf (env : PlanEnv) (c : ClientSide) (up : Nat) : Option PlannedLeg :=
  if (env.view.up up).any UpstreamView.online then none
  else
    match c.req.map Shape.of with
    | none => none
    | some sh =>
        match PlannedStep.of env.withoutLeft sh c.cursor with
        | .serve other => if other.leg.up ≠ up then some other else none
        | _ => none

/-! ## Session state -/

inductive Phase where
  | idle
  | streaming
  | dialing (purpose : Purpose) (step : Option PlannedLeg)
  | backoff (purpose : Purpose)
  | holding (purpose : Purpose)
  | waiting (block : Fin (2 ^ 32)) (purpose : Purpose)
  | closed

/-- What the dial on its way is for. -/
def Phase.dialPurpose : Phase → Purpose
  | .dialing purpose _ => purpose
  | _ => .failover

def Phase.dialStep : Phase → Option PlannedLeg
  | .dialing _ step => step
  | _ => none

/-- A link with the plan of the leg it was last sent. -/
structure Link where
  st : LinkState
  planned : Option PlannedLeg

/-- A result forwarded from a frozen link, with the request last sent on it. -/
structure ArchiveDelivery where
  block : Option (Fin (2 ^ 32))
  up : Nat
  request : LinkReq
  planned : Option PlannedLeg
  clientEnd : Fin (2 ^ 32)
  /-- The request had nothing left to send. -/
  finished : Bool

structure Stitched where
  c : ClientSide
  link : Option Link
  /-- The upstream being dialed. -/
  dial : Option Nat
  /-- The upstream of the connected standby link. -/
  standby : Option Nat
  standbyDial : Option Nat
  /-- A hold is under way. -/
  held : Bool
  phase : Phase
  /-- What reached the client from frozen links. -/
  delivered : List ArchiveDelivery

namespace Stitched

def fresh : Stitched where
  c := .default
  link := none
  dial := none
  standby := none
  standbyDial := none
  held := false
  phase := .idle
  delivered := []

def discardStandby (s : Stitched) : Stitched := { s with standby := none, standbyDial := none }

def retireLink (s : Stitched) : Stitched := { s with link := none }

def close (s : Stitched) : Stitched := { s with link := none, phase := .closed }

/-- Whether the view shows the upstream as one that sends head keep-alives. -/
def legacy (view : FleetView) (up : Nat) : Bool := (view.up up).any UpstreamView.legacyStatus

/-- Send the client's request to the link, rebuilt from the session's mirror. -/
def sendRequest (s : Stitched) (view : FleetView) («end» : Fin (2 ^ 32)) (purpose : Purpose)
    (planned : Option PlannedLeg) : Stitched :=
  match s.c.req, s.link with
  | some creq, some link =>
      let target : Target :=
        { topology := .stitched, idsBegin := (view.up link.st.up).bind UpstreamView.idsBegin }
      { s with
        link := some { st := (buildRequest s.c creq link.st «end» purpose target).2, planned }
        held := false
        phase := if s.c.inProgress then .streaming else .idle }
  | _, _ => s

/-- Keep the link when nothing of its request can still arrive. -/
def keepLinkIfSettled (s : Stitched) (view : FleetView) : Stitched :=
  match s.link with
  | some link => if settled link.st (legacy view link.st.up) then s else s.retireLink
  | none => s

/-- Whether the link can take the leg on its socket. -/
def reusable (s : Stitched) (view : FleetView) (up : Nat) (pre : Fin (2 ^ 32)) : Bool :=
  s.link.any fun link =>
    link.st.up = up && quiescent link.st pre (legacy view link.st.up)

section
variable (roles : Nat → Role)

/-- A link that has just been connected. -/
def connected (up : Nat) : Link := { st := .new up (roles up), planned := none }

/-- Serve a leg: on the current socket, on the standby link, on a dial already
running, or on a new dial. -/
def serve (s : Stitched) (view : FleetView) (planned : PlannedLeg) (purpose : Purpose)
    (pre : Fin (2 ^ 32)) : Stitched :=
  let up := planned.leg.up
  if s.reusable view up pre then
    { s.discardStandby with dial := none }.sendRequest view planned.leg.reqEnd purpose planned
  else if s.standby = some up then
    { s.discardStandby with dial := none, link := some (connected roles up) }.sendRequest view
      planned.leg.reqEnd purpose planned
  else if s.dial = some up ∨ s.standbyDial = some up ∨ (view.up up).isSome then
    { s.discardStandby with
      link := none, dial := some up, phase := .dialing purpose (some planned) }
  else s.close

/-- Act on a planner step.  `pre` is the client credit that tells whether the
link is quiescent. -/
def applyStep (s : Stitched) (view : FleetView) (step : PlannedStep) (purpose : Purpose)
    (pre : Fin (2 ^ 32)) : Stitched :=
  match step with
  | .serve planned => s.serve roles view planned purpose pre
  | .done =>
      { ({ s.discardStandby with dial := none, held := false }.keepLinkIfSettled view) with
        phase := .idle }
  | .gap _ => s.close
  | .wait block =>
      { ({ s.discardStandby with dial := none, held := false }.keepLinkIfSettled view) with
        phase := .waiting block purpose }
  | .hold _ why _ =>
      let s := { s.discardStandby with dial := none, held := true }
      let s := if why = .atCapacity ∨ why = .busy then s.retireLink else s.keepLinkIfSettled view
      { s with phase := .holding purpose }

/-- Plan from the client's cursor and act on it. -/
def planAgain (s : Stitched) (env : PlanEnv) (purpose : Purpose) : Stitched :=
  s.applyStep roles env.view (env.plan s.c s.c.cursor) purpose s.c.credit

def replan (s : Stitched) (env : PlanEnv) (purpose : Purpose) : Stitched :=
  if s.c.inProgress then s.planAgain roles env purpose
  else { s with held := false, phase := .idle }

/-- A client request that no node ever answers: stop what the link still
sends. -/
def onEmptyRequest (s : Stitched) (r : BlocksRequest) (view : FleetView) (pre : Fin (2 ^ 32)) :
    Stitched :=
  let s := { s.discardStandby with dial := none }
  match s.link with
  | some link =>
      if link.st.req.isNone then { s with phase := .idle }
      else if quiescent link.st pre (legacy view link.st.up) then
        s.sendRequest view r.end .initial none
      else { s.retireLink with phase := .idle }
  | none => { s with phase := .idle }

/-- A new client request. -/
def onRequest (s : Stitched) (r : BlocksRequest) (env : PlanEnv) : Stitched :=
  let pre := s.c.credit
  let s : Stitched :=
    { s with
      c := (s.c.newRequest r).1
      link := s.link.map fun link => { link with st := { link.st with resumeFloor := none } }
      held := false }
  if requestIsEmpty r then s.onEmptyRequest r env.view pre
  else s.applyStep roles env.view (env.plan s.c r.start) .initial pre

/-- The end reasons that are no fault of the upstream. -/
def quietEnd : UpEnd → Bool
  | .violation _ | .uncovered | .discontinuity | .tooLarge => false
  | _ => true

/-- The link ended.  A link that owes nothing is dropped; otherwise the session
fails over, or closes the client. -/
def onLinkEnd (s : Stitched) (reason : UpEnd) (closes : Bool) : Stitched :=
  match s.link with
  | none => s
  | some link =>
      let finished := !s.c.inProgress || (link.st.role = .frozen && link.st.legDone)
      if finished && quietEnd reason then
        { s.retireLink with
          phase := match s.phase with
            | .streaming => .idle
            | phase => phase }
      else if closes then s.close
      else { s.retireLink with phase := .backoff .failover }

/-- After a result was forwarded: the request is satisfied, or the leg reached
its clamped end and the next one is planned. -/
def afterResult (s : Stitched) (leg : LinkReq) (env : PlanEnv) : Stitched :=
  if !s.c.inProgress then
    { s with
      phase := match s.phase with
        | .streaming => .idle
        | phase => phase }
  else if leg.clamped && leg.end ≤ s.c.cursor then s.planAgain roles env .handoff
  else s

/-- The frozen deliveries after a result of `link`. -/
def deliveredAfter (s : Stitched) (link : Link) (fw : Forward) : List ArchiveDelivery :=
  match link.st.role, link.st.req, s.c.req with
  | .frozen, some request, some creq => s.delivered ++
      [{ block := fw.cls.n, up := link.st.up, request, planned := link.planned
         clientEnd := creq.end, finished := link.st.legDone }]
  | _, _, _ => s.delivered

/-- A binary message read from the link. -/
def onFrame (s : Stitched) (bytes : List UInt8) (answers : FleetAnswers) (env : PlanEnv)
    (closes : Bool) : Stitched :=
  match s.link, classifyUpstream bytes with
  | some link, .blocks h =>
      let lacking := match s.c.req with
        | some creq => lacks (env.view.up link.st.up) creq bytes h
        | none => fun _ => .nothing
      match onBlockResult s.c link.st { answers with lacks := lacking } h with
      | .forwarded c st fw =>
          let after : Stitched :=
            { s with
              c, link := some { link with st }, delivered := s.deliveredAfter link fw }
          match link.st.req with
          | some leg => after.afterResult roles leg env
          | none => after
      | .dropped st => { s with link := some { link with st } }
      | .ended reason => s.onLinkEnd reason closes
      | .ignored => s
  | some link, _ => if link.st.role = .frozen then s.onLinkEnd (.violation .variant) closes else s
  | none, _ => s

/-- Take over an established dial and send the leg it was for.  Without a leg
the link is kept for a following request. -/
def adoptLink (s : Stitched) (up : Nat) (step : Option PlannedLeg) (env : PlanEnv)
    (purpose : Purpose) (abiExcluded : Bool) : Stitched :=
  if abiExcluded then s.replan roles env purpose
  else
    let s := { s with link := some (connected roles up) }
    match step, s.c.inProgress with
    | some planned, true => s.sendRequest env.view planned.leg.reqEnd purpose (some planned)
    | _, _ => { s with phase := .idle }

/-- The dial finished: adopt it, or plan again when its upstream can no longer
serve the leg or was disabled meanwhile. -/
def onDialed (s : Stitched) (env : PlanEnv) (abiExcluded : Bool) : Stitched :=
  match s.dial with
  | none => s
  | some up =>
      let purpose := s.phase.dialPurpose
      let s' := { s with dial := none }
      let disabled := !(env.view.up up).any UpstreamView.routable
      match s.c.inProgress, s.phase.dialStep, disabled with
      | true, some planned, false =>
          match env.dialedLeg s.c planned.leg.up with
          | some planned => s'.adoptLink roles up (some planned) env purpose abiExcluded
          | none => s'.planAgain roles env purpose
      | true, step, true =>
          match env.plan s.c s.c.cursor with
          | .serve planned => s'.serve roles env.view planned purpose s.c.credit
          | _ => s'.adoptLink roles up step env purpose abiExcluded
      | _, step, _ => s'.adoptLink roles up step env purpose abiExcluded

/-- The dial failed: plan again, or hold after too many attempts. -/
def onDialFailed (s : Stitched) (env : PlanEnv) (retry busy : Bool) : Stitched :=
  match s.dial with
  | none => s
  | some _ =>
      let purpose := s.phase.dialPurpose
      let s := { s with dial := none }
      if retry then s.planAgain roles env purpose
      else s.applyStep roles env.view
        (.hold s.c.cursor (if busy then .busy else .offline) (!tipRegion env.view s.c.cursor))
        purpose s.c.credit

/-- Keep the dial for the leg it would now be sent, unless its upstream is seen
offline and another is online. -/
def keepDial (s : Stitched) (env : PlanEnv) (purpose : Purpose) (current : PlannedLeg) :
    Stitched :=
  match env.onlineInsteadOf s.c current.leg.up with
  | some other => s.serve roles env.view other purpose s.c.credit
  | none => { s with phase := .dialing purpose (some current) }

/-- A new view: waits plan again, holds only to go on, and a dial is kept while
its upstream can serve the cursor. -/
def onViewChange (s : Stitched) (env : PlanEnv) : Stitched :=
  match s.phase with
  | .waiting _ purpose => s.replan roles env purpose
  | .holding purpose =>
      match env.plan s.c s.c.cursor with
      | .hold _ _ _ => s
      | step => s.applyStep roles env.view step purpose s.c.credit
  | .dialing purpose (some planned) =>
      if !s.c.inProgress then s
      else
        match env.dialedLeg s.c planned.leg.up with
        | some current => s.keepDial roles env purpose current
        | none =>
            match env.plan s.c s.c.cursor with
            | .hold block why bounded =>
                if (env.view.up planned.leg.up).any fun u => u.enabled && u.operatorDisabled then s
                else s.applyStep roles env.view (.hold block why bounded) purpose s.c.credit
            | step => s.applyStep roles env.view step purpose s.c.credit
  | _ => s

/-- Serve the leg planned now, or close the client. -/
def serveOrClose (s : Stitched) (env : PlanEnv) (purpose : Purpose) : Stitched :=
  match env.plan s.c s.c.cursor with
  | .serve planned => s.serve roles env.view planned purpose s.c.credit
  | _ => s.close

/-- The deadline of a hold: one last try, or the client is closed. -/
def onHoldExpired (s : Stitched) (env : PlanEnv) (lastTry : Bool) : Stitched :=
  if lastTry then s.close
  else
    match s.phase with
    | .holding purpose => s.serveOrClose roles env purpose
    | .dialing purpose (some planned) =>
        match env.dialedLeg s.c planned.leg.up with
        | some current => s.keepDial roles env purpose current
        | none => s.serveOrClose roles env purpose
    | .dialing purpose none => s.serveOrClose roles env purpose
    | _ => s.close

end

/-! ## Runs -/

inductive Event where
  | request (r : BlocksRequest) (env : PlanEnv)
  | ack (n : Fin (2 ^ 32))
  /-- A status reply raised the marks. -/
  | marks (head lib : BlockPos)
  | frame (bytes : List UInt8) (answers : FleetAnswers) (env : PlanEnv) (closes : Bool)
  | linkEnd (reason : UpEnd) (closes : Bool)
  | backoffExpired (env : PlanEnv)
  | viewChange (env : PlanEnv)
  | retryHold (env : PlanEnv)
  | holdExpired (env : PlanEnv) (lastTry : Bool)
  | dialed (env : PlanEnv) (abiExcluded : Bool)
  | dialFailed (env : PlanEnv) (retry busy : Bool)
  | predial (up : Nat)
  | standbyUp
  | standbyGone
  /-- An unused link is closed. -/
  | lingerExpired

def step (roles : Nat → Role) (s : Stitched) : Event → Option Stitched
  | .request r env => some (s.onRequest roles r env)
  | .ack n => some { s with c := (s.c.ack n).1 }
  | .marks head lib => some { s with c := (headLibFor s.c .live head lib none true).1 }
  | .frame bytes answers env closes => some (s.onFrame roles bytes answers env closes)
  | .linkEnd reason closes => some (s.onLinkEnd reason closes)
  | .backoffExpired env =>
      match s.phase with
      | .backoff purpose => some (s.replan roles env purpose)
      | _ => none
  | .viewChange env => some (s.onViewChange roles env)
  | .retryHold env =>
      match s.phase with
      | .holding purpose => some (s.planAgain roles env purpose)
      | .waiting _ purpose => some (s.replan roles env purpose)
      | _ => none
  | .holdExpired env lastTry => if s.held then some (s.onHoldExpired roles env lastTry) else none
  | .dialed env abiExcluded => some (s.onDialed roles env abiExcluded)
  | .dialFailed env retry busy => some (s.onDialFailed roles env retry busy)
  | .predial up =>
      if s.standby.isNone && s.standbyDial.isNone then some { s with standbyDial := some up }
      else none
  | .standbyUp => some { s with standby := s.standbyDial, standbyDial := none }
  | .standbyGone => some s.discardStandby
  | .lingerExpired =>
      match s.phase with
      | .streaming => none
      | _ => some s.retireLink

def machine (roles : Nat → Role) : Machine Stitched Event where
  init s := s = fresh
  step s e :=
    match s.phase with
    | .closed => none
    | _ => s.step roles e

end Stitched

end FleetRouter.Session
