import FleetRouter.Lib.Transition
import FleetRouter.Fleet.Monitor

/-!
# The poll of an upstream

The monitor keeps a connection to each upstream.  It takes the ABI that an upstream sends first,
asks for a status, and asks again when the interval is over and the request was answered.  Whatever
goes wrong takes the upstream offline, and the monitor connects again.  It asks with
`get_status_request_v1` unless the upstream answers in the old form or does not answer at all.
A shutdown ends the monitor and leaves the upstream as it is; the monitor of the next generation
starts from there.
-/

namespace FleetRouter.Fleet

open Ship Transition

/-- The two requests for a status, variants 0 and 4. -/
inductive PollRequest where
  | v0
  | v1
  deriving DecidableEq, Repr

def statusV1MissLimit : Nat := 2

structure PollLimits where
  connectTimeout : Nat
  upstreamStatus : Nat
  deriving DecidableEq, Repr

inductive PollMessage where
  /-- A text that is accepted as an ABI or not. -/
  | text (loads : Bool)
  /-- A binary frame; `peer` is what the pool compares its chain id with. -/
  | binary (bytes : List UInt8) (peer : Option Checksum)
  | close
  | other
  deriving DecidableEq, Repr

inductive Inbound where
  | abiAccepted
  | abiRejected
  | status (variant : UInt8)
  | close
  | ignore
  deriving DecidableEq, Repr

/-- A connection of the monitor. -/
structure Connection where
  shipAbi : Bool
  abiReady : Bool
  statusInFlight : Bool
  sentV1 : Bool
  sawStatus : Bool
  abiDeadline : Nat
  statusDeadline : Nat
  nextStatusAt : Nat
  /-- The request that is being written; nothing else happens meanwhile. -/
  sending : Option PollRequest
  deriving DecidableEq, Repr

namespace Connection

def new (now : Nat) (limits : PollLimits) : Connection where
  shipAbi := false
  abiReady := false
  statusInFlight := false
  sentV1 := false
  sawStatus := false
  abiDeadline := now + limits.connectTimeout
  statusDeadline := now + limits.connectTimeout
  nextStatusAt := now + limits.connectTimeout
  sending := none

def wakeAt (c : Connection) : Nat :=
  if c.abiReady then if c.statusInFlight then c.statusDeadline else c.nextStatusAt
  else c.abiDeadline

def sent (c : Connection) (request : PollRequest) (now : Nat) (limits : PollLimits) : Connection :=
  { c with
    sending := none
    sentV1 := c.sentV1 || request = .v1
    statusInFlight := true
    statusDeadline := now + limits.upstreamStatus
    nextStatusAt := now + limits.upstreamStatus }

end Connection

/-! ## What goes over a connection -/

inductive Exchange where
  | asked (request : PollRequest) (time : Nat)
  | answered (variant : UInt8) (time : Nat)
  deriving DecidableEq, Repr

namespace Exchange

def askedAt : Exchange → Option Nat
  | asked _ time => some time
  | answered _ _ => none

def answeredAt : Exchange → Option Nat
  | asked _ _ => none
  | answered _ time => some time

def variant : Exchange → Option UInt8
  | asked _ _ => none
  | answered variant _ => some variant

def isV1 : Exchange → Bool
  | asked request _ => request = .v1
  | answered _ _ => false

end Exchange

/-- The requests and statuses of one connection, the last first. -/
abbrev Talk := List Exchange

namespace Talk

variable {talk : Talk} {interval time : Nat} {request : PollRequest} {variant : UInt8}

/-- When requests were sent. -/
def asked (talk : Talk) : List Nat := talk.filterMap Exchange.askedAt

/-- When statuses came. -/
def answered (talk : Talk) : List Nat := talk.filterMap Exchange.answeredAt

def isAnswered (talk : Talk) : Bool := talk.any fun e => e.variant.isSome

def asksV1 (talk : Talk) : Bool := talk.any Exchange.isV1

/-- After a request a status comes before the next one is sent, and the interval passes. -/
def InTurn (interval : Nat) (talk : Talk) : Prop :=
  ∀ later between earlier request time request' time',
    talk = later ++ .asked request time :: between ++ .asked request' time' :: earlier →
      isAnswered between = true ∧ time' + interval ≤ time

theorem inTurn_nil : InTurn interval [] := by
  intro later between earlier request time request' time' split
  simp at split

theorem InTurn.cons_answered (inTurn : talk.InTurn interval) :
    InTurn interval (.answered variant time :: talk) := by
  intro later between earlier request time request' time' split
  cases later with
  | nil => cases split
  | cons first later =>
      injection split with _ split
      exact inTurn later between earlier request time request' time' split

theorem InTurn.cons_asked (inTurn : talk.InTurn interval)
    (next : ∀ between earlier request' time', talk = between ++ .asked request' time' :: earlier →
      isAnswered between = true ∧ time' + interval ≤ time) :
    InTurn interval (.asked request time :: talk) := by
  intro later between earlier request time request' time' split
  cases later with
  | nil =>
      injection split with same split
      cases same
      exact next between earlier request' time' split
  | cons first later =>
      injection split with _ split
      exact inTurn later between earlier request time request' time' split

/-- The last status of these connections, of which the last comes first. -/
def lastResult (talks : List Talk) : Option UInt8 := talks.flatten.findSome? Exchange.variant

/-- How many connections brought no status though v1 was asked for on them: those before the
current one and after the last one that brought a status. -/
def missed (talks : List Talk) : Nat :=
  (talks.takeWhile fun talk => !talk.isAnswered).tail.countP asksV1

variable {history : List Talk}

@[simp] theorem missed_cons_asked :
    missed ((.asked request time :: talk) :: history) = missed (talk :: history) := by
  have same : isAnswered (.asked request time :: talk) = isAnswered talk := rfl
  rw [missed, missed, List.takeWhile_cons, List.takeWhile_cons, same]
  split <;> rfl

theorem missed_of_isAnswered (isAnswered : talk.isAnswered = true) :
    missed (talk :: history) = 0 := by
  rw [missed, List.takeWhile_cons, isAnswered]
  rfl

/-- The next connection begins. -/
theorem missed_nil_cons (talk : Talk) (history : List Talk) :
    missed ([] :: talk :: history) =
      if talk.isAnswered then 0 else talk.asksV1.toNat + missed (talk :: history) := by
  rw [missed, missed, List.takeWhile_cons, List.takeWhile_cons]
  change List.countP asksV1 (if (!talk.isAnswered) = true then _ else _) = _
  cases talk.isAnswered with
  | true => rfl
  | false =>
      change List.countP asksV1 (talk :: _) = talk.asksV1.toNat + List.countP asksV1 _
      rw [List.countP_cons, Nat.add_comm]
      cases talk.asksV1 <;> rfl

end Talk

/-! ## The monitoring loop -/

inductive MonitorPhase where
  | connecting (deadline : Nat)
  | session (c : Connection)
  /-- Before the next connection. -/
  | pausing
  | stopped
  deriving DecidableEq, Repr

def MonitorPhase.isConnecting : MonitorPhase → Bool
  | connecting _ => true
  | session _ | pausing | stopped => false

/-- The monitor of one upstream, and what it said and heard.  It starts at 0. -/
structure Poll where
  limits : PollLimits
  now : Nat
  upstream : Monitored
  statusRequest : PollRequest
  unansweredV1Sessions : Nat
  phase : MonitorPhase
  /-- Of the current connection. -/
  talk : Talk
  /-- Of the connections that ended, the last first. -/
  history : List Talk
  /-- The upstream was online in the generation before. -/
  inheritedOnline : Bool
  deriving DecidableEq, Repr

inductive PollEvent where
  | tick (time : Nat)
  /-- The pause is over. -/
  | connect
  | connected
  | connectFailed
  | message (m : PollMessage)
  /-- The socket ends or fails. -/
  | disconnected
  | wake
  /-- The request is written, or cannot be. -/
  | sent (ok : Bool)
  /-- A client session loses the upstream. -/
  | lost
  | shutdown
  deriving DecidableEq, Repr

namespace Poll

variable (s : Poll)

def start (limits : PollLimits) (upstream : Monitored) : Poll where
  limits
  now := 0
  upstream
  statusRequest := .v1
  unansweredV1Sessions := 0
  phase := .connecting limits.connectTimeout
  talk := []
  history := []
  inheritedOnline := upstream.online

def connection : Option Connection :=
  match s.phase with
  | .session c => some c
  | .connecting _ | .pausing | .stopped => none

def markOffline : Poll := { s with upstream := s.upstream.markOffline s.now }

/-- The end of a connection: after two on which v1 requests were not answered the monitor keeps to
v0. -/
def reconnect (c : Connection) : Poll :=
  let s := { s.markOffline with phase := .pausing, talk := [], history := s.talk :: s.history }
  let unansweredV1 := c.sentV1 && !c.sawStatus
  if unansweredV1 && s.statusRequest = .v1 then
    let misses := min (s.unansweredV1Sessions + 1) Session.u32Max
    if statusV1MissLimit ≤ misses then
      { s with
        unansweredV1Sessions := misses
        statusRequest := .v0
        upstream := { s.upstream with statusV1 := some false } }
    else { s with unansweredV1Sessions := misses }
  else if c.sawStatus then { s with unansweredV1Sessions := 0 }
  else s

def sendStatus (c : Connection) : Poll :=
  { s with phase := .session { c with sending := some s.statusRequest } }

/-- What a message is, with the ABI and the state of the upstream it is stored in. -/
def handleMonitoringMsg (c : Connection) : PollMessage → Poll × Connection × Inbound
  | .text loads =>
      if c.shipAbi then (s, c, .ignore)
      else (s, { c with shipAbi := true }, if loads then .abiAccepted else .abiRejected)
  | .binary bytes peer =>
      match readStatusFrame bytes with
      | .ok (some (variant, none)) => (s, c, .status variant)
      | .ok (some (variant, some report)) =>
          ({ s with upstream := s.upstream.applyReport peer variant report s.now }, c,
            .status variant)
      | .ok none | .error _ => (s, c, .ignore)
  | .close => (s, c, .close)
  | .other => (s, c, .ignore)

def onStatus (c : Connection) (variant : UInt8) : Poll :=
  { s with
    phase := .session { c with statusInFlight := false, sawStatus := true }
    statusRequest := if variant = 0 then .v0 else .v1
    talk := .answered variant s.now :: s.talk }

def onMessage (c : Connection) (m : PollMessage) : Poll :=
  match s.handleMonitoringMsg c m with
  | (s, c, .abiAccepted) => s.sendStatus { c with abiReady := true }
  | (s, c, .status variant) => s.onStatus c variant
  | (s, c, .abiRejected) | (s, c, .close) => s.reconnect c
  | (s, c, .ignore) => { s with phase := .session c }

def onWake (c : Connection) : Poll :=
  if !c.abiReady || c.statusInFlight then s.reconnect c else s.sendStatus c

def onSent (c : Connection) (request : PollRequest) (ok : Bool) : Poll :=
  if ok then
    { s with
      phase := .session (c.sent request s.now s.limits)
      talk := .asked request s.now :: s.talk }
  else s.reconnect { c with sending := none }

def step : PollEvent → Option Poll
  | .tick time => some { s with now := s.now + time }
  | .lost => some s.markOffline
  | .connect =>
      if s.phase = .pausing then
        some { s with phase := .connecting (s.now + s.limits.connectTimeout) }
      else none
  | .connected =>
      if s.phase.isConnecting then some { s with phase := .session (.new s.now s.limits) } else none
  | .connectFailed =>
      if s.phase.isConnecting then some { s.markOffline with phase := .pausing } else none
  | .message m =>
      (s.connection.filter fun c => c.sending.isNone).map fun c => s.onMessage c m
  | .disconnected => (s.connection.filter fun c => c.sending.isNone).map s.reconnect
  | .wake =>
      (s.connection.filter fun c => c.sending.isNone && decide (c.wakeAt ≤ s.now)).map s.onWake
  | .sent ok =>
      s.connection.bind fun c => c.sending.map fun request => s.onSent c request ok
  | .shutdown =>
      if s.connection.all fun c => c.sending.isNone then some { s with phase := .stopped } else none

/-- Whether a frame is a status. -/
def isStatus (bytes : List UInt8) : Bool :=
  match readStatusFrame bytes with
  | .ok (some _) => true
  | .ok none | .error _ => false

/-- When the loop wakes by itself. -/
def deadline : Option Nat :=
  match s.phase with
  | .connecting deadline => some deadline
  | .session c => some c.wakeAt
  | .pausing | .stopped => none

/-- Timers are on time, requests are written at once, and the upstream sends a status only when
asked for one. -/
def Prompt : PollEvent → Prop
  | .tick time =>
      (∀ c ∈ s.connection, c.sending = none) ∧ ∀ deadline ∈ s.deadline, s.now + time ≤ deadline
  | .message (.binary bytes _) =>
      isStatus bytes = true → s.talk.answered.length < s.talk.asked.length
  | _ => True

end Poll

/-- A monitor starts from what earlier generations of its listener last saw of the upstream. -/
def pollMachine (limits : PollLimits) (server : Server) : Machine Poll PollEvent where
  init s := ∃ index expectedChainId requireChainId, ∃ previous : List Monitored,
    s = .start limits
      (previous.foldl Monitored.inherit (server.fresh index expectedChainId requireChainId))
  step := Poll.step

namespace Poll

variable {s s' : Poll} {e : PollEvent} {c : Connection}

theorem connection_eq_some : s.connection = some c ↔ s.phase = .session c := by
  unfold connection
  cases s.phase <;> simp

/-- What a step can do. -/
inductive Moves (s : Poll) : PollEvent → Poll → Prop where
  | tick {time : Nat} : Moves s (.tick time) { s with now := s.now + time }
  | lost {e : PollEvent} : Moves s e s.markOffline
  | connect {e : PollEvent} (pauses : s.phase = .pausing) :
      Moves s e { s with phase := .connecting (s.now + s.limits.connectTimeout) }
  | connected {e : PollEvent} {deadline : Nat} (connects : s.phase = .connecting deadline) :
      Moves s e { s with phase := .session (.new s.now s.limits) }
  | failed {e : PollEvent} {deadline : Nat} (connects : s.phase = .connecting deadline) :
      Moves s e { s.markOffline with phase := .pausing }
  | stopped {e : PollEvent} : Moves s e { s with phase := .stopped }
  | ignored {e : PollEvent} {c : Connection} (isUp : s.phase = .session c) (shipAbi : Bool)
      (seen : c.shipAbi = true → shipAbi = true) :
      Moves s e { s with phase := .session { c with shipAbi } }
  | asksFirst {e : PollEvent} {c : Connection} (isUp : s.phase = .session c)
      (idle : c.sending = none) (first : c.shipAbi = false) :
      Moves s e (s.sendStatus { c with shipAbi := true, abiReady := true })
  | asksAgain {e : PollEvent} {c : Connection} (isUp : s.phase = .session c)
      (idle : c.sending = none) (ready : c.abiReady = true) (answered : c.statusInFlight = false)
      (due : c.nextStatusAt ≤ s.now) : Moves s e (s.sendStatus c)
  | status {c : Connection} {bytes : List UInt8} {peer : Option Checksum} {variant : UInt8}
      {report : Option StatusReport} (isUp : s.phase = .session c) (idle : c.sending = none)
      (isStatus : readStatusFrame bytes = .ok (some (variant, report))) (upstream : Monitored) :
      Moves s (.message (.binary bytes peer)) ({ s with upstream }.onStatus c variant)
  | ended {e : PollEvent} {c : Connection} (isUp : s.phase = .session c) (shipAbi : Bool)
      (sending : Option PollRequest) : Moves s e (s.reconnect { c with shipAbi, sending })
  | sent {e : PollEvent} {c : Connection} {request : PollRequest} (isUp : s.phase = .session c)
      (isSending : c.sending = some request) :
      Moves s e
        { s with
          phase := .session (c.sent request s.now s.limits)
          talk := .asked request s.now :: s.talk }

theorem moves_onMessage (isUp : s.phase = .session c) (idle : c.sending = none)
    (m : PollMessage) : Moves s (.message m) (s.onMessage c m) := by
  have same {e : PollEvent} : Moves s e { s with phase := .session c } :=
    .ignored isUp c.shipAbi id
  cases m with
  | text loads =>
      cases isSeen : c.shipAbi with
      | true => simpa [onMessage, handleMonitoringMsg, isSeen] using same
      | false =>
          cases loads with
          | true =>
              simpa [onMessage, handleMonitoringMsg, isSeen] using .asksFirst isUp idle isSeen
          | false =>
              simpa [onMessage, handleMonitoringMsg, isSeen] using .ended isUp true c.sending
  | binary bytes peer =>
      rcases isFrame : readStatusFrame bytes with error | _ | ⟨variant, _ | report⟩
      · simpa [onMessage, handleMonitoringMsg, isFrame] using same
      · simpa [onMessage, handleMonitoringMsg, isFrame] using same
      · simpa [onMessage, handleMonitoringMsg, isFrame] using
          Moves.status isUp idle isFrame s.upstream
      · simpa [onMessage, handleMonitoringMsg, isFrame] using
          Moves.status isUp idle isFrame (s.upstream.applyReport peer variant report s.now)
  | close => exact .ended isUp c.shipAbi c.sending
  | other => exact same

theorem connecting_of_isConnecting {phase : MonitorPhase} (connects : phase.isConnecting = true) :
    ∃ deadline, phase = .connecting deadline := by
  cases phase with
  | connecting deadline => exact ⟨deadline, rfl⟩
  | session | pausing | stopped => cases connects

theorem moves (step : s.step e = some s') : s.Moves e s' := by
  cases e with
  | tick time =>
      cases step
      exact .tick
  | lost =>
      cases step
      exact .lost
  | connect =>
      simp only [Poll.step, Option.ite_none_right_eq_some] at step
      cases step.2
      exact .connect step.1
  | connected =>
      simp only [Poll.step, Option.ite_none_right_eq_some] at step
      obtain ⟨deadline, connects⟩ := connecting_of_isConnecting step.1
      cases step.2
      exact .connected connects
  | connectFailed =>
      simp only [Poll.step, Option.ite_none_right_eq_some] at step
      obtain ⟨deadline, connects⟩ := connecting_of_isConnecting step.1
      cases step.2
      exact .failed connects
  | message m =>
      simp only [Poll.step, Option.map_eq_some_iff, Option.filter_eq_some_iff,
        Option.isNone_iff_eq_none, connection_eq_some] at step
      obtain ⟨c, ⟨isUp, idle⟩, rfl⟩ := step
      exact moves_onMessage isUp idle m
  | disconnected =>
      simp only [Poll.step, Option.map_eq_some_iff, Option.filter_eq_some_iff,
        connection_eq_some] at step
      obtain ⟨c, ⟨isUp, _⟩, rfl⟩ := step
      exact .ended isUp c.shipAbi c.sending
  | wake =>
      simp only [Poll.step, Option.map_eq_some_iff, Option.filter_eq_some_iff, Bool.and_eq_true,
        Option.isNone_iff_eq_none, decide_eq_true_eq, connection_eq_some] at step
      obtain ⟨c, ⟨isUp, idle, due⟩, rfl⟩ := step
      unfold onWake
      split
      · exact .ended isUp c.shipAbi c.sending
      · rename_i goesOn
        simp only [Bool.or_eq_true, Bool.not_eq_true', not_or, Bool.not_eq_false,
          Bool.not_eq_true] at goesOn
        refine .asksAgain isUp idle goesOn.1 goesOn.2 ?_
        simpa [Connection.wakeAt, goesOn.1, goesOn.2] using due
  | sent ok =>
      simp only [Poll.step, Option.bind_eq_some_iff, Option.map_eq_some_iff,
        connection_eq_some] at step
      obtain ⟨c, isUp, request, isSending, rfl⟩ := step
      cases ok with
      | true => exact .sent isUp isSending
      | false => exact .ended isUp c.shipAbi none
  | shutdown =>
      simp only [Poll.step, Option.ite_none_right_eq_some] at step
      cases step.2
      exact .stopped

/-- Whether v1 is asked for, was asked for on the connection that ends, and brought no status. -/
def missesV1 (s : Poll) (c : Connection) : Bool :=
  c.sentV1 && !c.sawStatus && s.statusRequest = .v1

/-- The end of a connection, up to what is told of the upstream's versions. -/
theorem reconnect_eq (s : Poll) (c : Connection) :
    ∃ statusV1, s.reconnect c =
      { s.markOffline with
        phase := .pausing
        talk := []
        history := s.talk :: s.history
        statusRequest :=
          if s.missesV1 c && 1 ≤ s.unansweredV1Sessions then .v0 else s.statusRequest
        unansweredV1Sessions :=
          if s.missesV1 c then min (s.unansweredV1Sessions + 1) Session.u32Max
          else if c.sawStatus then 0 else s.unansweredV1Sessions
        upstream := { s.markOffline.upstream with statusV1 } } := by
  have limit : statusV1MissLimit ≤ min (s.unansweredV1Sessions + 1) Session.u32Max ↔
      1 ≤ s.unansweredV1Sessions := by
    unfold statusV1MissLimit Session.u32Max
    omega
  have misses : (c.sentV1 && !c.sawStatus && decide (s.markOffline.statusRequest = .v1)) =
      s.missesV1 c := rfl
  unfold reconnect
  simp only [misses]
  cases s.missesV1 c with
  | true =>
      by_cases again : 1 ≤ s.unansweredV1Sessions
      · exact ⟨some false, by simp [again, limit, markOffline]⟩
      · exact ⟨s.markOffline.upstream.statusV1, by simp [again, limit, markOffline]⟩
  | false =>
      refine ⟨s.markOffline.upstream.statusV1, ?_⟩
      cases c.sawStatus <;> simp [markOffline]

/-! ## One request at a time -/

/-- The requests of a connection. -/
structure Asks (s : Poll) (c : Connection) : Prop where
  seen : c.abiReady = true → c.shipAbi = true
  unready : c.abiReady = false → s.talk.asked = [] ∧ c.sending = none ∧ c.statusInFlight = false
  begun : c.abiReady = true → c.sending = none → s.talk.asked ≠ []
  idle : c.sending ≠ none → c.statusInFlight = false
  answered : c.statusInFlight = false → ∀ between earlier request time,
    s.talk = between ++ .asked request time :: earlier → Talk.isAnswered between = true
  past : ∀ t ∈ s.talk.asked, t ≤ s.now ∧ t + s.limits.upstreamStatus ≤ c.nextStatusAt
  last : ∀ t ∈ s.talk.asked.head?, c.statusDeadline = t + s.limits.upstreamStatus ∧
    c.nextStatusAt = t + s.limits.upstreamStatus
  due : c.sending ≠ none → ∀ t ∈ s.talk.asked, t + s.limits.upstreamStatus ≤ s.now

structure Paced (s : Poll) : Prop where
  inTurn : ∀ talk ∈ s.talk :: s.history, talk.InTurn s.limits.upstreamStatus
  pausing : s.phase = .pausing → s.talk = []
  connecting : ∀ deadline, s.phase = .connecting deadline → s.talk = []
  up : ∀ c, s.phase = .session c → s.Asks c

theorem Asks.unready_of_first (asks : s.Asks c) (first : c.shipAbi = false) :
    c.abiReady = false :=
  Bool.eq_false_of_not_eq_true fun ready => by simp [asks.seen ready] at first

theorem Asks.ready_of_sending (asks : s.Asks c) (sends : c.sending ≠ none) :
    c.abiReady = true :=
  Bool.eq_true_of_not_eq_false fun unready => sends (asks.unready unready).2.1

theorem Asks.ready_of_asked (asks : s.Asks c) (asked : s.talk.asked ≠ []) :
    c.abiReady = true :=
  Bool.eq_true_of_not_eq_false fun unready => asked (asks.unready unready).1

theorem Asks.paced (asks : s.Asks c) (isUp : s.phase = .session c)
    (inTurn : ∀ talk ∈ s.talk :: s.history, talk.InTurn s.limits.upstreamStatus) : s.Paced where
  inTurn := inTurn
  pausing := by simp [isUp]
  connecting := by simp [isUp]
  up := by
    rw [isUp]
    rintro _ ⟨⟩
    exact asks

theorem Paced.moves (paced : s.Paced) (moves : s.Moves e s') : s'.Paced := by
  have inTurn := paced.inTurn
  cases moves with
  | @tick time =>
      refine { paced with up := fun c isUp => ?_ }
      have asks := paced.up c isUp
      exact
        { asks with
          past := fun t member => ⟨(asks.past t member).1.trans (Nat.le_add_right _ _),
            (asks.past t member).2⟩
          due := fun isSending t member =>
            (asks.due isSending t member).trans (Nat.le_add_right _ _) }
  | lost =>
      refine ⟨inTurn, paced.pausing, paced.connecting, fun c isUp => ?_⟩
      have asks := paced.up c isUp
      exact { asks with }
  | connect pauses => exact ⟨inTurn, nofun, fun _ _ => paced.pausing pauses, nofun⟩
  | failed connects => exact ⟨inTurn, fun _ => paced.connecting _ connects, nofun, nofun⟩
  | stopped => exact ⟨inTurn, nofun, nofun, nofun⟩
  | connected connects =>
      refine Asks.paced ?_ rfl inTurn
      have silent := paced.connecting _ connects
      exact
        { seen := fun ready => Bool.noConfusion ready
          unready := fun _ => ⟨by simp [silent, Talk.asked], rfl, rfl⟩
          begun := fun ready => Bool.noConfusion ready
          idle := fun _ => rfl
          answered := fun _ between earlier request time split => by simp [silent] at split
          past := by simp [silent, Talk.asked]
          last := by simp [silent, Talk.asked]
          due := fun isSending => absurd rfl isSending }
  | ignored isUp shipAbi seen =>
      refine Asks.paced ?_ rfl inTurn
      have asks := paced.up _ isUp
      exact { asks with seen := fun ready => seen (asks.seen ready) }
  | @asksFirst _ c isUp idle first =>
      refine Asks.paced ?_ rfl inTurn
      have asks := paced.up _ isUp
      obtain ⟨none, -, noFlight⟩ := asks.unready (asks.unready_of_first first)
      exact
        { asks with
          seen := fun _ => rfl
          unready := fun unready => Bool.noConfusion unready
          begun := fun _ idle => absurd idle (Option.some_ne_none _)
          idle := fun _ => noFlight
          due := by simp [sendStatus, none] }
  | asksAgain isUp idle ready answered due =>
      refine Asks.paced ?_ rfl inTurn
      have asks := paced.up _ isUp
      exact
        { asks with
          unready := fun unready => by simp [ready] at unready
          begun := fun _ idle => absurd idle (Option.some_ne_none _)
          idle := fun _ => answered
          due := fun _ t member => (asks.past t member).2.trans due }
  | @status c bytes peer variant report isUp idle isStatus upstream =>
      rw [List.forall_mem_cons] at inTurn
      refine Asks.paced ?_ rfl (List.forall_mem_cons.mpr ⟨inTurn.1.cons_answered, inTurn.2⟩)
      have asks := paced.up _ isUp
      exact
        { seen := asks.seen
          unready := fun unready => ⟨(asks.unready unready).1, idle, rfl⟩
          begun := asks.begun
          idle := fun _ => rfl
          answered := by
            rintro - (_ | ⟨first, between⟩) earlier request time split
            · cases split
            · injection split with isFirst
              subst isFirst
              rfl
          past := asks.past
          last := asks.last
          due := fun isSending => absurd idle isSending }
  | @ended _ c isUp shipAbi sending =>
      obtain ⟨statusV1, ended⟩ := s.reconnect_eq { c with shipAbi, sending }
      rw [ended]
      exact ⟨List.forall_mem_cons.mpr ⟨Talk.inTurn_nil, inTurn⟩, fun _ => rfl, nofun, nofun⟩
  | @sent _ c request isUp isSending =>
      have asks := paced.up _ isUp
      have sends : c.sending ≠ none := by simp [isSending]
      have ready := asks.ready_of_sending sends
      have due := asks.due sends
      rw [List.forall_mem_cons] at inTurn
      have next : Talk.InTurn s.limits.upstreamStatus (.asked request s.now :: s.talk) :=
        inTurn.1.cons_asked fun between earlier request' time' split =>
          ⟨asks.answered (asks.idle sends) between earlier request' time' split,
            due time' (List.mem_filterMap.mpr ⟨.asked request' time', by simp [split], rfl⟩)⟩
      refine Asks.paced ?_ rfl (List.forall_mem_cons.mpr ⟨next, inTurn.2⟩)
      exact
        { seen := asks.seen
          unready := fun unready => by simp [Connection.sent, ready] at unready
          begun := fun _ _ => List.cons_ne_nil _ _
          idle := fun isSome => absurd rfl isSome
          answered := fun noFlight => Bool.noConfusion noFlight
          past := by
            intro t member
            cases member with
            | head => exact ⟨le_rfl, le_rfl⟩
            | tail _ before =>
                exact ⟨(asks.past t before).1, Nat.add_le_add_right (asks.past t before).1 _⟩
          last := by
            rintro t ⟨⟩
            exact ⟨rfl, rfl⟩
          due := fun isSome => absurd rfl isSome }

variable {limits : PollLimits} {server : Server} {allowed : Poll → PollEvent → Prop}

theorem paced (reachable : Reachable (pollMachine limits server) allowed s) : s.Paced := by
  apply reachable.invariant (P := Paced)
  · rintro s ⟨index, expectedChainId, requireChainId, previous, rfl⟩
    exact ⟨List.forall_mem_singleton.mpr Talk.inTurn_nil, nofun, fun _ _ => rfl, nofun⟩
  · exact fun s e s' _ paced _ step => paced.moves (Poll.moves step)

/-- However long writing a request takes, however late timers are and whatever the upstream sends:
on every connection a status came between two requests, and the interval passed. -/
theorem one_request_in_flight (reachable : Reachable (pollMachine limits server) allowed s) :
    ∀ talk ∈ s.talk :: s.history, talk.InTurn s.limits.upstreamStatus :=
  (paced reachable).inTurn

/-! ## Online -/

/-- The upstream has been online since before the monitor started: this is its first connection,
and no status came yet. -/
structure Inherited (s : Poll) (c : Connection) : Prop where
  online : s.inheritedOnline = true
  first : s.history = []
  unanswered : s.talk.answered = []
  abiDeadline : c.abiDeadline ≤ 2 * s.limits.connectTimeout
  asked : ∀ t ∈ s.talk.asked.head?, t ≤ 2 * s.limits.connectTimeout
  sending : c.sending ≠ none → s.now ≤ 2 * s.limits.connectTimeout

/-- How recent the last answer on a connection is. -/
structure Recent (s : Poll) (c : Connection) : Prop where
  honest : s.talk.answered.length ≤ s.talk.asked.length
  online : s.upstream.online = true → s.talk.answered ≠ [] ∨ s.Inherited c
  inTime : c.sending = none → s.now ≤ c.wakeAt
  idle : c.statusInFlight = false →
    ∀ a ∈ s.talk.answered.head?, ∀ t ∈ s.talk.asked.head?, t ≤ a
  waiting : ∀ a ∈ s.talk.answered.head?, ∀ t ∈ s.talk.asked.head?, t ≤ a + s.limits.upstreamStatus
  sending : c.sending ≠ none → ∀ a ∈ s.talk.answered.head?, s.now ≤ a + s.limits.upstreamStatus

structure Watched (s : Poll) : Prop where
  pausing : s.phase = .pausing → s.upstream.online = false
  connecting : ∀ deadline, s.phase = .connecting deadline → s.now ≤ deadline ∧
    (s.upstream.online = true → s.inheritedOnline = true ∧ s.history = [] ∧
      deadline = s.limits.connectTimeout)
  up : ∀ c, s.phase = .session c → s.Recent c

theorem wakeAt_eq (asks : s.Asks c) (ready : c.abiReady = true) {t : Nat}
    (isLast : s.talk.asked.head? = some t) : c.wakeAt = t + s.limits.upstreamStatus := by
  have deadlines := asks.last t isLast
  unfold Connection.wakeAt
  rw [if_pos ready]
  split
  · exact deadlines.1
  · exact deadlines.2

/-- A request that no status followed is still waited for. -/
theorem Asks.answered_ne_nil (asks : s.Asks c) (asked : s.talk.asked ≠ [])
    (idle : c.statusInFlight = false) : s.talk.answered ≠ [] := by
  obtain ⟨t, member⟩ := List.exists_mem_of_ne_nil _ asked
  obtain ⟨exchange, isIn, isAsked⟩ := List.mem_filterMap.mp member
  cases exchange with
  | answered variant time => cases isAsked
  | asked request time =>
      obtain ⟨between, earlier, split⟩ := List.append_of_mem isIn
      have isAnswered := asks.answered idle between earlier request time split
      obtain ⟨answer, isAnswer, hasVariant⟩ := List.any_eq_true.mp isAnswered
      cases answer with
      | asked _ _ => cases hasVariant
      | answered variant time =>
          have member : time ∈ s.talk.answered :=
            List.mem_filterMap.mpr ⟨_, split ▸ List.mem_append_left _ isAnswer, rfl⟩
          exact List.ne_nil_of_mem member

theorem Recent.watched (recent : s.Recent c) (isUp : s.phase = .session c) :
    s.Watched where
  pausing := by simp [isUp]
  connecting := by simp [isUp]
  up := by
    rw [isUp]
    rintro _ ⟨⟩
    exact recent

theorem Watched.moves (watched : s.Watched) (paced : s.Paced) (prompt : s.Prompt e)
    (moves : s.Moves e s') : s'.Watched := by
  cases moves with
  | @tick time =>
      refine ⟨watched.pausing, fun deadline connects => ?_, fun c isUp => ?_⟩
      · refine ⟨prompt.2 deadline ?_, (watched.connecting deadline connects).2⟩
        have connects : s.phase = .connecting deadline := connects
        simp [Poll.deadline, connects]
      · have recent := watched.up c isUp
        have isUp : s.phase = .session c := isUp
        have idle := prompt.1 c (connection_eq_some.mpr isUp)
        exact
          { recent with
            online := fun online => (recent.online online).imp_right fun inherited =>
              { inherited with sending := fun sends => absurd idle sends }
            inTime := fun _ => prompt.2 _ (by simp [Poll.deadline, isUp])
            sending := fun sends => absurd idle sends }
  | lost =>
      refine ⟨fun _ => rfl, fun deadline connects => ⟨(watched.connecting _ connects).1, nofun⟩,
        fun c isUp => ?_⟩
      have recent := watched.up c isUp
      exact { recent with online := fun online => Bool.noConfusion online }
  | connect pauses =>
      refine ⟨nofun, ?_, nofun⟩
      rintro _ ⟨⟩
      exact ⟨Nat.le_add_right _ _, fun online => by simp [watched.pausing pauses] at online⟩
  | failed connects => exact ⟨fun _ => rfl, nofun, nofun⟩
  | stopped => exact ⟨nofun, nofun, nofun⟩
  | @connected _ deadline connects =>
      refine Recent.watched ?_ rfl
      have silent := paced.connecting _ connects
      obtain ⟨inTime, inherits⟩ := watched.connecting _ connects
      exact
        { honest := by simp [silent, Talk.answered]
          online := by
            intro online
            obtain ⟨wasOnline, first, isDeadline⟩ := inherits online
            refine .inr ⟨wasOnline, first, by simp [silent, Talk.answered], ?_,
              by simp [silent, Talk.asked], fun sends => absurd rfl sends⟩
            change s.now + s.limits.connectTimeout ≤ 2 * s.limits.connectTimeout
            omega
          inTime := fun _ => Nat.le_add_right _ _
          idle := by simp [silent, Talk.answered]
          waiting := by simp [silent, Talk.answered]
          sending := fun sends => absurd rfl sends }
  | ignored isUp shipAbi seen =>
      refine Recent.watched ?_ rfl
      have recent := watched.up _ isUp
      exact { recent with online := fun online =>
        (recent.online online).imp_right fun i => { i with } }
  | @asksFirst _ c isUp idle first =>
      refine Recent.watched ?_ rfl
      have recent := watched.up _ isUp
      have asks := paced.up _ isUp
      have unready := asks.unready_of_first first
      have unanswered : s.talk.answered = [] := by
        simpa [(asks.unready unready).1] using recent.honest
      have inTime := recent.inTime idle
      rw [Connection.wakeAt, if_neg (by simp [unready])] at inTime
      exact
        { honest := recent.honest
          online := fun online => (recent.online online).imp_right fun inherited =>
            { inherited with sending := fun _ => inTime.trans inherited.abiDeadline }
          inTime := fun idle => absurd idle (Option.some_ne_none _)
          idle := by simp [sendStatus, unanswered]
          waiting := recent.waiting
          sending := by simp [sendStatus, unanswered] }
  | @asksAgain _ c isUp idle ready answered due =>
      refine Recent.watched ?_ rfl
      have recent := watched.up _ isUp
      have asks := paced.up _ isUp
      have begun := asks.begun ready idle
      have isLast := List.head?_eq_some_head begun
      have inTime := recent.inTime idle
      rw [wakeAt_eq asks ready isLast] at inTime
      exact
        { recent with
          online := fun _ => .inl (asks.answered_ne_nil begun answered)
          inTime := fun idle => absurd idle (Option.some_ne_none _)
          sending := fun _ a isAnswer =>
            inTime.trans (Nat.add_le_add_right (recent.idle answered a isAnswer _ isLast) _) }
  | @status c bytes peer variant report isUp idle isStatus upstream =>
      refine Recent.watched ?_ rfl
      have recent := watched.up _ isUp
      have asks := paced.up _ isUp
      have outstanding : s.talk.answered.length < s.talk.asked.length := by
        apply prompt
        simp [Poll.isStatus, isStatus]
      have ready : c.abiReady = true :=
        asks.ready_of_asked (List.ne_nil_of_length_pos (Nat.zero_lt_of_lt outstanding))
      have isLast := List.head?_eq_some_head (asks.begun ready idle)
      have inTime := recent.inTime idle
      rw [wakeAt_eq asks ready isLast] at inTime
      have before : ∀ a ∈ (s.now :: s.talk.answered).head?, ∀ t ∈ s.talk.asked.head?, t ≤ a := by
        rintro _ ⟨⟩ t isAsked
        exact (asks.past t (List.mem_of_head? isAsked)).1
      exact
        { honest := outstanding
          online := fun _ => .inl (List.cons_ne_nil _ _)
          inTime := by
            intro _
            have later := (asks.last _ isLast).2
            simp only [Connection.wakeAt, ready, if_true]
            exact later ▸ inTime
          idle := fun _ => before
          waiting := fun a isAnswer t isAsked =>
            (before a isAnswer t isAsked).trans (Nat.le_add_right _ _)
          sending := fun sends => absurd idle sends }
  | @ended _ c isUp shipAbi sending =>
      obtain ⟨statusV1, ended⟩ := s.reconnect_eq { c with shipAbi, sending }
      rw [ended]
      exact ⟨fun _ => rfl, nofun, nofun⟩
  | @sent _ c request isUp isSending =>
      refine Recent.watched ?_ rfl
      have recent := watched.up _ isUp
      have asks := paced.up _ isUp
      have sends : c.sending ≠ none := by simp [isSending]
      have ready := asks.ready_of_sending sends
      exact
        { honest := recent.honest.trans (Nat.le_succ _)
          online := fun online => (recent.online online).imp_right fun inherited =>
            { inherited with
              asked := by
                rintro t ⟨⟩
                exact inherited.sending sends
              sending := fun isSome => absurd rfl isSome }
          inTime := by
            intro _
            simp [Connection.wakeAt, Connection.sent, ready]
          idle := fun isIdle => Bool.noConfusion isIdle
          waiting := by
            rintro a isAnswer t ⟨⟩
            exact recent.sending sends a isAnswer
          sending := fun isSome => absurd rfl isSome }

theorem watched (reachable : Reachable (pollMachine limits server) Prompt s) : s.Watched := by
  apply reachable.invariant (P := Watched)
  · rintro s ⟨index, expectedChainId, requireChainId, previous, rfl⟩
    refine ⟨nofun, ?_, nofun⟩
    rintro _ ⟨⟩
    exact ⟨Nat.zero_le _, fun online => ⟨online, rfl, rfl⟩⟩
  · exact fun s e s' before watched prompt step =>
      watched.moves (paced before) prompt (Poll.moves step)

/-- What is known of an inherited upstream does not outlast its first request. -/
theorem Inherited.inTime (inherited : s.Inherited c) (recent : s.Recent c)
    (asks : s.Asks c) : s.now ≤ 2 * s.limits.connectTimeout + s.limits.upstreamStatus := by
  have abiDeadline := inherited.abiDeadline
  by_cases idle : c.sending = none
  · have inTime := recent.inTime idle
    cases ready : c.abiReady with
    | false =>
        rw [Connection.wakeAt, if_neg (by simp [ready])] at inTime
        omega
    | true =>
        have isLast := List.head?_eq_some_head (asks.begun ready idle)
        have asked := inherited.asked _ isLast
        rw [wakeAt_eq asks ready isLast] at inTime
        omega
  · have sending := inherited.sending idle
    omega

/-- While the monitor runs, an upstream is online only if it is connected to it and got a status
from it on this connection within the last two intervals; or, at first, if it was online in the
generation before, no connection ended and no status came yet. -/
theorem online_recently_answered (reachable : Reachable (pollMachine limits server) Prompt s)
    (runs : s.phase ≠ .stopped) (online : s.upstream.online = true) :
    (s.connection ≠ none ∧ ∃ a ∈ s.talk.answered.head?,
        s.now ≤ a + 2 * s.limits.upstreamStatus) ∨
      (s.inheritedOnline = true ∧ s.history = [] ∧ s.talk.answered = [] ∧
        s.now ≤ 2 * s.limits.connectTimeout + s.limits.upstreamStatus) := by
  have watched := watched reachable
  have paced := paced reachable
  cases isPhase : s.phase with
  | stopped => exact absurd isPhase runs
  | pausing => simp [watched.pausing isPhase] at online
  | connecting deadline =>
      obtain ⟨inTime, inherits⟩ := watched.connecting _ isPhase
      obtain ⟨wasOnline, first, isDeadline⟩ := inherits online
      refine .inr ⟨wasOnline, first, by simp [paced.connecting _ isPhase, Talk.answered], ?_⟩
      omega
  | session c =>
      have recent := watched.up c isPhase
      have asks := paced.up c isPhase
      cases recent.online online with
      | inr inherited =>
          exact .inr ⟨inherited.online, inherited.first, inherited.unanswered,
            inherited.inTime recent asks⟩
      | inl answered =>
          have isAnswer := List.head?_eq_some_head answered
          refine .inl ⟨?_, _, isAnswer, ?_⟩
          · rw [connection_eq_some.mpr isPhase]
            exact Option.some_ne_none c
          · by_cases idle : c.sending = none
            · have asked : s.talk.asked ≠ [] :=
                List.ne_nil_of_length_pos
                  ((List.length_pos_of_ne_nil answered).trans_le recent.honest)
              have isLast := List.head?_eq_some_head asked
              have inTime := recent.inTime idle
              rw [wakeAt_eq asks (asks.ready_of_asked asked) isLast] at inTime
              have waiting := recent.waiting _ isAnswer _ isLast
              omega
            · have sending := recent.sending idle _ isAnswer
              omega

/-! ## The version of a request -/

/-- All connections, the current one first. -/
def talks (s : Poll) : List Talk := s.talk :: s.history

/-- What the code keeps of a connection, by what went over it. -/
structure Recorded (s : Poll) (c : Connection) : Prop where
  sawStatus : c.sawStatus = s.talk.isAnswered
  sentV1 : c.sentV1 = s.talk.asksV1
  counted : s.talk.isAnswered = false → s.unansweredV1Sessions = Talk.missed s.talks
  version : s.talk.isAnswered = false → s.talk.asksV1 = true → s.statusRequest = .v1
  sending : ∀ request ∈ c.sending, request = s.statusRequest

/-- The version of the next request, and how the counter of the code stands to the connections. -/
structure Versioned (s : Poll) : Prop where
  exact : s.statusRequest = .v0 ↔
    Talk.lastResult s.talks = some 0 ∨ Talk.missed s.talks = statusV1MissLimit
  bound : Talk.missed s.talks ≤ statusV1MissLimit
  down : s.phase = .pausing ∨ s.phase.isConnecting = true →
    s.talk = [] ∧ s.unansweredV1Sessions = Talk.missed s.talks
  up : ∀ c, s.phase = .session c → s.Recorded c

theorem Recorded.versioned (recorded : s.Recorded c) (isUp : s.phase = .session c)
    (exact : s.statusRequest = .v0 ↔
      Talk.lastResult s.talks = some 0 ∨ Talk.missed s.talks = statusV1MissLimit)
    (bound : Talk.missed s.talks ≤ statusV1MissLimit) : s.Versioned where
  exact := exact
  bound := bound
  down := by
    rw [isUp]
    rintro (isDown | isDown) <;> cases isDown
  up := by
    rw [isUp]
    rintro _ ⟨⟩
    exact recorded

/-- The connection changes, but not what it says of versions. -/
theorem Versioned.update (versioned : s.Versioned) (isUp : s.phase = .session c)
    (c' : Connection) (sawStatus : c'.sawStatus = c.sawStatus) (sentV1 : c'.sentV1 = c.sentV1)
    (sending : ∀ request ∈ c'.sending, request = s.statusRequest) :
    Versioned { s with phase := .session c' } := by
  have recorded := versioned.up c isUp
  exact Recorded.versioned ⟨sawStatus.trans recorded.sawStatus, sentV1.trans recorded.sentV1,
    recorded.counted, recorded.version, sending⟩ rfl versioned.exact versioned.bound

/-- Without a connection only the version and the counter matter. -/
theorem Versioned.of_down
    (exact : s.statusRequest = .v0 ↔
      Talk.lastResult s.talks = some 0 ∨ Talk.missed s.talks = statusV1MissLimit)
    (bound : Talk.missed s.talks ≤ statusV1MissLimit)
    (isDown : s.phase = .pausing ∨ s.phase.isConnecting = true) (silent : s.talk = [])
    (counted : s.unansweredV1Sessions = Talk.missed s.talks) : s.Versioned := by
  refine ⟨exact, bound, fun _ => ⟨silent, counted⟩, fun c isUp => ?_⟩
  rw [isUp] at isDown
  rcases isDown with isDown | isDown <;> cases isDown

theorem Versioned.reconnect (versioned : s.Versioned) {c c' : Connection}
    (isUp : s.phase = .session c) (sawStatus : c'.sawStatus = c.sawStatus)
    (sentV1 : c'.sentV1 = c.sentV1) : Versioned (s.reconnect c') := by
  have exact := versioned.exact
  have bound := versioned.bound
  have recorded := versioned.up c isUp
  rw [recorded.sawStatus] at sawStatus
  rw [recorded.sentV1] at sentV1
  have missed : Talk.missed ([] :: s.talks) = if s.talk.isAnswered then 0 else
    s.talk.asksV1.toNat + Talk.missed s.talks := Talk.missed_nil_cons s.talk s.history
  have misses : s.missesV1 c' =
      (s.talk.asksV1 && !s.talk.isAnswered && decide (s.statusRequest = .v1)) := by
    rw [missesV1, sawStatus, sentV1]
  obtain ⟨statusV1, ended⟩ := s.reconnect_eq c'
  rw [misses, sawStatus] at ended
  -- whether the connection brought a status, and whether v1 was asked for on it
  suffices counts : _ ∧ _ ∧ _ by
    rw [ended]
    exact .of_down counts.1 counts.2.1 (.inl rfl) rfl counts.2.2
  change (_ = _ ↔ Talk.lastResult s.talks = some 0 ∨
      Talk.missed ([] :: s.talks) = statusV1MissLimit) ∧
    Talk.missed ([] :: s.talks) ≤ statusV1MissLimit ∧ _ = Talk.missed ([] :: s.talks)
  rw [missed]
  cases saw : s.talk.isAnswered with
  | true =>
      have zero : Talk.missed s.talks = 0 := Talk.missed_of_isAnswered saw
      rw [zero] at exact
      simpa using exact
  | false =>
      have counted := recorded.counted saw
      cases isSent : s.talk.asksV1 with
      | false => simp [exact, bound, counted]
      | true =>
          have isV1 := recorded.version saw isSent
          rw [isV1] at exact
          have recent : Talk.lastResult s.talks ≠ some 0 := fun old => nomatch exact.mpr (.inl old)
          have fewer : Talk.missed s.talks ≠ statusV1MissLimit :=
            fun limit => nomatch exact.mpr (.inr limit)
          unfold statusV1MissLimit at bound fewer ⊢
          have few : Talk.missed s.talks = 0 ∨ Talk.missed s.talks = 1 := by omega
          rcases few with none | one
          · simp [counted, none, isV1, recent, Session.u32Max]
          · simp [counted, one, isV1, Session.u32Max]

theorem Versioned.moves (versioned : s.Versioned) (moves : s.Moves e s') : s'.Versioned := by
  have exact := versioned.exact
  have bound := versioned.bound
  cases moves with
  | tick | lost => exact { versioned with up := fun c isUp => { versioned.up c isUp with } }
  | connect pauses =>
      obtain ⟨silent, counted⟩ := versioned.down (.inl pauses)
      exact .of_down exact bound (.inr rfl) silent counted
  | failed connects =>
      obtain ⟨silent, counted⟩ := versioned.down (.inr (by rw [connects]; rfl))
      exact .of_down exact bound (.inl rfl) silent counted
  | stopped => exact ⟨exact, bound, by simp [MonitorPhase.isConnecting], nofun⟩
  | connected connects =>
      obtain ⟨silent, counted⟩ := versioned.down (.inr (by rw [connects]; rfl))
      refine Recorded.versioned ⟨?_, ?_, fun _ => counted, ?_, ?_⟩ rfl exact bound
      · simp [silent, Talk.isAnswered, Connection.new]
      · simp [silent, Talk.asksV1, Connection.new]
      · simp [silent, Talk.asksV1]
      · exact fun request isSending => absurd isSending (Option.not_mem_none request)
  | @ignored _ c isUp shipAbi seen =>
      exact versioned.update isUp { c with shipAbi } rfl rfl (versioned.up c isUp).sending
  | @asksFirst _ c isUp idle first =>
      refine versioned.update isUp
        { c with shipAbi := true, abiReady := true, sending := some s.statusRequest } rfl rfl ?_
      rintro _ ⟨⟩
      rfl
  | @asksAgain _ c isUp idle ready answered due =>
      refine versioned.update isUp { c with sending := some s.statusRequest } rfl rfl ?_
      rintro _ ⟨⟩
      rfl
  | @status c bytes peer variant report isUp idle isStatus upstream =>
      have none : Talk.missed ((.answered variant s.now :: s.talk) :: s.history) = 0 :=
        Talk.missed_of_isAnswered rfl
      refine Recorded.versioned (c := { c with statusInFlight := false, sawStatus := true })
        ⟨rfl, (versioned.up c isUp).sentV1, fun unseen => Bool.noConfusion unseen,
          fun unseen => Bool.noConfusion unseen, ?_⟩ rfl ?_ (none.trans_le (Nat.zero_le _))
      · intro request isSending
        change request ∈ c.sending at isSending
        simp [idle] at isSending
      · change (if variant = 0 then PollRequest.v0 else .v1) = .v0 ↔
          some variant = some 0 ∨
            Talk.missed ((.answered variant s.now :: s.talk) :: s.history) = statusV1MissLimit
        rw [none]
        by_cases isOld : variant = 0 <;> simp [isOld, statusV1MissLimit]
  | ended isUp shipAbi sending => exact versioned.reconnect isUp rfl rfl
  | @sent _ c request isUp isSending =>
      have recorded := versioned.up c isUp
      have same := recorded.sending request isSending
      have missed : Talk.missed ((.asked request s.now :: s.talk) :: s.history) =
          Talk.missed s.talks := Talk.missed_cons_asked
      refine Recorded.versioned (c := c.sent request s.now s.limits) ⟨recorded.sawStatus, ?_,
        fun unseen => (recorded.counted unseen).trans missed.symm, ?_,
        fun _ isNone => absurd isNone (Option.not_mem_none _)⟩ rfl ?_ (missed.trans_le bound)
      · change (c.sentV1 || decide (request = .v1)) = (decide (request = .v1) || s.talk.asksV1)
        rw [recorded.sentV1, Bool.or_comm]
      · intro unseen isV1
        change (decide (request = .v1) || s.talk.asksV1) = true at isV1
        rw [Bool.or_eq_true, decide_eq_true_eq] at isV1
        exact isV1.elim (fun asksV1 => same.symm.trans asksV1) (recorded.version unseen)
      · change s.statusRequest = .v0 ↔ Talk.lastResult s.talks = some 0 ∨
          Talk.missed ((.asked request s.now :: s.talk) :: s.history) = statusV1MissLimit
        rw [missed]
        exact exact

/-- A request is a v0 request exactly when the last status of the upstream was one of version 0, or
when since the connection that brought it two others ended on which v1 was asked for and no status
came; there are never more than two. -/
theorem request_version_exact (reachable : Reachable (pollMachine limits server) allowed s) :
    (∀ c ∈ s.connection, ∀ request ∈ c.sending,
        (request = .v0 ↔ Talk.lastResult (s.talk :: s.history) = some 0 ∨
          Talk.missed (s.talk :: s.history) = 2)) ∧
      Talk.missed (s.talk :: s.history) ≤ 2 := by
  have versioned : s.Versioned := by
    apply reachable.invariant (P := Versioned)
    · rintro s ⟨index, expectedChainId, requireChainId, previous, rfl⟩
      exact .of_down (by simp [start, talks, Talk.lastResult, Talk.missed, Talk.isAnswered,
        statusV1MissLimit]) (Nat.zero_le _) (.inr rfl) rfl rfl
    · exact fun s e s' _ versioned _ step => versioned.moves (Poll.moves step)
  refine ⟨fun c isUp request isSending => ?_, versioned.bound⟩
  rw [(versioned.up c (connection_eq_some.mp isUp)).sending request isSending]
  exact versioned.exact

/-- A `get_status_result_v1` with head 1 and zeros elsewhere. -/
def zeroStatusV1 : List UInt8 := 3 :: 1 :: List.replicate 127 0

instance (s : Poll) (e : PollEvent) : Decidable (s.Prompt e) :=
  match e with
  | .tick time => inferInstanceAs (Decidable ((∀ c ∈ s.connection, c.sending = none) ∧
      ∀ deadline ∈ s.deadline, s.now + time ≤ deadline))
  | .message (.binary bytes _) =>
      inferInstanceAs (Decidable
        (isStatus bytes = true → s.talk.answered.length < s.talk.asked.length))
  | .message (.text _) | .message .close | .message .other | .connect | .connected | .connectFailed
  | .disconnected | .wake | .sent _ | .lost | .shutdown => .isTrue trivial

/-- A status is answered after 4, and asked for again after 10. -/
def answeredRun : List PollEvent :=
  [.connected, .message (.text true), .sent true, .tick 4, .message (.binary zeroStatus none),
    .tick 6, .wake, .sent true, .tick 3]

theorem one_request_in_flight_answered :
    ∃ s, Reachable (pollMachine ⟨5, 10⟩ (plainServer "a")) Prompt s ∧
      s.talk = [.asked .v0 10, .answered 0 4, .asked .v1 0] ∧
      ∀ talk ∈ s.talk :: s.history, talk.InTurn s.limits.upstreamStatus := by
  have found : ∃ s, Reachable (pollMachine ⟨5, 10⟩ (plainServer "a")) Prompt s ∧
      s.talk = [.asked .v0 10, .answered 0 4, .asked .v1 0] :=
    exists_reachable_of_run answeredRun ⟨0, none, false, [], rfl⟩ (by decide +kernel)
  obtain ⟨s, reachable, isTalk⟩ := found
  exact ⟨s, reachable, isTalk, one_request_in_flight reachable⟩

theorem online_recently_answered_once :
    ∃ s, Reachable (pollMachine ⟨5, 10⟩ (plainServer "a")) Prompt s ∧
      s.upstream.online = true ∧ s.inheritedOnline = false ∧ s.now = 13 ∧
      ∃ a ∈ s.talk.answered.head?, s.now ≤ a + 2 * s.limits.upstreamStatus := by
  have found : ∃ s, Reachable (pollMachine ⟨5, 10⟩ (plainServer "a")) Prompt s ∧
      s.upstream.online = true ∧ s.inheritedOnline = false ∧ s.now = 13 ∧ s.phase ≠ .stopped :=
    exists_reachable_of_run answeredRun ⟨0, none, false, [], rfl⟩ (by decide +kernel)
  obtain ⟨s, reachable, online, fresh, now, runs⟩ := found
  refine ⟨s, reachable, online, fresh, now, ?_⟩
  cases online_recently_answered reachable runs online with
  | inl answered => exact answered.2
  | inr inherited => simp [fresh] at inherited

/-- The second v1 request of the first connection is not answered, nor are those of the next two;
on the fourth connection the request has version 0. -/
def silentRun : List PollEvent :=
  let unanswered := [.connected, .message (.text true), .sent true, .disconnected, .connect]
  [.connected, .message (.text true), .sent true, .message (.binary zeroStatusV1 none), .tick 10,
    .wake, .sent true, .disconnected, .connect] ++ unanswered ++ unanswered ++
    [.connected, .message (.text true)]

theorem request_version_exact_silent :
    ∃ s, Reachable (pollMachine ⟨5, 10⟩ (plainServer "a")) Prompt s ∧
      s.connection.bind Connection.sending = some .v0 ∧ s.history.length = 3 ∧
      Talk.lastResult s.talks = some 3 ∧
      ∀ c ∈ s.connection, ∀ request ∈ c.sending,
        (request = .v0 ↔ Talk.lastResult (s.talk :: s.history) = some 0 ∨
          Talk.missed (s.talk :: s.history) = 2) := by
  have found : ∃ s, Reachable (pollMachine ⟨5, 10⟩ (plainServer "a")) Prompt s ∧
      s.connection.bind Connection.sending = some .v0 ∧ s.history.length = 3 ∧
      Talk.lastResult s.talks = some 3 :=
    exists_reachable_of_run silentRun ⟨0, none, false, [], rfl⟩ (by decide +kernel)
  obtain ⟨s, reachable, sending, ended, last⟩ := found
  exact ⟨s, reachable, sending, ended, last, (request_version_exact reachable).1⟩

end Poll

end FleetRouter.Fleet
