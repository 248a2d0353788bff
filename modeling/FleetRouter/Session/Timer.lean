import Mathlib.Order.Nat
import FleetRouter.Lib.Transition
import FleetRouter.Session.Link
import FleetRouter.Session.Status

/-!
# The timers of a session

A session sleeps until its next deadline and then looks at everything that may be due: the client,
a waiting status request, a hold, the silence of a link that owes blocks, the liveness of its
link, a backoff, a retry or a recheck, and links kept for later.  Instants and durations are in
nanoseconds, except for the transport activity of a link, which is kept in milliseconds since the
session began.
-/

namespace FleetRouter.Session

open Transition

def millis (n : Nat) : Nat := n * 1000000

def monitorOfflineSilence : Nat := millis 5000

def offlineProbe : Nat := millis 1000

def soleStallFactor : Nat := 3

def stallRecheck : Nat := millis 1000

/-- The configured timeouts in milliseconds; zero turns one off. -/
structure Timeouts where
  idleTimeoutMs : Nat
  stallTimeoutMs : Nat
  livenessTimeoutMs : Nat
  handshakeTimeoutMs : Nat
  deriving DecidableEq, Repr

namespace Timeouts

variable (limits : Timeouts)

def timeout (ms : Nat) : Option Nat := if 0 < ms then some (millis ms) else none

def idle : Option Nat := timeout limits.idleTimeoutMs

def stall : Option Nat := timeout limits.stallTimeoutMs

def liveness : Option Nat := timeout limits.livenessTimeoutMs

/-- How long a status request may wait. -/
def statusWait : Nat :=
  if limits.handshakeTimeoutMs = 0 then millis 10000 else millis limits.handshakeTimeoutMs

/-- The silence after which a stalled link is left even for nothing better. -/
def sole : Nat := millis limits.stallTimeoutMs * soleStallFactor

end Timeouts

def isDue (now : Nat) (deadline : Option Nat) : Bool := deadline.any fun due => due ≤ now

/-! ## The clocks of a link -/

/-- Whether a link owes the client blocks. -/
def owed (st : LinkState) (credit : Fin (2 ^ 32))
    (fleetGate : Bool → Option (Fin (2 ^ 32))) : Bool :=
  match st.req with
  | none => false
  | some req =>
      if credit = 0 then false
      else
        let u :=
          match st.upCursor with
          | .exact u => u
          | .uncertain _ hi => hi
        if req.end ≤ u then false
        else if st.role = .frozen then true
        else
          let own := if req.irreversibleOnly then st.lastLib else st.lastHead
          own.any (fun g => u ≤ g.num) || (fleetGate req.irreversibleOnly).any (fun g => u ≤ g)

/-- A link that could take a new request on its socket owes nothing, so its silence ends
nothing. -/
theorem not_owed_of_quiescent {st : LinkState} {credit : Fin (2 ^ 32)} {legacy : Bool}
    (quiet : quiescent st credit legacy = true) (fleetGate : Bool → Option (Fin (2 ^ 32))) :
    owed st credit fleetGate = false := by
  unfold owed
  split
  · rfl
  · rename_i req isRequest
    split
    · rfl
    · rename_i hasCredit
      have done : settled st legacy = true := by simpa [quiescent, hasCredit] using quiet
      unfold settled at done
      rw [isRequest] at done
      cases isCursor : st.upCursor with
      | exact u =>
          simp only [isCursor] at done ⊢
          split at done
          · rename_i isDone
            simp [isDone]
          · cases done
      | uncertain lo hi => simp [isCursor] at done

/-- The instants the router keeps about one link. -/
structure LinkClock where
  /-- The last read of its transport, in milliseconds. -/
  readMs : Nat
  /-- The last read that completed a frame other than a reply to a liveness ping. -/
  dataMs : Nat
  pongMs : Option Nat
  becameOwedAt : Nat
  wasOwed : Bool
  stallRecheck : Option Nat
  /-- The start of the silence whose stall was kept and logged. -/
  stallKept : Option Nat
  lingerUntil : Option Nat
  pingAt : Option Nat
  probeUntil : Option Nat
  /-- The monitor sees its upstream offline. -/
  monitorOffline : Bool
  deriving DecidableEq, Repr

namespace LinkClock

def noteFrame (l : LinkClock) (livenessPong : Bool) : LinkClock :=
  let l := { l with pingAt := none, probeUntil := none }
  if livenessPong then { l with pongMs := some l.readMs }
  else { l with dataMs := l.readMs, pongMs := none }

def dataActivityMs (l : LinkClock) : Nat := if l.pongMs = some l.readMs then l.dataMs else l.readMs

/-- The start of the current silence. -/
def silenceFrom (l : LinkClock) : Nat := max (millis l.dataActivityMs) l.becameOwedAt

def updateOwed (l : LinkClock) (isOwed : Bool) (now : Nat) : LinkClock :=
  { l with
    becameOwedAt := if isOwed && !l.wasOwed then now else l.becameOwedAt
    wasOwed := isOwed }

def lastRead (l : LinkClock) : Nat := millis l.readMs

/-- When the liveness check acts next. -/
def livenessDeadline (limits : Timeouts) (l : LinkClock) : Option Nat :=
  limits.liveness.map fun limit =>
    let due :=
      match l.pingAt with
      | none => l.lastRead + limit / 2
      | some ping => max (l.lastRead + limit) (ping + limit / 2)
    match l.probeUntil with
    | none => due
    | some probe => min (max probe (l.lastRead + offlineProbe)) due

def onUpstreamOffline (l : LinkClock) (now : Nat) : LinkClock :=
  if l.probeUntil.isNone then
    { l with probeUntil := some (now + offlineProbe), pingAt := some now }
  else l

/-- When each silence limit is due, in the order they are checked. -/
def silenceDeadlines (limits : Timeouts) (l : LinkClock) : List (Nat × UpEnd) :=
  let idle := limits.idle.map fun limit => (l.silenceFrom + limit, .idle)
  let stall := limits.stall.map fun limit =>
    let due := l.silenceFrom + limit
    (l.stallRecheck.elim due fun recheck => max recheck due, .stall)
  let offline :=
    if l.monitorOffline then some (l.silenceFrom + monitorOfflineSilence, .monitorOffline) else none
  idle.toList ++ stall.toList ++ offline.toList

/-- The first limit that is due and ends the link, and whether a stall was passed over;
`keeps` tells that stalls are. -/
def firstDue (now : Nat) (keeps : Bool) : List (Nat × UpEnd) → Bool × Option UpEnd
  | [] => (false, none)
  | (due, «end») :: rest =>
      if now < due then firstDue now keeps rest
      else if «end» = .stall ∧ keeps then (true, (firstDue now keeps rest).2)
      else (false, some «end»)

/-- A stall that is kept is looked at again soon. -/
def keep (limits : Timeouts) (now : Nat) (l : LinkClock) : LinkClock :=
  { l with
    stallRecheck := some (min (l.silenceFrom + limits.sole) (now + Session.stallRecheck))
    stallKept := some l.silenceFrom }

/-- The silence limit that ends an owed link now, if any; `canMove` tells that another upstream
can take its stream. -/
def silenceDue (limits : Timeouts) (canMove : Bool) (now : Nat) (l : LinkClock) :
    LinkClock × Option UpEnd :=
  if l.wasOwed then
    let silence := now - l.silenceFrom
    let keeps := decide (silence < limits.sole) && !canMove
    match firstDue now keeps (l.silenceDeadlines limits) with
    | (true, none) => (l.keep limits now, none)
    | (_, due) => (l, due)
  else (l, none)

/-- A look at a link: its silence, and then its liveness, for which a ping goes out before the
link is ended. -/
def look (limits : Timeouts) (canMove : Bool) (now : Nat) (l : LinkClock) :
    LinkClock × Option UpEnd :=
  match l.silenceDue limits canMove now with
  | (l, some «end») => (l, some «end»)
  | (l, none) =>
      if isDue now (l.livenessDeadline limits) then
        if l.pingAt.isNone && l.probeUntil.isNone then ({ l with pingAt := some now }, none)
        else (l, some .silent)
      else (l, none)

end LinkClock

/-! ## The session -/

inductive TimerPhase where
  | idle
  | streaming
  | dialing (purpose : Purpose)
  | backoff (due : Nat) (purpose : Purpose)
  | holding (nextRetry : Nat) (purpose : Purpose)
  | waiting (recheck : Nat) (purpose : Purpose)
  deriving DecidableEq, Repr

structure HoldClock where
  deadline : Option Nat
  lastTry : Bool
  deriving DecidableEq, Repr

structure Timers where
  limits : Timeouts
  clientSeen : Nat
  status : StatusFlow
  phase : TimerPhase
  hold : Option HoldClock
  link : Option LinkClock
  /-- When the standby link is dropped unused. -/
  standby : Option Nat
  deriving DecidableEq, Repr

/-- What the session asks of the fleet when a timer is due. -/
structure TimerAnswers where
  /-- The dial on its way, or a new plan, can serve the cursor. -/
  canServe : Bool
  /-- A stall failover would move the stream to another upstream. -/
  canMove : Bool
  deriving DecidableEq, Repr

inductive StopReason where
  | clientIdle
  | statusUnavailable
  | holdExpired
  deriving DecidableEq, Repr

/-- What else the session does when a timer is due. -/
inductive TimerCall where
  | lastTry (purpose : Purpose)
  | linkEnd (reason : UpEnd)
  | backoffExpired (purpose : Purpose)
  | retry (purpose : Purpose)
  | replan (purpose : Purpose)
  deriving DecidableEq, Repr

inductive TimerFlow where
  | stop (reason : StopReason)
  | call (s : Timers) (call : TimerCall)
  | goOn (s : Timers)
  deriving DecidableEq, Repr

namespace TimerPhase

def deadline : TimerPhase → Option Nat
  | .backoff due _ | .holding due _ | .waiting due _ => some due
  | .idle | .streaming | .dialing _ => none

/-- What is done once the phase is due. -/
def call : TimerPhase → Option TimerCall
  | .backoff _ purpose => some (.backoffExpired purpose)
  | .holding _ purpose => some (.retry purpose)
  | .waiting _ purpose => some (.replan purpose)
  | .idle | .streaming | .dialing _ => none

/-- The purpose of a hold's retry or its dial. -/
def retrying : TimerPhase → Option Purpose
  | .holding _ purpose | .dialing purpose => some purpose
  | .idle | .streaming | .backoff _ _ | .waiting _ _ => none

end TimerPhase

namespace Timers

variable (s : Timers)

def clientDeadline : Option Nat := s.limits.idle.map (s.clientSeen + ·)

def holdDeadline : Option Nat := s.hold.bind HoldClock.deadline

def silenceDeadline : Option Nat :=
  ((s.link.filter LinkClock.wasOwed).elim [] fun l =>
    (l.silenceDeadlines s.limits).map Prod.fst).min?

def lingerDeadline : Option Nat := s.link.bind LinkClock.lingerUntil

def livenessDeadline : Option Nat := s.link.bind (LinkClock.livenessDeadline s.limits)

def deadlines : List (Option Nat) :=
  [s.clientDeadline, s.status.deadline, s.phase.deadline, s.holdDeadline, s.silenceDeadline,
    s.lingerDeadline, s.standby, s.livenessDeadline]

def nextDeadline : Option Nat := (s.deadlines.filterMap id).min?

def retireLink (now : Nat) : Timers :=
  match s.link with
  | some _ => { s with link := none, status := s.status.linkEnded now s.limits.statusWait }
  | none => s

/-- Links that are kept for later and were not used. -/
def dropUnused (now : Nat) : Timers :=
  let s := if isDue now s.lingerDeadline then s.retireLink now else s
  if isDue now s.standby then { s with standby := none } else s

/-- The phase, and then the links kept for later. -/
def onPhase (now : Nat) : TimerFlow :=
  match s.phase.call with
  | some call => if isDue now s.phase.deadline then .call s call else .goOn (s.dropUnused now)
  | none => .goOn (s.dropUnused now)

/-- The link, and then the phase. -/
def onLink (answers : TimerAnswers) (now : Nat) : TimerFlow :=
  match s.link with
  | some l =>
      match l.look s.limits answers.canMove now with
      | (l, some «end») => .call { s with link := some l } (.linkEnd «end»)
      | (l, none) => { s with link := some l }.onPhase now
  | none => s.onPhase now

/-- A hold at its deadline gets one last try. -/
def onHold (answers : TimerAnswers) (now : Nat) : TimerFlow :=
  match s.hold with
  | some hold =>
      if isDue now hold.deadline then
        match s.phase.retrying, hold.lastTry, answers.canServe with
        | some purpose, false, true =>
            .call { s with hold := some ⟨none, true⟩ } (.lastTry purpose)
        | _, _, _ => .stop .holdExpired
      else s.onLink answers now
  | none => s.onLink answers now

def onTimer (answers : TimerAnswers) (now : Nat) : TimerFlow :=
  if isDue now s.clientDeadline then .stop .clientIdle
  else if isDue now s.status.deadline then .stop .statusUnavailable
  else s.onHold answers now

end Timers

/-! ## One pass of the timers -/

theorem isDue_eq_false {now : Nat} {deadline : Option Nat} :
    isDue now deadline = false ↔ ∀ due ∈ deadline, now < due := by
  cases deadline <;> simp [isDue]

theorem isDue_eq_true {now : Nat} {deadline : Option Nat} :
    isDue now deadline = true ↔ ∃ due ∈ deadline, due ≤ now := by
  cases deadline <;> simp [isDue]

theorem millis_pos {n : Nat} (positive : 0 < n) : 0 < millis n :=
  Nat.mul_pos positive (by decide)

theorem timeout_eq {ms limit : Nat} (isLimit : Timeouts.timeout ms = some limit) :
    0 < ms ∧ limit = millis ms := by
  rw [Timeouts.timeout, Option.ite_none_right_eq_some] at isLimit
  exact ⟨isLimit.1, (Option.some.inj isLimit.2).symm⟩

namespace LinkClock

variable {limits : Timeouts} {l : LinkClock} {now : Nat} {canMove : Bool}

theorem firstDue_of_not_due {keeps : Bool} {deadlines : List (Nat × UpEnd)}
    (notDue : ∀ d ∈ deadlines, now < d.1) : firstDue now keeps deadlines = (false, none) := by
  induction deadlines with
  | nil => rfl
  | cons d rest ih =>
      rw [List.forall_mem_cons] at notDue
      rw [firstDue, if_pos notDue.1]
      exact ih notDue.2

/-- When no limit ends the link, only a stall that is kept is due. -/
theorem due_of_firstDue {keeps kept : Bool} {deadlines : List (Nat × UpEnd)}
    (noEnd : firstDue now keeps deadlines = (kept, none)) :
    ∀ d ∈ deadlines, now < d.1 ∨ (d.2 = .stall ∧ keeps = true ∧ kept = true) := by
  induction deadlines generalizing kept with
  | nil => exact List.forall_mem_nil _
  | cons d rest ih =>
      rw [List.forall_mem_cons]
      unfold firstDue at noEnd
      split at noEnd
      · exact ⟨.inl ‹_›, ih noEnd⟩
      · split at noEnd
        · rename_i isKept
          rw [Prod.mk.injEq] at noEnd
          have restEnds : firstDue now keeps rest = ((firstDue now keeps rest).1, none) :=
            Prod.ext rfl noEnd.2
          refine ⟨.inr ⟨isKept.1, isKept.2, noEnd.1.symm⟩, fun e member => ?_⟩
          exact (ih restEnds e member).imp_right fun stalled =>
            ⟨stalled.1, stalled.2.1, noEnd.1.symm⟩
        · cases noEnd

theorem lastRead_eq {l' : LinkClock} (read : l'.readMs = l.readMs) : l'.lastRead = l.lastRead := by
  rw [lastRead, read, lastRead]

theorem mem_silenceDeadlines {d : Nat × UpEnd} :
    d ∈ l.silenceDeadlines limits ↔
      (∃ limit ∈ limits.idle, (l.silenceFrom + limit, .idle) = d) ∨
      (∃ limit ∈ limits.stall,
        (l.stallRecheck.elim (l.silenceFrom + limit) fun recheck =>
          max recheck (l.silenceFrom + limit), .stall) = d) ∨
      (l.monitorOffline = true ∧ (l.silenceFrom + monitorOfflineSilence, .monitorOffline) = d) := by
  simp only [silenceDeadlines, List.mem_append, Option.mem_toList, Option.mem_def,
    Option.map_eq_some_iff, Option.ite_none_right_eq_some, Option.some.injEq, or_assoc]

/-- What a look at the silence leaves as it is. -/
structure SameLink (l l' : LinkClock) : Prop where
  readMs : l'.readMs = l.readMs
  dataMs : l'.dataMs = l.dataMs
  silenceFrom : l'.silenceFrom = l.silenceFrom
  lingerUntil : l'.lingerUntil = l.lingerUntil
  pingAt : l'.pingAt = l.pingAt
  probeUntil : l'.probeUntil = l.probeUntil
  wasOwed : l'.wasOwed = l.wasOwed

theorem sameLink_silenceDue (limits : Timeouts) (canMove : Bool) (now : Nat) (l : LinkClock) :
    l.SameLink (l.silenceDue limits canMove now).1 := by
  unfold silenceDue
  split
  · dsimp only
    split <;> exact ⟨rfl, rfl, rfl, rfl, rfl, rfl, rfl⟩
  · exact ⟨rfl, rfl, rfl, rfl, rfl, rfl, rfl⟩

theorem stallRecheck_keep :
    (l.keep limits now).stallRecheck =
      some (min (l.silenceFrom + limits.sole) (now + Session.stallRecheck)) := rfl

theorem not_due_keep (early : now - l.silenceFrom < limits.sole)
    (others : ∀ d ∈ l.silenceDeadlines limits, now < d.1 ∨ d.2 = .stall) :
    ∀ d ∈ (l.keep limits now).silenceDeadlines limits, now < d.1 := by
  intro d member
  rcases mem_silenceDeadlines.mp member with ⟨limit, isLimit, rfl⟩ | ⟨limit, isLimit, rfl⟩ |
    ⟨isOffline, rfl⟩
  · exact (others _ (mem_silenceDeadlines.mpr (.inl ⟨limit, isLimit, rfl⟩))).resolve_right nofun
  · rw [stallRecheck_keep, Option.elim_some]
    apply lt_of_lt_of_le _ (Nat.le_max_left _ _)
    exact lt_min (by omega) (Nat.lt_add_of_pos_right (millis_pos (by decide)))
  · exact (others _ (mem_silenceDeadlines.mpr (.inr (.inr ⟨isOffline, rfl⟩)))).resolve_right nofun

theorem keeps_of_firstDue {keeps : Bool} {deadlines : List (Nat × UpEnd)} {due : Option UpEnd}
    (first : firstDue now keeps deadlines = (true, due)) : keeps = true := by
  induction deadlines with
  | nil => cases first
  | cons d rest ih =>
      unfold firstDue at first
      split at first
      · exact ih first
      · split at first
        · rename_i isKept
          exact isKept.2
        · cases first

/-- An owed link that a look at its silence does not end is not due again. -/
theorem not_due_of_silenceDue (owes : l.wasOwed = true)
    (lives : (l.silenceDue limits canMove now).2 = none) :
    ∀ d ∈ (l.silenceDue limits canMove now).1.silenceDeadlines limits, now < d.1 := by
  unfold silenceDue at lives ⊢
  rw [if_pos owes] at lives ⊢
  dsimp only at lives ⊢
  split at lives
  · rename_i first
    have others := due_of_firstDue first
    have keeps := keeps_of_firstDue first
    rw [Bool.and_eq_true, decide_eq_true_eq] at keeps
    exact not_due_keep keeps.1 fun d member => (others d member).imp_right And.left
  · rename_i kept due notKept first
    subst lives
    have isFalse : kept = false := Bool.eq_false_of_not_eq_true fun isKept => notKept isKept rfl
    subst isFalse
    exact fun d member => (due_of_firstDue first d member).resolve_right fun stalled =>
      nomatch stalled.2.2

/-- Before any limit is due a look at the silence does nothing. -/
theorem silenceDue_of_not_due (notDue : ∀ d ∈ l.silenceDeadlines limits, now < d.1) :
    l.silenceDue limits canMove now = (l, none) := by
  unfold silenceDue
  split
  · simp only [firstDue_of_not_due notDue]
  · rfl

section Liveness

variable {limit ping probe : Nat} (isLimit : limits.liveness = some limit)
include isLimit

theorem livenessDeadline_unpinged (noPing : l.pingAt = none) (noProbe : l.probeUntil = none) :
    l.livenessDeadline limits = some (l.lastRead + limit / 2) := by
  rw [livenessDeadline, isLimit, noPing, noProbe]
  rfl

theorem livenessDeadline_pinged (isPing : l.pingAt = some ping) (noProbe : l.probeUntil = none) :
    l.livenessDeadline limits = some (max (l.lastRead + limit) (ping + limit / 2)) := by
  rw [livenessDeadline, isLimit, isPing, noProbe]
  rfl

theorem livenessDeadline_probed (isPing : l.pingAt = some ping)
    (isProbe : l.probeUntil = some probe) :
    l.livenessDeadline limits = some (min (max probe (l.lastRead + offlineProbe))
      (max (l.lastRead + limit) (ping + limit / 2))) := by
  rw [livenessDeadline, isLimit, isPing, isProbe]
  rfl

end Liveness

/-- A ping is answered or not only later. -/
theorem isDue_livenessDeadline_ping (noProbe : l.probeUntil = none) :
    isDue now (livenessDeadline limits { l with pingAt := some now }) = false := by
  rw [isDue_eq_false]
  intro due isDeadline
  obtain ⟨limit, isLimit, -⟩ := Option.map_eq_some_iff.mp isDeadline
  rw [livenessDeadline_pinged (l := { l with pingAt := some now }) isLimit rfl noProbe,
    Option.mem_some] at isDeadline
  obtain ⟨positive, rfl⟩ := timeout_eq isLimit
  rw [← isDeadline]
  apply lt_of_lt_of_le _ (Nat.le_max_right _ _)
  apply Nat.lt_add_of_pos_right
  unfold millis
  omega

/-- What a look at a link can do. -/
inductive Looks (limits : Timeouts) (canMove : Bool) (now : Nat) (l : LinkClock) :
    LinkClock × Option UpEnd → Prop
  | ended {«end» : UpEnd} : (l.silenceDue limits canMove now).2 = some «end» →
      Looks limits canMove now l ((l.silenceDue limits canMove now).1, some «end»)
  | silent {l' : LinkClock} : l.silenceDue limits canMove now = (l', none) →
      isDue now (l'.livenessDeadline limits) = true →
      (l'.pingAt.isNone && l'.probeUntil.isNone) = false →
      Looks limits canMove now l (l', some .silent)
  | ping {l' : LinkClock} : l.silenceDue limits canMove now = (l', none) →
      isDue now (l'.livenessDeadline limits) = true → l'.pingAt = none → l'.probeUntil = none →
      Looks limits canMove now l ({ l' with pingAt := some now }, none)
  | quiet {l' : LinkClock} : l.silenceDue limits canMove now = (l', none) →
      isDue now (l'.livenessDeadline limits) = false → Looks limits canMove now l (l', none)

theorem looks (limits : Timeouts) (canMove : Bool) (now : Nat) (l : LinkClock) :
    Looks limits canMove now l (l.look limits canMove now) := by
  unfold look
  split
  · rename_i l' «end» isEnd
    have ended := Looks.ended (l := l) (congrArg Prod.snd isEnd)
    rwa [isEnd] at ended
  · rename_i l' lives
    cases due : isDue now (l'.livenessDeadline limits) with
    | false => exact .quiet lives due
    | true =>
        cases unpinged : l'.pingAt.isNone && l'.probeUntil.isNone with
        | false => exact .silent lives due unpinged
        | true =>
            rw [Bool.and_eq_true, Option.isNone_iff_eq_none, Option.isNone_iff_eq_none] at unpinged
            exact .ping lives due unpinged.1 unpinged.2

theorem recheck_silenceDue (limits : Timeouts) (canMove : Bool) (now : Nat) (l : LinkClock) :
    ∀ r ∈ (l.silenceDue limits canMove now).1.stallRecheck,
      r ∈ l.stallRecheck ∨ r ≤ l.silenceFrom + limits.sole := by
  unfold silenceDue
  split
  · dsimp only
    split
    · intro r isRecheck
      rw [stallRecheck_keep, Option.mem_some] at isRecheck
      exact .inr (isRecheck ▸ Nat.min_le_left _ _)
    · exact fun r isRecheck => .inl isRecheck
  · exact fun r isRecheck => .inl isRecheck

/-- A look leaves the link as it is, but for a stall to be kept and for a first ping. -/
theorem look_cases (limits : Timeouts) (canMove : Bool) (now : Nat) (l : LinkClock) :
    ∃ l', l.SameLink l' ∧
      (∀ r ∈ l'.stallRecheck, r ∈ l.stallRecheck ∨ r ≤ l.silenceFrom + limits.sole) ∧
      ((l.look limits canMove now).1 = l' ∨ (l.pingAt = none ∧ l.probeUntil = none ∧
        (l.look limits canMove now).1 = { l' with pingAt := some now })) := by
  have same := sameLink_silenceDue limits canMove now l
  refine ⟨_, same, recheck_silenceDue limits canMove now l, ?_⟩
  have looks := looks limits canMove now l
  generalize l.look limits canMove now = looked at looks
  cases looks with
  | ended isEnd => exact .inl rfl
  | silent lives due pinged => exact .inl (by rw [lives])
  | quiet lives notDue => exact .inl (by rw [lives])
  | ping lives due unpinged noProbe =>
      rw [lives] at same ⊢
      exact .inr ⟨same.pingAt.symm.trans unpinged, same.probeUntil.symm.trans noProbe, rfl⟩

/-- After a look that does not end the link nothing about it is due. -/
theorem not_due_of_look {l' : LinkClock} (lives : l.look limits canMove now = (l', none)) :
    (l'.wasOwed = true → ∀ d ∈ l'.silenceDeadlines limits, now < d.1) ∧
      isDue now (l'.livenessDeadline limits) = false := by
  have silence {m : LinkClock} (looked : l.silenceDue limits canMove now = (m, none))
      (owes : m.wasOwed = true) : ∀ d ∈ m.silenceDeadlines limits, now < d.1 := by
    have same := sameLink_silenceDue limits canMove now l
    rw [looked] at same
    have notDue := not_due_of_silenceDue (same.wasOwed.symm.trans owes) (congrArg Prod.snd looked)
    rwa [looked] at notDue
  have looks := looks limits canMove now l
  rw [lives] at looks
  cases looks with
  | ping looked due unpinged noProbe =>
      refine ⟨fun owes => ?_, isDue_livenessDeadline_ping noProbe⟩
      have notDue := silence looked owes
      exact notDue
  | quiet looked notDue => exact ⟨silence looked, notDue⟩

/-- A look before anything is due does nothing. -/
theorem look_of_not_due (canMove : Bool)
    (silence : l.wasOwed = true → ∀ d ∈ l.silenceDeadlines limits, now < d.1)
    (liveness : isDue now (l.livenessDeadline limits) = false) :
    l.look limits canMove now = (l, none) := by
  have looked : l.silenceDue limits canMove now = (l, none) := by
    cases owes : l.wasOwed with
    | false => simp [silenceDue, owes]
    | true => exact silenceDue_of_not_due (silence owes)
  simp [look, looked, liveness]

end LinkClock

namespace Timers

variable {s s' : Timers} {answers : TimerAnswers} {now : Nat}

theorem forall_min?_lt {dues : List Nat} :
    (∀ first ∈ dues.min?, now < first) ↔ ∀ due ∈ dues, now < due := by
  constructor
  · intro notDue due member
    cases earliest : dues.min? with
    | none =>
        rw [List.min?_eq_none_iff.mp earliest] at member
        cases member
    | some first =>
        exact lt_of_lt_of_le (notDue first earliest)
          ((List.min?_eq_some_iff.mp earliest).2 due member)
  · exact fun notDue first earliest => notDue first (List.min?_eq_some_iff.mp earliest).1

theorem isDue_silenceDeadline :
    isDue now s.silenceDeadline = false ↔
      ∀ l ∈ s.link, l.wasOwed = true → ∀ d ∈ l.silenceDeadlines s.limits, now < d.1 := by
  rw [isDue_eq_false, silenceDeadline, forall_min?_lt]
  cases isLink : s.link with
  | none => simp
  | some l => cases owes : l.wasOwed <;> simp [owes, Option.filter]

/-- Nothing is due. -/
structure Quiet (now : Nat) (s : Timers) : Prop where
  client : isDue now s.clientDeadline = false
  status : isDue now s.status.deadline = false
  hold : isDue now s.holdDeadline = false
  silence : isDue now s.silenceDeadline = false
  liveness : isDue now s.livenessDeadline = false
  phase : isDue now s.phase.deadline = false
  linger : isDue now s.lingerDeadline = false
  standby : isDue now s.standby = false

theorem quiet_iff : s.Quiet now ↔ ∀ due ∈ s.nextDeadline, now < due := by
  have all : s.Quiet now ↔ ∀ d ∈ s.deadlines, isDue now d = false := by
    simp only [deadlines, List.forall_mem_cons, List.not_mem_nil, IsEmpty.forall_iff,
      implies_true, and_true]
    constructor
    · exact fun q =>
        ⟨q.client, q.status, q.phase, q.hold, q.silence, q.linger, q.standby, q.liveness⟩
    · rintro ⟨client, status, phase, hold, silence, linger, standby, liveness⟩
      exact ⟨client, status, hold, silence, liveness, phase, linger, standby⟩
  rw [all, nextDeadline, forall_min?_lt]
  simp only [isDue_eq_false, List.mem_filterMap]
  constructor
  · rintro notDue due ⟨d, member, isSome⟩
    exact notDue d member due isSome
  · exact fun notDue d member due isSome => notDue due ⟨d, member, isSome⟩

/-! ### Before the deadline -/

theorem onTimer_of_quiet (quiet : s.Quiet now) : s.onTimer answers now = .goOn s := by
  have dropped : s.dropUnused now = s := by simp [dropUnused, quiet.linger, quiet.standby]
  have phased : s.onPhase now = .goOn s := by
    unfold onPhase
    split
    · rw [if_neg (by simp [quiet.phase]), dropped]
    · rw [dropped]
  have linked : s.onLink answers now = .goOn s := by
    unfold onLink
    cases isLink : s.link with
    | none => exact phased
    | some l =>
        have same : { s with link := some l } = s := by rw [← isLink]
        have liveness := quiet.liveness
        rw [livenessDeadline, isLink, Option.bind_some] at liveness
        have looked := LinkClock.look_of_not_due answers.canMove
          (isDue_silenceDeadline.mp quiet.silence l isLink) liveness
        simp only [looked, same, phased]
  unfold onTimer onHold
  rw [if_neg (by simp [quiet.client]), if_neg (by simp [quiet.status])]
  cases isHold : s.hold with
  | none => exact linked
  | some hold =>
      have notDue := quiet.hold
      simp only [holdDeadline, isHold, Option.bind_some] at notDue
      simp only [notDue, linked, Bool.false_eq_true, if_false]

/-! ### After a pass -/

theorem statusWait_pos (limits : Timeouts) : 0 < limits.statusWait := by
  unfold Timeouts.statusWait
  split
  · exact millis_pos (by decide)
  · exact millis_pos (Nat.pos_of_ne_zero ‹_›)

theorem isDue_linkEnded {flow : StatusFlow} {wait : Nat} (positive : 0 < wait)
    (notDue : isDue now flow.deadline = false) :
    isDue now (flow.linkEnded now wait).deadline = false := by
  unfold StatusFlow.linkEnded
  dsimp only
  split
  · exact notDue
  · rw [isDue_eq_false] at notDue ⊢
    intro due isDeadline
    cases isDeadline
    cases isSome : flow.deadline with
    | none => exact Nat.lt_add_of_pos_right positive
    | some due => exact notDue due isSome

/-- What was looked at before the phase. -/
structure Checked (now : Nat) (s : Timers) : Prop where
  client : isDue now s.clientDeadline = false
  status : isDue now s.status.deadline = false
  hold : isDue now s.holdDeadline = false
  silence : isDue now s.silenceDeadline = false
  liveness : isDue now s.livenessDeadline = false

theorem Checked.retireLink (checked : s.Checked now) : (s.retireLink now).Checked now := by
  unfold Timers.retireLink
  split
  · exact
      { client := checked.client
        status := isDue_linkEnded (statusWait_pos _) checked.status
        hold := checked.hold
        silence := rfl
        liveness := rfl }
  · exact checked

theorem lingerDeadline_retireLink : (s.retireLink now).lingerDeadline = none := by
  cases isLink : s.link <;> simp [retireLink, lingerDeadline, isLink]

theorem phase_retireLink : (s.retireLink now).phase = s.phase := by
  cases isLink : s.link <;> simp [retireLink, isLink]

theorem Checked.dropUnused (checked : s.Checked now)
    (phase : isDue now s.phase.deadline = false) : (s.dropUnused now).Quiet now := by
  have lingers : ∃ t : Timers, t.Checked now ∧ isDue now t.phase.deadline = false ∧
      isDue now t.lingerDeadline = false ∧
      t = if isDue now s.lingerDeadline then s.retireLink now else s := by
    cases due : isDue now s.lingerDeadline with
    | true =>
        refine ⟨s.retireLink now, checked.retireLink, ?_, ?_, rfl⟩
        · rw [phase_retireLink]
          exact phase
        · rw [lingerDeadline_retireLink]
          rfl
    | false => exact ⟨s, checked, phase, due, rfl⟩
  obtain ⟨t, checked, phase, linger, isDropped⟩ := lingers
  unfold Timers.dropUnused
  dsimp only
  rw [← isDropped]
  split
  · exact
      { client := checked.client
        status := checked.status
        hold := checked.hold
        silence := checked.silence
        liveness := checked.liveness
        phase
        linger
        standby := rfl }
  · exact
      { client := checked.client
        status := checked.status
        hold := checked.hold
        silence := checked.silence
        liveness := checked.liveness
        phase
        linger
        standby := Bool.eq_false_of_not_eq_true ‹_› }

theorem Checked.onPhase (checked : s.Checked now) (goesOn : s.onPhase now = .goOn s') :
    s'.Quiet now := by
  unfold Timers.onPhase at goesOn
  split at goesOn
  · split at goesOn
    · cases goesOn
    · cases goesOn
      exact checked.dropUnused (Bool.eq_false_of_not_eq_true ‹_›)
  · rename_i noCall
    cases goesOn
    apply checked.dropUnused
    cases isPhase : s.phase <;> simp_all [TimerPhase.call, TimerPhase.deadline, isDue]

theorem onLink_quiet (client : isDue now s.clientDeadline = false)
    (status : isDue now s.status.deadline = false) (hold : isDue now s.holdDeadline = false)
    (goesOn : s.onLink answers now = .goOn s') : s'.Quiet now := by
  unfold onLink at goesOn
  split at goesOn
  · rename_i l isLink
    split at goesOn
    · cases goesOn
    · rename_i l' lives
      have notDue := LinkClock.not_due_of_look lives
      have silence : isDue now { s with link := some l' }.silenceDeadline = false := by
        rw [isDue_silenceDeadline]
        intro looked isLooked
        cases isLooked
        exact notDue.1
      have checked : Checked now { s with link := some l' } :=
        ⟨client, status, hold, silence, notDue.2⟩
      exact checked.onPhase goesOn
  · rename_i noLink
    refine Checked.onPhase ⟨client, status, hold, ?_, ?_⟩ goesOn
    · rw [isDue_silenceDeadline, noLink]
      exact nofun
    · simp [livenessDeadline, noLink, isDue]

/-- A pass before the next deadline does nothing.  A pass that neither closes the session nor hands
over to another part of it leaves nothing due, so the session never wakes twice for the same
thing. -/
theorem onTimer_exact (s : Timers) (answers : TimerAnswers) (now : Nat) :
    ((∀ due ∈ s.nextDeadline, now < due) ↔ s.onTimer answers now = .goOn s) ∧
      ∀ s', s.onTimer answers now = .goOn s' → ∀ due ∈ s'.nextDeadline, now < due := by
  have passed : ∀ s', s.onTimer answers now = .goOn s' → s'.Quiet now := by
    intro s' goesOn
    unfold onTimer at goesOn
    split at goesOn
    · cases goesOn
    · rename_i client
      split at goesOn
      · cases goesOn
      · rename_i status
        rw [Bool.not_eq_true] at client status
        unfold onHold at goesOn
        split at goesOn
        · rename_i hold isHold
          split at goesOn
          · split at goesOn <;> cases goesOn
          · rename_i notDue
            apply onLink_quiet client status _ goesOn
            simpa [holdDeadline, isHold] using notDue
        · rename_i noHold
          apply onLink_quiet client status _ goesOn
          simp [holdDeadline, noHold, isDue]
  refine ⟨⟨fun notDue => onTimer_of_quiet (quiet_iff.mpr notDue), fun goesOn => ?_⟩, ?_⟩
  · exact quiet_iff.mp (passed s goesOn)
  · exact fun s' goesOn => quiet_iff.mp (passed s' goesOn)

end Timers

/-! ## A link under a timer that is on time -/

/-- A link and the time; `since` is when the session took the link over, and `heardData` when it
last heard anything but replies to its pings, moved on, or began to owe blocks. -/
structure Watch where
  limits : Timeouts
  now : Nat
  link : LinkClock
  since : Nat
  heardData : Nat
  ended : Option UpEnd
  deriving DecidableEq, Repr

inductive WatchEvent where
  /-- Time passes by `time` and a nanosecond. -/
  | tick (time : Nat)
  /-- The transport reads bytes that complete these frames, none while a large message is under
  way; `true` is a reply to a ping. -/
  | read (frames : List Bool)
  /-- A request is sent, or a result is forwarded or dropped. -/
  | progress
  | owes (isOwed : Bool)
  /-- A new view of the fleet. -/
  | view (monitorOffline : Bool)
  /-- The monitor loses the upstream. -/
  | lost
  | timer (canMove : Bool)
  deriving DecidableEq, Repr

namespace Watch

def start (limits : Timeouts) (now readMs : Nat) : Watch where
  limits
  now
  link :=
    { readMs, dataMs := 0, pongMs := none, becameOwedAt := now, wasOwed := false
      stallRecheck := none, stallKept := none, lingerUntil := none, pingAt := none
      probeUntil := none, monitorOffline := false }
  since := now
  heardData := now
  ended := none

variable (s : Watch)

def due : Bool :=
  (s.link.wasOwed && (s.link.silenceDeadlines s.limits).any fun d => d.1 ≤ s.now) ||
    isDue s.now (s.link.livenessDeadline s.limits)

/-- All that was read are replies to pings. -/
def onlyPongs (frames : List Bool) : Bool := !frames.isEmpty && frames.all id

def step (e : WatchEvent) : Option Watch :=
  if s.ended.isSome then none
  else
    match e with
    | .tick time => some { s with now := s.now + time + 1 }
    | .read frames =>
        some { s with
          link := frames.foldl LinkClock.noteFrame { s.link with readMs := s.now / 1000000 }
          heardData := if onlyPongs frames then s.heardData else s.now }
    | .progress =>
        some { s with link := { s.link with becameOwedAt := s.now }, heardData := s.now }
    | .owes isOwed =>
        some { s with
          link := s.link.updateOwed isOwed s.now
          heardData := if isOwed && !s.link.wasOwed then s.now else s.heardData }
    | .view monitorOffline =>
        some { s with link := { s.link with stallRecheck := none, monitorOffline } }
    | .lost =>
        if s.limits.liveness.isSome then some { s with link := s.link.onUpstreamOffline s.now }
        else none
    | .timer canMove =>
        let looked := s.link.look s.limits canMove s.now
        some { s with link := looked.1, ended := looked.2 }

/-- The timer is on time: no time passes beyond an instant at which a deadline is due. -/
def OnTime : WatchEvent → Prop
  | .tick time => { s with now := s.now + time }.due = false
  | _ => True

instance (e : WatchEvent) : Decidable (s.OnTime e) := by
  cases e <;> unfold OnTime <;> infer_instance

end Watch

def watchMachine (limits : Timeouts) : Machine Watch WatchEvent where
  init s := ∃ now readMs, millis readMs ≤ now ∧ s = .start limits now readMs
  step := Watch.step

namespace Watch

variable {s s' : Watch}

/-- A link that owes blocks goes without data no longer than the limit for a sole upstream.  A
reply to a ping can take back bytes of a message that is not complete, so the silence the link
measures may be longer: `silenceFrom` is no later than `heardData`. -/
structure Patient (s : Watch) : Prop where
  past : s.heardData ≤ s.now
  data : millis s.link.dataMs ≤ s.heardData
  silenceFrom : s.link.silenceFrom ≤ s.heardData
  recheck : ∀ r ∈ s.link.stallRecheck, r ≤ s.heardData + s.limits.sole
  silence : s.link.wasOwed = true → 0 < s.limits.stallTimeoutMs →
    s.now ≤ s.heardData + s.limits.sole

theorem stall_le_sole {limits : Timeouts} {limit : Nat} (isLimit : limits.stall = some limit) :
    limit ≤ limits.sole := by
  rw [(timeout_eq isLimit).2]
  exact Nat.le_mul_of_pos_right _ (by decide)

theorem Patient.start {limits : Timeouts} {now readMs : Nat} (read : millis readMs ≤ now) :
    Patient (.start limits now readMs) where
  past := le_rfl
  data := (Nat.zero_mul _).trans_le (Nat.zero_le now)
  silenceFrom := max_le read le_rfl
  recheck := fun r isRecheck => absurd isRecheck (Option.not_mem_none r)
  silence := fun _ _ => Nat.le_add_right _ _

theorem Patient.tick (patient : s.Patient) {time : Nat}
    (notDue : { s with now := s.now + time }.due = false) :
    Patient { s with now := s.now + time + 1 } where
  past := patient.past.trans (Nat.le_add_right _ (time + 1))
  data := patient.data
  silenceFrom := patient.silenceFrom
  recheck := patient.recheck
  silence := by
    intro owes enabled
    have isLimit : s.limits.stall = some (millis s.limits.stallTimeoutMs) := if_pos enabled
    have short := stall_le_sole isLimit
    have owes : s.link.wasOwed = true := owes
    simp only [due, owes, Bool.true_and, Bool.or_eq_false_iff, List.any_eq_false,
      decide_eq_true_eq, not_le] at notDue
    have early := notDue.1 _ (LinkClock.mem_silenceDeadlines.mpr (.inr (.inl ⟨_, isLimit, rfl⟩)))
    dsimp only at early
    change s.now + time + 1 ≤ s.heardData + s.limits.sole
    have measured := patient.silenceFrom
    cases isRecheck : s.link.stallRecheck with
    | none =>
        rw [isRecheck, Option.elim_none] at early
        omega
    | some r =>
        have bounded := patient.recheck r isRecheck
        rw [isRecheck, Option.elim_some] at early
        omega

/-- The link heard nothing new, and has no new stall to keep. -/
theorem Patient.quiet (patient : s.Patient) {l : LinkClock} {ended : Option UpEnd}
    (data : l.dataMs = s.link.dataMs) (silenceFrom : l.silenceFrom ≤ s.heardData)
    (recheck : ∀ r ∈ l.stallRecheck, r ∈ s.link.stallRecheck ∨
      r ≤ s.link.silenceFrom + s.limits.sole)
    (owes : l.wasOwed = true → s.link.wasOwed = true) :
    Patient { s with link := l, ended } where
  past := patient.past
  data := data ▸ patient.data
  silenceFrom := silenceFrom
  recheck := by
    intro r isRecheck
    cases recheck r isRecheck with
    | inl before => exact patient.recheck r before
    | inr bounded => exact bounded.trans (Nat.add_le_add_right patient.silenceFrom _)
  silence := fun isOwed => patient.silence (owes isOwed)

/-- The link heard data now. -/
theorem Patient.heard (patient : s.Patient) {l : LinkClock} (data : millis l.dataMs ≤ s.now)
    (silenceFrom : l.silenceFrom ≤ s.now)
    (recheck : ∀ r ∈ l.stallRecheck, r ∈ s.link.stallRecheck) :
    Patient { s with link := l, heardData := s.now } where
  past := le_rfl
  data := data
  silenceFrom := silenceFrom
  recheck := fun r isRecheck =>
    (patient.recheck r (recheck r isRecheck)).trans (Nat.add_le_add_right patient.past _)
  silence := fun _ _ => Nat.le_add_right _ _

/-- What the frames of a read leave as it is. -/
structure Received (l l' : LinkClock) : Prop where
  readMs : l'.readMs = l.readMs
  wasOwed : l'.wasOwed = l.wasOwed
  stallRecheck : l'.stallRecheck = l.stallRecheck
  becameOwedAt : l'.becameOwedAt = l.becameOwedAt
  dataMs : l'.dataMs = l.dataMs ∨ l'.dataMs = l.readMs
  answered : (l'.pingAt = l.pingAt ∧ l'.probeUntil = l.probeUntil) ∨
    (l'.pingAt = none ∧ l'.probeUntil = none)

theorem received_foldl (frames : List Bool) (l : LinkClock) :
    Received l (frames.foldl LinkClock.noteFrame l) := by
  induction frames generalizing l with
  | nil => exact ⟨rfl, rfl, rfl, rfl, .inl rfl, .inl ⟨rfl, rfl⟩⟩
  | cons pong frames ih =>
      have first : Received l (l.noteFrame pong) := by
        cases pong with
        | false => exact ⟨rfl, rfl, rfl, rfl, .inr rfl, .inr ⟨rfl, rfl⟩⟩
        | true => exact ⟨rfl, rfl, rfl, rfl, .inl rfl, .inr ⟨rfl, rfl⟩⟩
      have answered : (l.noteFrame pong).pingAt = none ∧ (l.noteFrame pong).probeUntil = none := by
        cases pong <;> exact ⟨rfl, rfl⟩
      have rest := ih (l.noteFrame pong)
      refine ⟨rest.readMs.trans first.readMs, rest.wasOwed.trans first.wasOwed,
        rest.stallRecheck.trans first.stallRecheck, rest.becameOwedAt.trans first.becameOwedAt,
        ?_, .inr ?_⟩
      · cases rest.dataMs with
        | inl same => exact first.dataMs.imp same.trans same.trans
        | inr read => exact .inr (read.trans first.readMs)
      · cases rest.answered with
        | inl same => exact ⟨same.1.trans answered.1, same.2.trans answered.2⟩
        | inr both => exact both

/-- Replies to pings are no data. -/
theorem dataActivityMs_onlyPongs {frames : List Bool} (pongs : onlyPongs frames = true)
    (l : LinkClock) :
    (frames.foldl LinkClock.noteFrame l).dataMs = l.dataMs ∧
      (frames.foldl LinkClock.noteFrame l).dataActivityMs = l.dataMs := by
  suffices dataMs : ∀ l : LinkClock, (frames.foldl LinkClock.noteFrame l).dataMs = l.dataMs ∧
      (frames ≠ [] → (frames.foldl LinkClock.noteFrame l).pongMs = some l.readMs) by
    rw [onlyPongs, Bool.and_eq_true, Bool.not_eq_true', List.isEmpty_eq_false_iff] at pongs
    obtain ⟨same, pong⟩ := dataMs l
    refine ⟨same, ?_⟩
    rw [LinkClock.dataActivityMs, pong pongs.1, (received_foldl frames l).readMs, if_pos rfl, same]
  have all : ∀ frame ∈ frames, frame = true := by
    rw [onlyPongs, Bool.and_eq_true, List.all_eq_true] at pongs
    exact pongs.2
  clear pongs
  induction frames with
  | nil => exact fun l => ⟨rfl, fun empty => absurd rfl empty⟩
  | cons frame frames ih =>
      rw [List.forall_mem_cons] at all
      obtain ⟨rfl, rest⟩ := all
      intro l
      obtain ⟨same, pong⟩ := ih rest (l.noteFrame true)
      refine ⟨same, fun _ => ?_⟩
      cases frames with
      | nil => rfl
      | cons next frames => exact pong (List.cons_ne_nil _ _)

/-- A look changes neither the silence nor what is owed, and a stall is kept within the limit. -/
theorem Patient.look (patient : s.Patient) (canMove : Bool) :
    Patient { s with
      link := (s.link.look s.limits canMove s.now).1
      ended := (s.link.look s.limits canMove s.now).2 } := by
  obtain ⟨l, same, recheck, isLink | ⟨-, -, isLink⟩⟩ := s.link.look_cases s.limits canMove s.now
  all_goals
    rw [isLink]
    have owes : l.wasOwed = true → s.link.wasOwed = true := fun isOwed => same.wasOwed ▸ isOwed
    have silence : l.silenceFrom ≤ s.heardData := same.silenceFrom.trans_le patient.silenceFrom
    exact patient.quiet same.dataMs silence recheck owes

theorem Patient.read (patient : s.Patient) (frames : List Bool) :
    Patient { s with
      link := frames.foldl LinkClock.noteFrame { s.link with readMs := s.now / 1000000 }
      heardData := if onlyPongs frames then s.heardData else s.now } := by
  have received := received_foldl frames { s.link with readMs := s.now / 1000000 }
  have owedAt : s.link.becameOwedAt ≤ s.heardData :=
    (Nat.le_max_right _ _).trans patient.silenceFrom
  have recheck := received.stallRecheck
  split
  · rename_i pongs
    obtain ⟨same, activity⟩ := dataActivityMs_onlyPongs pongs
      { s.link with readMs := s.now / 1000000 }
    refine patient.quiet same ?_ (fun r isRecheck => .inl (recheck ▸ isRecheck))
      (fun owes => received.wasOwed ▸ owes)
    rw [LinkClock.silenceFrom, activity, received.becameOwedAt]
    exact max_le patient.data owedAt
  · have readNow : millis (s.now / 1000000) ≤ s.now := Nat.div_mul_le_self _ _
    have data : millis (frames.foldl LinkClock.noteFrame
        { s.link with readMs := s.now / 1000000 }).dataMs ≤ s.now := by
      cases received.dataMs with
      | inl same => exact same ▸ patient.data.trans patient.past
      | inr read => exact read ▸ readNow
    refine patient.heard data (max_le ?_ ?_) (fun r isRecheck => recheck ▸ isRecheck)
    · unfold LinkClock.dataActivityMs
      split
      · exact data
      · rw [received.readMs]
        exact readNow
    · rw [received.becameOwedAt]
      exact owedAt.trans patient.past

theorem Patient.owes (patient : s.Patient) (isOwed : Bool) :
    Patient { s with
      link := s.link.updateOwed isOwed s.now
      heardData := if isOwed && !s.link.wasOwed then s.now else s.heardData } := by
  have activity : millis s.link.dataActivityMs ≤ s.heardData :=
    (Nat.le_max_left _ _).trans patient.silenceFrom
  split
  · rename_i starts
    refine patient.heard (patient.data.trans patient.past) ?_ (fun r isRecheck => isRecheck)
    refine max_le (activity.trans patient.past) ?_
    rw [LinkClock.updateOwed, if_pos starts]
  · rename_i goesOn
    refine patient.quiet rfl ?_ (fun r isRecheck => .inl isRecheck) ?_
    · rw [LinkClock.silenceFrom, LinkClock.updateOwed, if_neg goesOn]
      exact patient.silenceFrom
    · intro owes
      have isOwed : isOwed = true := owes
      simpa [isOwed] using goesOn

theorem Patient.step (patient : s.Patient) {e : WatchEvent} (onTime : s.OnTime e)
    (step : s.step e = some s') : s'.Patient := by
  unfold Watch.step at step
  split at step
  · cases step
  · cases e with
    | tick time =>
        cases step
        exact patient.tick onTime
    | read frames =>
        cases step
        exact patient.read frames
    | progress =>
        cases step
        have activity : millis s.link.dataActivityMs ≤ s.heardData :=
          (Nat.le_max_left _ _).trans patient.silenceFrom
        exact patient.heard (patient.data.trans patient.past)
          (max_le (activity.trans patient.past) le_rfl) (fun r isRecheck => isRecheck)
    | owes isOwed =>
        cases step
        exact patient.owes isOwed
    | view monitorOffline =>
        cases step
        exact patient.quiet rfl patient.silenceFrom
          (fun r isRecheck => absurd isRecheck (Option.not_mem_none r)) id
    | lost =>
        simp only [Option.ite_none_right_eq_some] at step
        cases step.2
        unfold LinkClock.onUpstreamOffline
        split
        · exact patient.quiet rfl patient.silenceFrom (fun r isRecheck => .inl isRecheck) id
        · exact patient
    | timer canMove =>
        cases step
        exact patient.look canMove

/-- The later of the last read and the takeover of the link. -/
def heard (s : Watch) : Nat := max s.link.lastRead s.since

/-- The liveness timeout. -/
def patience (s : Watch) : Nat := millis s.limits.livenessTimeoutMs

/-- How long the link has been without a byte from its upstream.  It is pinged after half the
timeout, and ended after the whole of it, or half of it later when a probe started meanwhile.  Reads
are recorded to the millisecond. -/
structure Bounded (s : Watch) : Prop where
  unpinged : s.link.pingAt = none → s.now ≤ s.heard + s.patience / 2 + 1000000
  pinged : s.link.probeUntil = none → ∀ p ∈ s.link.pingAt, p ≤ s.heard + s.patience / 2 + 1000000
  unprobed : s.link.probeUntil = none → s.now ≤ s.heard + s.patience + 1000000
  probed : ∀ p ∈ s.link.pingAt, p ≤ s.heard + s.patience + 1000000
  silence : s.now ≤ s.heard + s.patience + s.patience / 2 + 1000000

structure Alive (s : Watch) : Prop where
  read : s.link.lastRead ≤ s.now
  taken : s.since ≤ s.now
  paired : s.link.pingAt = none → s.link.probeUntil = none
  bounded : 0 < s.limits.livenessTimeoutMs → s.Bounded

theorem Alive.start {limits : Timeouts} {now readMs : Nat} (read : millis readMs ≤ now) :
    Alive (.start limits now readMs) where
  read := read
  taken := le_rfl
  paired := fun _ => rfl
  bounded := by
    intro _
    have heard : now ≤ (Watch.start limits now readMs).heard := Nat.le_max_right _ _
    exact
      { unpinged := fun _ => heard.trans (by omega)
        pinged := fun _ => nofun
        unprobed := fun _ => heard.trans (by omega)
        probed := nofun
        silence := heard.trans (by omega) }

theorem Alive.tick (alive : s.Alive) {time : Nat}
    (notDue : { s with now := s.now + time }.due = false) :
    Alive { s with now := s.now + time + 1 } where
  read := alive.read.trans (Nat.le_add_right _ (time + 1))
  taken := alive.taken.trans (Nat.le_add_right _ (time + 1))
  paired := alive.paired
  bounded := by
    intro enabled
    have bounded := alive.bounded enabled
    have isLimit : s.limits.liveness = some s.patience := if_pos enabled
    have heard : s.link.lastRead ≤ s.heard := Nat.le_max_left _ _
    rw [due, Bool.or_eq_false_iff] at notDue
    have early : ∀ due ∈ s.link.livenessDeadline s.limits, s.now + time < due :=
      isDue_eq_false.mp notDue.2
    have unprobed : s.link.probeUntil = none →
        s.now + time + 1 ≤ s.heard + s.patience + 1000000 := by
      intro noProbe
      cases isPing : s.link.pingAt with
      | none =>
          have early := early _ (LinkClock.livenessDeadline_unpinged isLimit isPing noProbe)
          omega
      | some p =>
          have ping := bounded.pinged noProbe p isPing
          have early := early _ (LinkClock.livenessDeadline_pinged isLimit isPing noProbe)
          omega
    exact
      { unpinged := by
          intro noPing
          have early := early _
            (LinkClock.livenessDeadline_unpinged isLimit noPing (alive.paired noPing))
          change s.now + time + 1 ≤ s.heard + s.patience / 2 + 1000000
          omega
        pinged := bounded.pinged
        unprobed := unprobed
        probed := bounded.probed
        silence := by
          change s.now + time + 1 ≤ s.heard + s.patience + s.patience / 2 + 1000000
          cases isProbe : s.link.probeUntil with
          | none => exact (unprobed isProbe).trans (by omega)
          | some probe =>
              cases isPing : s.link.pingAt with
              | none => exact absurd (alive.paired isPing) (by simp [isProbe])
              | some p =>
                  have ping := bounded.probed p isPing
                  have early := (early _
                    (LinkClock.livenessDeadline_probed isLimit isPing isProbe)).trans_le
                      (Nat.min_le_right _ _)
                  omega }

theorem le_millis_div (n : Nat) : n ≤ millis (n / 1000000) + 1000000 := by
  unfold millis
  omega

/-- Bytes may arrive; the ping and the probe stay, or a frame that was just read answers them. -/
theorem Alive.mono (alive : s.Alive) (limits : s'.limits = s.limits) (now : s'.now = s.now)
    (since : s'.since = s.since) (read : s'.link.lastRead ≤ s.now)
    (later : s.link.lastRead ≤ s'.link.lastRead)
    (answered : (s'.link.pingAt = s.link.pingAt ∧ s'.link.probeUntil = s.link.probeUntil) ∨
      ((s'.link.pingAt = none ∧ s'.link.probeUntil = none) ∧
        s.now ≤ s'.link.lastRead + 1000000)) : s'.Alive where
  read := now ▸ read
  taken := now ▸ since ▸ alive.taken
  paired := by
    intro noPing
    cases answered with
    | inl same => exact same.2.trans (alive.paired (same.1.symm.trans noPing))
    | inr both => exact both.1.2
  bounded := by
    intro enabled
    have bounded := alive.bounded (limits ▸ enabled)
    have isPatience : s'.patience = s.patience := by rw [patience, limits, patience]
    have heard : s.heard ≤ s'.heard := by
      unfold Watch.heard
      rw [since]
      exact max_le_max later le_rfl
    have heardRead : s'.link.lastRead ≤ s'.heard := Nat.le_max_left _ _
    have silence := bounded.silence
    cases answered with
    | inl same =>
        constructor
        · intro noPing
          have unpinged := bounded.unpinged (same.1.symm.trans noPing)
          omega
        · intro noProbe p isPing
          have pinged := bounded.pinged (same.2.symm.trans noProbe) p (same.1 ▸ isPing)
          omega
        · intro noProbe
          have unprobed := bounded.unprobed (same.2.symm.trans noProbe)
          omega
        · intro p isPing
          have probed := bounded.probed p (same.1 ▸ isPing)
          omega
        · omega
    | inr both =>
        obtain ⟨⟨noPing, noProbe⟩, recent⟩ := both
        constructor
        · intro _
          omega
        · simp [noPing]
        · intro _
          omega
        · simp [noPing]
        · omega

/-- A ping of a link that was not pinged, or that is probed for the first time. -/
theorem Alive.ping (alive : s.Alive) (noProbe : s.link.probeUntil = none) (l : LinkClock)
    (read : l.readMs = s.link.readMs) (isPing : l.pingAt = some s.now)
    (first : l.probeUntil = none → s.link.pingAt = none) (ended : Option UpEnd) :
    Alive { s with link := l, ended } := by
  have isRead : l.lastRead = s.link.lastRead := LinkClock.lastRead_eq read
  have heard : Watch.heard { s with link := l, ended } = s.heard := by
    rw [Watch.heard, isRead, Watch.heard]
  have isPatience : Watch.patience { s with link := l, ended } = s.patience := rfl
  constructor
  · exact isRead.le.trans alive.read
  · exact alive.taken
  · intro noPing
    exact absurd (isPing.symm.trans noPing) nofun
  · intro enabled
    have bounded := alive.bounded enabled
    have unprobed := bounded.unprobed noProbe
    constructor
    · intro noPing
      exact absurd (isPing.symm.trans noPing) nofun
    · intro stillNone p isPinged
      cases isPing.symm.trans isPinged
      have unpinged := bounded.unpinged (first stillNone)
      omega
    · intro _
      change s.now ≤ _
      omega
    · intro p isPinged
      cases isPing.symm.trans isPinged
      omega
    · have silence := bounded.silence
      change s.now ≤ _
      omega

theorem Alive.look (alive : s.Alive) (canMove : Bool) :
    Alive { s with
      link := (s.link.look s.limits canMove s.now).1
      ended := (s.link.look s.limits canMove s.now).2 } := by
  obtain ⟨l, same, -, isLink | ⟨unpinged, noProbe, isLink⟩⟩ :=
    s.link.look_cases s.limits canMove s.now
  · rw [isLink]
    have isRead : l.lastRead = s.link.lastRead := LinkClock.lastRead_eq same.readMs
    exact alive.mono rfl rfl rfl (isRead.le.trans alive.read) isRead.ge
      (.inl ⟨same.pingAt, same.probeUntil⟩)
  · rw [isLink]
    exact alive.ping noProbe { l with pingAt := some s.now } same.readMs rfl
      (fun _ => unpinged) _

theorem Alive.step (alive : s.Alive) {e : WatchEvent} (onTime : s.OnTime e)
    (step : s.step e = some s') : s'.Alive := by
  unfold Watch.step at step
  split at step
  · cases step
  · cases e with
    | tick time =>
        cases step
        exact alive.tick onTime
    | read frames =>
        cases step
        have received := received_foldl frames { s.link with readMs := s.now / 1000000 }
        have isRead := LinkClock.lastRead_eq received.readMs
        have recent := le_millis_div s.now
        have read := alive.read
        simp only [LinkClock.lastRead] at isRead read
        refine alive.mono rfl rfl rfl ?_ ?_ (received.answered.imp_right fun both => ⟨both, ?_⟩)
        · exact isRead.le.trans (Nat.div_mul_le_self _ _)
        · apply isRead.ge.trans'
          change millis s.link.readMs ≤ millis (s.now / 1000000)
          unfold millis at read ⊢
          omega
        · exact recent.trans (Nat.add_le_add_right isRead.ge _)
    | progress | owes _ | view _ =>
        cases step
        exact alive.mono rfl rfl rfl alive.read le_rfl (.inl ⟨rfl, rfl⟩)
    | lost =>
        simp only [Option.ite_none_right_eq_some] at step
        cases step.2
        unfold LinkClock.onUpstreamOffline
        split
        · rename_i noProbe
          exact alive.ping (Option.isNone_iff_eq_none.mp noProbe)
            { s.link with probeUntil := some (s.now + offlineProbe), pingAt := some s.now }
            rfl rfl (fun isNone => absurd isNone (Option.some_ne_none _)) s.ended
        · exact alive
    | timer canMove =>
        cases step
        exact alive.look canMove

/-- A limit that ended the link had been reached. -/
def Reached (s : Watch) : UpEnd → Prop
  | .idle => s.link.silenceFrom + millis s.limits.idleTimeoutMs ≤ s.now
  | .stall => s.link.silenceFrom + millis s.limits.stallTimeoutMs ≤ s.now
  | .monitorOffline =>
      s.link.monitorOffline = true ∧ s.link.silenceFrom + monitorOfflineSilence ≤ s.now
  | .silent => s.link.lastRead + min offlineProbe s.patience ≤ s.now
  | _ => False

theorem due_of_firstDue {now : Nat} {keeps : Bool} {deadlines : List (Nat × UpEnd)} {«end» : UpEnd}
    (isFirst : (LinkClock.firstDue now keeps deadlines).2 = some «end») :
    ∃ d ∈ deadlines, d.2 = «end» ∧ d.1 ≤ now := by
  induction deadlines with
  | nil => cases isFirst
  | cons d rest ih =>
      unfold LinkClock.firstDue at isFirst
      split at isFirst
      · obtain ⟨e, member, found⟩ := ih isFirst
        exact ⟨e, List.mem_cons_of_mem _ member, found⟩
      · split at isFirst
        · obtain ⟨e, member, found⟩ := ih isFirst
          exact ⟨e, List.mem_cons_of_mem _ member, found⟩
        · exact ⟨_, List.mem_cons_self, Option.some.inj isFirst, not_lt.mp ‹_›⟩

/-- A recheck never brings a stall forward. -/
theorem le_elim_max (recheck : Option Nat) (due : Nat) :
    due ≤ recheck.elim due fun r => max r due := by
  cases recheck with
  | none => exact le_rfl
  | some r => exact Nat.le_max_right r due

theorem due_of_silenceDue {limits : Timeouts} {canMove : Bool} {now : Nat} {l : LinkClock}
    {«end» : UpEnd} (isEnd : (l.silenceDue limits canMove now).2 = some «end») :
    (l.silenceDue limits canMove now).1 = l ∧
      ∃ d ∈ l.silenceDeadlines limits, d.2 = «end» ∧ d.1 ≤ now := by
  unfold LinkClock.silenceDue at isEnd ⊢
  split
  · rename_i owes
    rw [if_pos owes] at isEnd
    dsimp only at isEnd ⊢
    split at isEnd
    · cases isEnd
    · rename_i kept due _ isFirst
      exact ⟨rfl, due_of_firstDue ((congrArg Prod.snd isFirst).trans isEnd)⟩
  · rename_i notOwed
    rw [if_neg notOwed] at isEnd
    cases isEnd

/-- A link is ended for nothing but a limit that was reached. -/
theorem reached_look (alive : s.Alive) (canMove : Bool) :
    ∀ reason ∈ (s.link.look s.limits canMove s.now).2,
      Reached { s with
        link := (s.link.look s.limits canMove s.now).1
        ended := (s.link.look s.limits canMove s.now).2 } reason := by
  have looks := LinkClock.looks s.limits canMove s.now s.link
  generalize s.link.look s.limits canMove s.now = looked at looks
  cases looks with
  | ended isEnd =>
      intro reason isReason
      cases isReason
      obtain ⟨same, d, member, rfl, due⟩ := due_of_silenceDue isEnd
      rw [same]
      rcases LinkClock.mem_silenceDeadlines.mp member with ⟨limit, isLimit, rfl⟩ |
        ⟨limit, isLimit, rfl⟩ | ⟨isOffline, rfl⟩
      · rw [(timeout_eq isLimit).2] at due
        exact due
      · rw [(timeout_eq isLimit).2] at due
        exact (le_elim_max _ _).trans due
      · exact ⟨isOffline, due⟩
  | @silent l lives due pinged =>
      intro reason isReason
      cases isReason
      have same := LinkClock.sameLink_silenceDue s.limits canMove s.now s.link
      rw [lives] at same
      obtain ⟨deadline, isDeadline, reached⟩ := isDue_eq_true.mp due
      obtain ⟨limit, isLimit, -⟩ := Option.map_eq_some_iff.mp isDeadline
      have isPatience : limit = s.patience := (timeout_eq isLimit).2
      change l.lastRead + min offlineProbe s.patience ≤ s.now
      cases isPing : l.pingAt with
      | none =>
          have noProbe : l.probeUntil = none :=
            same.probeUntil.trans (alive.paired (same.pingAt.symm.trans isPing))
          simp [isPing, noProbe] at pinged
      | some p =>
          cases isProbe : l.probeUntil with
          | none =>
              rw [LinkClock.livenessDeadline_pinged isLimit isPing isProbe,
                Option.mem_some] at isDeadline
              generalize offlineProbe = wait
              omega
          | some probe =>
              rw [LinkClock.livenessDeadline_probed isLimit isPing isProbe,
                Option.mem_some] at isDeadline
              generalize offlineProbe = wait at isDeadline ⊢
              omega
  | ping | quiet => exact nofun

theorem reached_step (alive : s.Alive) {e : WatchEvent} (step : s.step e = some s') :
    ∀ reason ∈ s'.ended, s'.Reached reason := by
  unfold Watch.step at step
  split at step
  · cases step
  · rename_i lives
    rw [Option.not_isSome_iff_eq_none] at lives
    cases e with
    | timer canMove =>
        cases step
        exact reached_look alive canMove
    | lost =>
        simp only [Option.ite_none_right_eq_some] at step
        cases step.2
        simp [lives]
    | tick _ | read _ | progress | owes _ | view _ =>
        cases step
        simp [lives]

variable {limits : Timeouts}

theorem alive (reachable : Reachable (watchMachine limits) OnTime s) : s.Alive := by
  apply reachable.invariant (P := Alive)
  · rintro s ⟨now, readMs, read, rfl⟩
    exact .start read
  · exact fun s e s' _ alive onTime step => alive.step onTime step

theorem patient (reachable : Reachable (watchMachine limits) OnTime s) : s.Patient := by
  apply reachable.invariant (P := Patient)
  · rintro s ⟨now, readMs, read, rfl⟩
    exact .start read
  · exact fun s e s' _ patient onTime step => patient.step onTime step

/-- Under a timer that is on time a link that owes blocks lasts at most three stall timeouts after
it last heard anything but replies to its pings, and one whose upstream sends no byte at most one
and a half liveness timeouts and a millisecond.  A link is ended only by a limit that was
reached. -/
theorem link_ended_in_time (reachable : Reachable (watchMachine limits) OnTime s) :
    (s.link.wasOwed = true → 0 < s.limits.stallTimeoutMs →
        s.now ≤ s.heardData + millis s.limits.stallTimeoutMs * 3) ∧
      (0 < s.limits.livenessTimeoutMs →
        s.now ≤ max s.link.lastRead s.since + millis s.limits.livenessTimeoutMs +
          millis s.limits.livenessTimeoutMs / 2 + 1000000) ∧
      ∀ reason ∈ s.ended, s.Reached reason := by
  refine ⟨(patient reachable).silence,
    fun enabled => ((alive reachable).bounded enabled).silence, ?_⟩
  cases reachable with
  | start isInitial =>
      obtain ⟨now, readMs, _, rfl⟩ := isInitial
      exact nofun
  | next before _ step => exact reached_step (alive before) step

/-- The stall of a sole upstream is kept after one millisecond.  Part of a message puts it off,
until a reply to a ping takes that back; the link is ended all the same. -/
def soleStall : List WatchEvent :=
  [.owes true, .tick 999999, .timer false, .tick 999999, .read [], .tick 999999, .timer false,
    .read [true], .tick 1999999, .timer false]

theorem link_ended_in_time_sole :
    ∃ s, Reachable (watchMachine ⟨0, 1, 0, 0⟩) OnTime s ∧ s.ended = some .stall ∧
      s.now = s.link.silenceFrom + 5000000 ∧ s.now ≤ s.heardData + 3000000 ∧
      s.Reached .stall := by
  have found : ∃ s, Reachable (watchMachine ⟨0, 1, 0, 0⟩) OnTime s ∧ s.ended = some .stall ∧
      s.now = s.link.silenceFrom + 5000000 ∧ s.limits.stallTimeoutMs = 1 ∧
      s.link.wasOwed = true :=
    exists_reachable_of_run soleStall ⟨0, 0, le_rfl, rfl⟩ (by decide +kernel)
  obtain ⟨s, reachable, isEnd, now, stall, owes⟩ := found
  have inTime := link_ended_in_time reachable
  refine ⟨s, reachable, isEnd, now, ?_, inTime.2.2 _ isEnd⟩
  have bound := inTime.1 owes (stall ▸ Nat.one_pos)
  rw [stall] at bound
  exact bound

end Watch

end FleetRouter.Session
