import FleetRouter.Lib.Transition
import FleetRouter.Fleet.Alternative
import FleetRouter.Session.Stitched

/-!
# The budget of one block

A block that kills every stream is retried a few times, then the client is closed.  The
session counts the ends charged to its next block; requests, forwarded results and ends
at other blocks move that counter in any order.  Plans and dials stand in the model as
moves of the environment: they may replace the link, never the counter.
-/

namespace FleetRouter.Session

open Ship Fleet Transition

/-- A link with what its end is judged by. -/
structure EndingLink where
  st : LinkState
  endpoint : String
  unknownForwardedAt : Option Nat
  deriving DecidableEq, Repr

/-- How the end of a link closed the client, with the reason that is logged. -/
structure Ending where
  code : Nat
  reason : String
  endReason : String
  deriving DecidableEq, Repr

/-- What a session does when a link ends; a backoff is given before its jitter. -/
inductive SessionPhase where
  | idle
  | streaming
  | backoff (delay failures : Nat)
  /-- A dial, a hold or a wait. -/
  | planning
  deriving DecidableEq, Repr

structure FailoverSession where
  topology : Topology
  c : ClientSide
  link : Option EndingLink
  /-- The slot of the link that ended is held. -/
  slotKept : Bool
  phase : SessionPhase
  /-- The next block and the failures charged to it. -/
  stuckAt : Option (Fin (2 ^ 32) × Fin (2 ^ 32))
  ex : Excludes
  failovers : Nat
  movedFrom : Option (String × FailoverReason)
  /-- The failures noted against upstreams. -/
  blockFailures : List (String × Fin (2 ^ 32))
  ending : Option Ending
  deriving DecidableEq

namespace FailoverSession

def fresh (topology : Topology) : FailoverSession where
  topology := topology
  c := .default
  link := none
  slotKept := false
  phase := .idle
  stuckAt := none
  ex := ⟨none, []⟩
  failovers := 0
  movedFrom := none
  blockFailures := []
  ending := none

variable (s : FailoverSession)

/-- The request is satisfied, or the link's frozen leg is done. -/
def finished (link : EndingLink) : Bool :=
  !s.c.inProgress || (link.st.role = .frozen && link.st.legDone)

def retireLink (keepSlot : Bool) : FailoverSession := { s with link := none, slotKept := keepSlot }

/-- Fail over from `link`, unless the budget of the next block is used up. -/
def failOver (link : EndingLink) (now : Nat) (strike budget : Bool) (delay : Nat)
    (exclusion : Exclusion) (reason : FailoverReason) : FailoverSession :=
  let block := s.c.req.map fun _ => s.c.cursor
  let s := { s with
    blockFailures := match strike, block with
      | true, some k => s.blockFailures ++ [(link.endpoint, k)]
      | _, _ => s.blockFailures }
  let plan := planSameBlockFailover s.stuckAt budget block delay
  let s := { s with stuckAt := plan.2 }
  match plan.1.closeReason with
  | some closeReason => { s with ending := some ⟨1011, closeReason, "block unavailable"⟩ }
  | none =>
      { s with
        ex := s.ex.leave link.endpoint now exclusion
        failovers := s.failovers + 1
        movedFrom := some (link.endpoint, reason)
        phase := .backoff plan.1.delay plan.1.failures.val }

/-- The link ended: classify the end, strike the upstream when it is to blame, and back
off or close the client. -/
def onLinkEnd (reason : UpEnd) (now : Nat) : FailoverSession :=
  match s.link with
  | none => s
  | some link =>
      if s.topology = .stitched && s.finished link && Stitched.quietEnd reason then
        { s.retireLink false with
          ex := if reason = .moved then { s.ex with soft := some link.endpoint } else s.ex
          phase := if s.phase = .streaming then .idle else s.phase }
      else
        let s := s.retireLink true
        match classify reason ⟨link.st.role, link.unknownForwardedAt⟩ s.c.cursor now with
        | .closeClient code closeReason tooLarge =>
            { s with
              ending := some ⟨code, closeReason,
                if tooLarge then "message too large" else "unsupported request"⟩ }
        | .failover strike budget delay exclusion failoverReason =>
            s.failOver link now strike budget delay exclusion failoverReason

/-- What a new request changes before anything is planned for it. -/
def onClientRequest (r : BlocksRequest) : FailoverSession :=
  { s with
    c := (s.c.newRequest r).1
    stuckAt := none
    link := s.link.map fun link => { link with st := { link.st with resumeFloor := none } } }

/-- A result at or past the block the session is stuck at frees it. -/
def freed (stuckAt : Option (Fin (2 ^ 32) × Fin (2 ^ 32))) (n : Option (Fin (2 ^ 32))) :
    Option (Fin (2 ^ 32) × Fin (2 ^ 32)) :=
  if stuckAt.any fun stuck => n.any fun n => stuck.1 ≤ n then none else stuckAt

/-- A result of `link` was forwarded. -/
def onForwarded (link : EndingLink) (c : ClientSide) (st : LinkState) (fw : Forward) :
    FailoverSession :=
  { s with
    c, link := some { link with st }
    stuckAt := freed s.stuckAt fw.cls.n }

end FailoverSession

/-! ## The session that is stitched -/

/-- The phases as the ends of links tell them apart. -/
inductive SessionPhase.Of : SessionPhase → Phase → Prop
  | idle : Of .idle .idle
  | streaming : Of .streaming .streaming
  | backoff (delay failures : Nat) (purpose : Purpose) :
      Of (.backoff delay failures) (.backoff purpose)
  | dialing (purpose : Purpose) (step : Option PlannedLeg) : Of .planning (.dialing purpose step)
  | holding (purpose : Purpose) : Of .planning (.holding purpose)
  | waiting (block : Fin (2 ^ 32)) (purpose : Purpose) : Of .planning (.waiting block purpose)

theorem SessionPhase.Of.ne_closed {phase : SessionPhase} {phase' : Phase} (same : phase.Of phase') :
    phase' ≠ .closed := by
  rintro rfl
  cases same

/-- A stream that ends leaves nothing to do. -/
theorem SessionPhase.Of.quiet {phase : SessionPhase} {phase' : Phase} :
    phase.Of phase' → (if phase = .streaming then .idle else phase).Of
      (match phase' with
        | .streaming => .idle
        | phase => phase) := by
  intro same
  cases same with
  | idle => exact .idle
  | streaming => exact .idle
  | backoff delay failures purpose => exact .backoff delay failures purpose
  | dialing purpose step => exact .dialing purpose step
  | holding purpose => exact .holding purpose
  | waiting block purpose => exact .waiting block purpose

/-- The two models of a stitched session say the same of its client, its link and its phase. -/
structure FailoverSession.Of (f : FailoverSession) (s : Stitched) : Prop where
  topology : f.topology = .stitched
  c : f.c = s.c
  link : f.link.map EndingLink.st = s.link.map Link.st
  closed : f.ending.isSome = true ↔ s.phase = .closed
  phase : f.ending = none → f.phase.Of s.phase

section Of

variable {f : FailoverSession} {s : Stitched}

theorem FailoverSession.failOver_cases (link : EndingLink) (now : Nat) (strike budget : Bool)
    (delay : Nat) (exclusion : Exclusion) (reason : FailoverReason) {P : FailoverSession → Prop}
    (closes : ∀ blockFailures stuckAt ending,
      P { f with blockFailures, stuckAt, ending := some ending })
    (leaves : ∀ blockFailures stuckAt ex failovers movedFrom delay failures,
      P { f with blockFailures, stuckAt, ex, failovers, movedFrom
                 phase := .backoff delay failures }) :
    P (f.failOver link now strike budget delay exclusion reason) := by
  unfold failOver
  dsimp only
  split
  · exact closes _ _ _
  · exact leaves _ _ _ _ _ _ _

/-- The ends of links are judged alike: the stitched session closes its client when the budget of
the block or the reason for the end says so. -/
theorem FailoverSession.Of.onLinkEnd (same : f.Of s) (isOpen : f.ending = none) (reason : UpEnd)
    (now : Nat) :
    (f.onLinkEnd reason now).Of (s.onLinkEnd reason (f.onLinkEnd reason now).ending.isSome) := by
  have links := same.link
  have phases := same.phase isOpen
  cases isLink : f.link with
  | none =>
      rw [isLink, Option.map_none, eq_comm, Option.map_eq_none_iff] at links
      have left : f.onLinkEnd reason now = f := by simp only [FailoverSession.onLinkEnd, isLink]
      have right (closes : Bool) : s.onLinkEnd reason closes = s := by
        simp only [Stitched.onLinkEnd, links]
      rw [left, right]
      exact same
  | some link =>
      rw [isLink, Option.map_some, eq_comm, Option.map_eq_some_iff] at links
      obtain ⟨link', isLink', isSt⟩ := links
      have finished : f.finished link =
          (!s.c.inProgress || (link'.st.role = .frozen && link'.st.legDone)) := by
        rw [FailoverSession.finished, same.c, isSt]
      simp only [FailoverSession.onLinkEnd, Stitched.onLinkEnd, isLink, isLink', finished,
        same.topology, decide_true, Bool.true_and]
      split
      · -- the link owes nothing
        refine ⟨same.topology, same.c, rfl, ?_, fun _ => ?_⟩
        · change f.ending.isSome = true ↔ _
          rw [isOpen]
          exact iff_of_false Bool.false_ne_true phases.quiet.ne_closed
        · exact phases.quiet
      · cases classify reason ⟨link.st.role, link.unknownForwardedAt⟩
            (f.retireLink true).c.cursor now with
        | closeClient code closeReason tooLarge =>
            exact ⟨same.topology, same.c, rfl, iff_of_true rfl rfl, nofun⟩
        | failover strike budget delay exclusion failoverReason =>
            dsimp only
            refine failOver_cases (f := f.retireLink true) link now strike budget delay exclusion
              failoverReason (P := fun f' => f'.Of (if f'.ending.isSome = true then s.close
                else { s.retireLink with phase := .backoff .failover })) ?_ ?_
            · intro blockFailures stuckAt ending
              exact ⟨same.topology, same.c, rfl, iff_of_true rfl rfl, nofun⟩
            · intro blockFailures stuckAt ex failovers movedFrom delay failures
              have stays : ((f.retireLink true).ending.isSome = true) = False := by
                simp [FailoverSession.retireLink, isOpen]
              simp only [stays, if_false]
              refine ⟨same.topology, same.c, rfl, ?_, fun _ => .backoff delay failures _⟩
              simp [FailoverSession.retireLink, isOpen]

end Of

/-! ## The history -/

/-- The end of a link, with what the session knew about it. -/
structure EndRecord where
  cursor : Fin (2 ^ 32)
  reason : UpEnd
  role : Role
  unknownForwardedAt : Option Nat
  now : Nat
  /-- The client has made a request. -/
  asked : Bool
  /-- Not a stitched link that owes nothing. -/
  owes : Bool
  deriving DecidableEq, Repr

namespace EndRecord

/-- The end of an upstream at fault: an unclean drop the client did not bring about, a
frozen stall or a contract violation. -/
def blamed (e : EndRecord) : Bool :=
  match e.reason with
  | .unclean => !e.unknownForwardedAt.any fun since => e.now - since ≤ clientInducedWindow
  | .stall => e.role = .frozen
  | .violation _ => true
  | _ => false

/-- The end is charged to the next block of the request: the upstream is to blame, and
the link owed something or broke its contract. -/
def charged (e : EndRecord) : Bool :=
  e.blamed && e.asked && (e.owes || !Stitched.quietEnd e.reason)

end EndRecord

inductive Mark where
  | request
  /-- A forwarded result, of a block if that is known. -/
  | result (n : Option (Fin (2 ^ 32)))
  | linkEnd (e : EndRecord)
  deriving DecidableEq, Repr

/-- The counted ends at block `k`, newest first, since the last request, the last result
at or above `k` and the last counted end at another block. -/
def countAt (counts : EndRecord → Bool) (k : Fin (2 ^ 32)) : List Mark → Nat
  | [] => 0
  | .request :: _ => 0
  | .result n :: older => if n.any fun n => k ≤ n then 0 else countAt counts k older
  | .linkEnd e :: older =>
      if counts e then if e.cursor = k then countAt counts k older + 1 else 0
      else countAt counts k older

/-- A session and its history. -/
structure BudgetRun where
  session : FailoverSession
  marks : List Mark

inductive SessionEvent where
  | request (r : BlocksRequest)
  | ack (n : Fin (2 ^ 32))
  | blockResult (answers : FleetAnswers) (h : ResultHead) (now : Nat)
  | ended (reason : UpEnd) (now : Nat)
  /-- A status result that was sent with this head and LIB. -/
  | statusSent (head lib : Option BlockPos)
  /-- A plan, a dial, a request sent or a wait: the session goes on with another link. -/
  | goOn (link : Option EndingLink) (slotKept : Bool) (phase : SessionPhase) (ex : Excludes)

namespace BudgetRun

variable (run : BudgetRun)

/-- The end of `link`, as the history keeps it. -/
def endRecord (link : EndingLink) (reason : UpEnd) (now : Nat) : EndRecord where
  cursor := run.session.c.cursor
  reason := reason
  role := link.st.role
  unknownForwardedAt := link.unknownForwardedAt
  now := now
  asked := run.session.c.req.isSome
  owes := !(run.session.topology = .stitched && run.session.finished link)

def ended (reason : UpEnd) (now : Nat) : BudgetRun where
  session := run.session.onLinkEnd reason now
  marks := match run.session.link with
    | some link => .linkEnd (run.endRecord link reason now) :: run.marks
    | none => run.marks

def onResult (answers : FleetAnswers) (h : ResultHead) (now : Nat) : BudgetRun :=
  match run.session.link with
  | none => run
  | some link =>
      match onBlockResult run.session.c link.st answers h with
      | .forwarded c st fw =>
          { session := run.session.onForwarded link c st fw
            marks := .result fw.cls.n :: run.marks }
      | .dropped st =>
          { run with session := { run.session with link := some { link with st } } }
      | .ended reason => run.ended reason now
      | .ignored => run

def react : SessionEvent → BudgetRun
  | .request r => { session := run.session.onClientRequest r, marks := .request :: run.marks }
  | .ack n => { run with session := { run.session with c := (run.session.c.ack n).1 } }
  | .blockResult answers h now => run.onResult answers h now
  | .ended reason now => run.ended reason now
  | .statusSent head lib =>
      { run with
        session :=
          { run.session with c := { run.session.c with headSent := head, libSent := lib } } }
  | .goOn link slotKept phase ex =>
      { run with session := { run.session with link, slotKept, phase, ex } }

/-- A session that closed its client does nothing more. -/
def step (event : SessionEvent) : Option BudgetRun :=
  if run.session.ending.isSome then none else some (run.react event)

/-- Every event is allowed. -/
def Any (_ : BudgetRun) (_ : SessionEvent) : Prop := True

instance (run : BudgetRun) (event : SessionEvent) : Decidable (Any run event) := .isTrue trivial

/-- The runs of a session of either topology. -/
def machine : Machine BudgetRun SessionEvent where
  init run := ∃ topology, run = ⟨.fresh topology, []⟩
  step := step

end BudgetRun

/-! ## The counter counts the history -/

/-- How the client is closed when the budget of block `k` is used up. -/
def unavailable (k : Fin (2 ^ 32)) : Ending := ⟨1011, blockUnavailableReason k, "block unavailable"⟩

/-- The failures charged to block `k`. -/
def failuresAt (stuckAt : Option (Fin (2 ^ 32) × Fin (2 ^ 32))) (k : Fin (2 ^ 32)) : Nat :=
  match stuckAt with
  | some (block, failures) => if block = k then failures.val else 0
  | none => 0

@[simp] theorem failuresAt_none (k : Fin (2 ^ 32)) : failuresAt none k = 0 := rfl

theorem failuresAt_some (block failures k : Fin (2 ^ 32)) :
    failuresAt (some (block, failures)) k = if block = k then failures.val else 0 := rfl

/-- What a result of block `n` leaves of the failures. -/
theorem failuresAt_freed (stuckAt : Option (Fin (2 ^ 32) × Fin (2 ^ 32)))
    (n : Option (Fin (2 ^ 32))) (k : Fin (2 ^ 32)) :
    failuresAt (FailoverSession.freed stuckAt n) k =
      if n.any fun n => k ≤ n then 0 else failuresAt stuckAt k := by
  cases stuckAt with
  | none => exact (ite_self _).symm
  | some stuck =>
      obtain ⟨block, failures⟩ := stuck
      cases n with
      | none => rfl
      | some n =>
          simp only [FailoverSession.freed, Option.any_some, decide_eq_true_eq]
          by_cases same : block = k
          · subst same
            split_ifs <;> rfl
          · have unused : failuresAt (some (block, failures)) k = 0 := if_neg same
            split_ifs <;> simp only [failuresAt_none, unused]

theorem classify_blamed (e : EndRecord) :
    (∃ code reason tooLarge, e.blamed = false ∧
      classify e.reason ⟨e.role, e.unknownForwardedAt⟩ e.cursor e.now =
        .closeClient code reason tooLarge) ∨
    ∃ strike delay exclusion why,
      classify e.reason ⟨e.role, e.unknownForwardedAt⟩ e.cursor e.now =
        .failover strike e.blamed delay exclusion why := by
  cases reason : e.reason with
  | unclean =>
      simp only [classify, EndRecord.blamed, reason]
      split
      · rename_i induced
        exact .inl ⟨_, _, _, by rw [induced]; rfl, rfl⟩
      · rename_i induced
        rw [Bool.not_eq_true] at induced
        exact .inr ⟨true, cleanDelay, .soft, .unclean, by rw [induced]; rfl⟩
  | stall =>
      simp only [classify, EndRecord.blamed, reason]
      cases e.role with
      | live | frozen => exact .inr ⟨_, _, _, _, rfl⟩
  | tooLarge =>
      have spared : e.blamed = false := by simp only [EndRecord.blamed, reason]
      exact .inl ⟨_, _, _, spared, rfl⟩
  | _ =>
      simp only [EndRecord.blamed, reason]
      exact .inr ⟨_, _, _, _, rfl⟩

section Plan

variable (stuckAt : Option (Fin (2 ^ 32) × Fin (2 ^ 32))) (k : Fin (2 ^ 32)) (delay : Nat)

/-- The failures a charged end at block `k` counts. -/
theorem planSameBlockFailover_failures (few : failuresAt stuckAt k ≤ 4) :
    ∃ failures : Fin (2 ^ 32), failures.val = failuresAt stuckAt k + 1 ∧
      (planSameBlockFailover stuckAt true (some k) delay).2 = some (k, failures) ∧
      (planSameBlockFailover stuckAt true (some k) delay).1.closeReason =
        if failuresAt stuckAt k = 4 then some (blockUnavailableReason k) else none := by
  have close (failures : Fin (2 ^ 32)) (counted : failures.val = failuresAt stuckAt k + 1) :
      (if maxSameBlockFailures ≤ failures.val then
          (⟨some (blockUnavailableReason k), cleanDelay, failures⟩ : SameBlockPlan)
        else ⟨none, sameBlockBackoff failures.val, failures⟩).closeReason =
      if failuresAt stuckAt k = 4 then some (blockUnavailableReason k) else none := by
    simp only [maxSameBlockFailures, counted]
    by_cases last : failuresAt stuckAt k = 4
    · simp [last]
    · have below : ¬ 5 ≤ failuresAt stuckAt k + 1 := by omega
      simp [last, below]
  cases stuckAt with
  | none => exact ⟨1, rfl, rfl, close 1 rfl⟩
  | some stuck =>
      obtain ⟨block, seen⟩ := stuck
      by_cases same : block = k
      · subst same
        rw [failuresAt_some, if_pos rfl] at few
        have counted : (saturatingAdd seen 1).val = failuresAt (some (block, seen)) block + 1 := by
          have := nextBlock_val seen
          simp only [nextBlock, u32Max] at this
          rw [failuresAt_some, if_pos rfl, this]
          omega
        refine ⟨saturatingAdd seen 1, counted, by simp [planSameBlockFailover], ?_⟩
        simpa [planSameBlockFailover] using close _ counted
      · have counted : (1 : Fin (2 ^ 32)).val = failuresAt (some (block, seen)) k + 1 := by
          rw [failuresAt_some, if_neg same]
          rfl
        refine ⟨1, counted, by simp [planSameBlockFailover, same], ?_⟩
        simpa [planSameBlockFailover, same] using close _ counted

theorem planSameBlockFailover_spared {budget : Bool} {block : Option (Fin (2 ^ 32))}
    (spared : (budget && block.isSome) = false) :
    planSameBlockFailover stuckAt budget block delay = (.passthrough delay, stuckAt) := by
  cases budget with
  | false => rfl
  | true =>
      cases block with
      | none => rfl
      | some block => simp at spared

end Plan

namespace FailoverSession

variable (s : FailoverSession) (link : EndingLink) (now : Nat) (strike : Bool) (delay : Nat)
  (exclusion : Exclusion) (reason : FailoverReason)

theorem failOver_charged (asked : s.c.req.isSome = true)
    (few : failuresAt s.stuckAt s.c.cursor ≤ 4) :
    (∃ failures : Fin (2 ^ 32), failures.val = failuresAt s.stuckAt s.c.cursor + 1 ∧
      (s.failOver link now strike true delay exclusion reason).stuckAt =
        some (s.c.cursor, failures)) ∧
    (s.failOver link now strike true delay exclusion reason).ending =
      if failuresAt s.stuckAt s.c.cursor = 4 then some (unavailable s.c.cursor) else s.ending := by
  obtain ⟨creq, request⟩ := Option.isSome_iff_exists.mp asked
  obtain ⟨failures, counted, stuck, closes⟩ :=
    planSameBlockFailover_failures s.stuckAt s.c.cursor delay few
  simp only [failOver, request, Option.map_some, closes]
  by_cases last : failuresAt s.stuckAt s.c.cursor = 4
  · simp only [last, if_true]
    exact ⟨⟨failures, by omega, stuck⟩, rfl⟩
  · simp only [last, if_false]
    exact ⟨⟨failures, counted, stuck⟩, trivial⟩

theorem failOver_spared {budget : Bool} (spared : (budget && s.c.req.isSome) = false) :
    (s.failOver link now strike budget delay exclusion reason).stuckAt = s.stuckAt ∧
      (s.failOver link now strike budget delay exclusion reason).ending = s.ending := by
  have plan : planSameBlockFailover s.stuckAt budget (s.c.req.map fun _ => s.c.cursor) delay =
      (.passthrough delay, s.stuckAt) :=
    planSameBlockFailover_spared s.stuckAt delay (by simpa using spared)
  simp only [failOver, plan, SameBlockPlan.passthrough, and_self]

end FailoverSession

namespace BudgetRun

variable {run : BudgetRun} {link : EndingLink} (reason : UpEnd) (now : Nat)

/-- Whether the link is dropped before its end is classified. -/
def drops (run : BudgetRun) (link : EndingLink) (reason : UpEnd) : Bool :=
  run.session.topology = .stitched && run.session.finished link && Stitched.quietEnd reason

theorem charged_eq : (run.endRecord link reason now).charged =
    ((run.endRecord link reason now).blamed && run.session.c.req.isSome &&
      !run.drops link reason) := by
  simp only [EndRecord.charged, endRecord, drops, Bool.not_and]

/-- A charged end counts at its block alone and closes the client when it is the fifth
there. -/
theorem onLinkEnd_charged (linked : run.session.link = some link)
    (few : failuresAt run.session.stuckAt run.session.c.cursor ≤ 4)
    (charged : (run.endRecord link reason now).charged = true) :
    (∃ failures : Fin (2 ^ 32),
      failures.val = failuresAt run.session.stuckAt run.session.c.cursor + 1 ∧
      (run.session.onLinkEnd reason now).stuckAt = some (run.session.c.cursor, failures)) ∧
    (run.session.onLinkEnd reason now).ending =
      if failuresAt run.session.stuckAt run.session.c.cursor = 4
      then some (unavailable run.session.c.cursor) else run.session.ending := by
  simp only [charged_eq, Bool.and_eq_true, Bool.not_eq_true'] at charged
  obtain ⟨⟨blamed, asked⟩, kept⟩ := charged
  obtain ⟨_, _, _, spared, _⟩ | ⟨strike, delay, exclusion, why, isFailover⟩ :=
    classify_blamed (run.endRecord link reason now)
  · rw [blamed] at spared
    cases spared
  · rw [blamed] at isFailover
    have failedOver : run.session.onLinkEnd reason now =
        (run.session.retireLink true).failOver link now strike true delay exclusion why := by
      simp only [FailoverSession.onLinkEnd, linked]
      rw [if_neg (by simpa [drops] using kept)]
      exact isFailover ▸ rfl
    rw [failedOver]
    exact (run.session.retireLink true).failOver_charged link now strike delay exclusion why
      asked few

/-- Any other end neither counts nor closes the client this way. -/
theorem onLinkEnd_spared (linked : run.session.link = some link)
    (isOpen : run.session.ending = none)
    (spared : (run.endRecord link reason now).charged = false) :
    (run.session.onLinkEnd reason now).stuckAt = run.session.stuckAt ∧
      ∀ k, (run.session.onLinkEnd reason now).ending ≠ some (unavailable k) := by
  simp only [FailoverSession.onLinkEnd, linked]
  cases dropped : run.drops link reason with
  | true =>
      rw [if_pos (by simpa [drops] using dropped)]
      simp [FailoverSession.retireLink, isOpen]
  | false =>
      rw [if_neg (by simpa [drops] using dropped)]
      simp only [charged_eq, dropped, Bool.not_false, Bool.and_true] at spared
      obtain ⟨code, text, tooLarge, -, closes⟩ | ⟨strike, delay, exclusion, why, isFailover⟩ :=
        classify_blamed (run.endRecord link reason now)
      · have closesClient : classify reason ⟨link.st.role, link.unknownForwardedAt⟩
            (run.session.retireLink true).c.cursor now = .closeClient code text tooLarge := closes
        simp only [closesClient]
        refine ⟨rfl, fun k same => ?_⟩
        simp only [Option.some.injEq, unavailable, Ending.mk.injEq] at same
        cases tooLarge <;> simp at same
      · have failsOver : classify reason ⟨link.st.role, link.unknownForwardedAt⟩
            (run.session.retireLink true).c.cursor now =
            .failover strike (run.endRecord link reason now).blamed delay exclusion why :=
              isFailover
        simp only [failsOver]
        have unchanged := (run.session.retireLink true).failOver_spared link now strike delay
          exclusion why spared
        rw [unchanged.1, unchanged.2]
        exact ⟨rfl, fun k same => by simp [FailoverSession.retireLink, isOpen] at same⟩

/-- The counter stands for the history, and an open session has used less than the
budget of every block. -/
structure Counts (run : BudgetRun) : Prop where
  counted : ∀ k, countAt EndRecord.charged k run.marks = failuresAt run.session.stuckAt k
  few : run.session.ending = none → ∀ k, failuresAt run.session.stuckAt k ≤ 4

theorem Counts.start (topology : Topology) : Counts ⟨.fresh topology, []⟩ where
  counted _ := rfl
  few _ _ := Nat.zero_le _

theorem Counts.request (r : BlocksRequest) :
    Counts { session := run.session.onClientRequest r, marks := .request :: run.marks } where
  counted _ := rfl
  few _ _ := Nat.zero_le _

theorem Counts.forwarded (counts : Counts run) (c : ClientSide) (st : LinkState) (fw : Forward) :
    Counts { session := run.session.onForwarded link c st fw
             marks := .result fw.cls.n :: run.marks } where
  counted k := by
    rw [countAt, counts.counted k]
    exact (failuresAt_freed run.session.stuckAt fw.cls.n k).symm
  few isOpen k := by
    refine (failuresAt_freed run.session.stuckAt fw.cls.n k).trans_le ?_
    split_ifs
    · exact Nat.zero_le _
    · exact counts.few isOpen k

theorem Counts.ended (counts : Counts run) (isOpen : run.session.ending = none) :
    Counts (run.ended reason now) := by
  have bounded := counts.few isOpen
  cases linked : run.session.link with
  | none => simpa [BudgetRun.ended, linked, FailoverSession.onLinkEnd] using counts
  | some link =>
      cases isCharged : (run.endRecord link reason now).charged with
      | false =>
          have unchanged := (onLinkEnd_spared reason now linked isOpen isCharged).1
          constructor
          · intro k
            simp only [BudgetRun.ended, linked, countAt, isCharged, Bool.false_eq_true, if_false,
              unchanged]
            exact counts.counted k
          · intro _ k
            simpa [BudgetRun.ended, unchanged] using bounded k
      | true =>
          obtain ⟨⟨failures, isNext, stuck⟩, ending⟩ :=
            onLinkEnd_charged reason now linked (bounded _) isCharged
          constructor
          · intro k
            simp only [BudgetRun.ended, linked, countAt, isCharged, if_true, stuck, failuresAt_some,
              counts.counted]
            by_cases here : run.session.c.cursor = k
            · subst here
              simp [endRecord, isNext]
            · simp [endRecord, here]
          · intro stillOpen k
            simp only [BudgetRun.ended] at stillOpen ⊢
            rw [ending] at stillOpen
            have notLast : failuresAt run.session.stuckAt run.session.c.cursor ≠ 4 := by
              intro last
              simp [last] at stillOpen
            have := bounded run.session.c.cursor
            rw [stuck, failuresAt_some]
            split_ifs <;> omega

theorem Counts.onResult (counts : Counts run) (isOpen : run.session.ending = none)
    (answers : FleetAnswers) (h : ResultHead) : Counts (run.onResult answers h now) := by
  cases linked : run.session.link with
  | none => simpa [BudgetRun.onResult, linked] using counts
  | some link =>
      cases handled : onBlockResult run.session.c link.st answers h with
      | forwarded c st fw =>
          simpa [BudgetRun.onResult, linked, handled] using counts.forwarded c st fw
      | dropped st =>
          simp only [BudgetRun.onResult, linked, handled]
          exact ⟨counts.counted, counts.few⟩
      | ended reason =>
          simpa [BudgetRun.onResult, linked, handled] using counts.ended reason now isOpen
      | ignored => simpa [BudgetRun.onResult, linked, handled] using counts

theorem step_open {event : SessionEvent} {run' : BudgetRun} (stepped : run.step event = some run') :
    run.session.ending = none := by
  cases ending : run.session.ending with
  | none => rfl
  | some e => simp [step, ending] at stepped

theorem Counts.step (counts : Counts run) {event : SessionEvent} {run' : BudgetRun}
    (stepped : run.step event = some run') : Counts run' := by
  have isOpen := step_open stepped
  simp only [BudgetRun.step, isOpen, Option.isSome_none, Bool.false_eq_true, if_false,
    Option.some.injEq] at stepped
  rw [← stepped]
  cases event with
  | request r => exact .request r
  | ack | statusSent => exact ⟨counts.counted, counts.few⟩
  | blockResult answers h now => exact counts.onResult now isOpen answers h
  | ended reason now => exact counts.ended reason now isOpen
  | goOn link slotKept phase ex => exact ⟨counts.counted, counts.few⟩

theorem counts_of_reachable {allowed : BudgetRun → SessionEvent → Prop}
    (reachable : Reachable machine allowed run) : Counts run := by
  refine reachable.invariant (P := Counts) ?_ ?_
  · rintro _ ⟨topology, rfl⟩
    exact .start topology
  · intro _ _ _ _ counts _ stepped
    exact counts.step stepped

/-- The end of a link an event leads to. -/
def linkEnd (run : BudgetRun) (event : SessionEvent) : Option EndRecord :=
  match run.session.link, event with
  | some link, .ended reason now => some (run.endRecord link reason now)
  | some link, .blockResult answers h now =>
      match onBlockResult run.session.c link.st answers h with
      | .ended reason => some (run.endRecord link reason now)
      | _ => none
  | _, _ => none

/-- The event does not end a link at the expense of a block. -/
def Spares (run : BudgetRun) (event : SessionEvent) : Prop :=
  ∀ e, run.linkEnd event = some e → e.charged = false

theorem ended_spares (isOpen : run.session.ending = none)
    (spares : Spares run (.ended reason now)) (k : Fin (2 ^ 32)) :
    (run.ended reason now).session.ending ≠ some (unavailable k) := by
  cases linked : run.session.link with
  | none => simp [ended, FailoverSession.onLinkEnd, linked, isOpen]
  | some link =>
      have spared := spares (run.endRecord link reason now) (by simp [linkEnd, linked])
      exact (onLinkEnd_spared reason now linked isOpen spared).2 k

theorem step_spares {event : SessionEvent} {run' : BudgetRun}
    (stepped : run.step event = some run') (spares : Spares run event) (k : Fin (2 ^ 32)) :
    run'.session.ending ≠ some (unavailable k) := by
  have isOpen := step_open stepped
  have goesOn {after : BudgetRun} (same : after.session.ending = run.session.ending) :
      after.session.ending ≠ some (unavailable k) := by simp [same, isOpen]
  simp only [step, isOpen, Option.isSome_none, Bool.false_eq_true, if_false,
    Option.some.injEq] at stepped
  rw [← stepped]
  cases event with
  | request | ack | statusSent | goOn => exact goesOn rfl
  | ended reason now => exact ended_spares reason now isOpen spares k
  | blockResult answers h now =>
      simp only [react, onResult]
      cases linked : run.session.link with
      | none => exact goesOn rfl
      | some link =>
          cases handled : onBlockResult run.session.c link.st answers h with
          | forwarded | dropped | ignored =>
              simp only [handled]
              exact goesOn rfl
          | ended reason =>
              simp only [handled]
              refine ended_spares reason now isOpen (fun e isEnd => spares e ?_) k
              simpa [linkEnd, linked, handled] using isEnd

end BudgetRun

/-- In every run, the end of a link closes the client for want of a block exactly when
it is the fifth charged end at the next block since the last request, the last result at
or above that block and the last charged end at another one; and a run without charged
ends never closes the client so. -/
theorem block_budget :
    (∀ run, Reachable BudgetRun.machine BudgetRun.Any run → run.session.ending = none →
      ∀ link, run.session.link = some link → ∀ reason now,
        let e := run.endRecord link reason now
        let after := run.session.onLinkEnd reason now
        (e.charged = true ∧ countAt EndRecord.charged e.cursor (.linkEnd e :: run.marks) = 5 →
          after.ending = some (unavailable e.cursor)) ∧
        (¬ (e.charged = true ∧ countAt EndRecord.charged e.cursor (.linkEnd e :: run.marks) = 5) →
          ∀ k, after.ending ≠ some (unavailable k))) ∧
    ∀ run, Reachable BudgetRun.machine BudgetRun.Spares run →
      ∀ k, run.session.ending ≠ some (unavailable k) := by
  constructor
  · intro run reachable isOpen link linked reason now e after
    have counts := BudgetRun.counts_of_reachable reachable
    cases isCharged : e.charged with
    | false =>
        have spared := BudgetRun.onLinkEnd_spared reason now linked isOpen isCharged
        exact ⟨fun charged => by simp at charged, fun _ => spared.2⟩
    | true =>
        have ending :=
          (BudgetRun.onLinkEnd_charged reason now linked (counts.few isOpen _) isCharged).2
        have counted : countAt EndRecord.charged e.cursor (.linkEnd e :: run.marks) =
            failuresAt run.session.stuckAt run.session.c.cursor + 1 := by
          simp only [countAt, isCharged, if_true, counts.counted]
          rfl
        rw [counted]
        constructor
        · intro fifth
          rw [if_pos (by omega)] at ending
          exact ending
        · intro notFifth k
          rw [if_neg (by simp_all)] at ending
          exact fun closed => by simp [after, ending, isOpen] at closed
  · intro run reachable
    refine reachable.invariant
      (P := fun run => ∀ k, run.session.ending ≠ some (unavailable k)) ?_ ?_
    · rintro _ ⟨topology, rfl⟩ k closed
      cases closed
    · intro _ _ _ _ _ spares stepped
      exact BudgetRun.step_spares stepped spares

section Samples

/-- A request for blocks 50 to 99. -/
def fiftyOn : BlocksRequest := { streamRequest with start := 50, «end» := 100 }

/-- An archive link whose leg ended at block 50, kept for reuse. -/
def doneArchive : EndingLink where
  st := { LinkState.new 0 .frozen with
    req := some ⟨1, 50, true, false, .initial⟩, upCursor := .exact 50 }
  endpoint := "ws://archive"
  unknownForwardedAt := none

/-- A live link that serves the request. -/
def servingLive : EndingLink where
  st := { LinkState.new 1 .live with
    req := some ⟨50, 100, false, false, .failover⟩, upCursor := .exact 50 }
  endpoint := "ws://live"
  unknownForwardedAt := none

/-- The session goes on with `link`. -/
def goOnWith (link : EndingLink) : SessionEvent :=
  .goOn (some link) false .streaming ⟨none, []⟩

/-- Some drops of the live link at block 50. -/
def drops (n : Nat) : List SessionEvent :=
  (List.replicate n [goOnWith servingLive, .ended .unclean 0]).flatten

/-- The end is charged, and its link was not a stitched one that owes nothing. -/
def EndRecord.chargedWhileOwing (e : EndRecord) : Bool := e.blamed && e.owes

/-- The fifth drop at block 50 closes the client. -/
theorem block_budget_sample : ∃ run, Reachable BudgetRun.machine BudgetRun.Any run ∧
    (run.session.onLinkEnd .unclean 0).ending = some (unavailable 50) := by
  have found : ∃ run, Reachable BudgetRun.machine BudgetRun.Any run ∧
      run.session.ending = none ∧ run.session.link = some servingLive ∧
      (run.endRecord servingLive .unclean 0).cursor = 50 ∧
      ((run.endRecord servingLive .unclean 0).charged = true ∧
        countAt EndRecord.charged 50
          (.linkEnd (run.endRecord servingLive .unclean 0) :: run.marks) =
          5) :=
    exists_reachable_of_run (s := ⟨.fresh .pool, []⟩)
      (.request fiftyOn :: drops 4 ++ [goOnWith servingLive]) ⟨.pool, rfl⟩ (by decide +kernel)
  obtain ⟨run, reachable, isOpen, linked, cursor, fifth⟩ := found
  refine ⟨run, reachable, ?_⟩
  have closes := (block_budget.1 run reachable isOpen servingLive linked .unclean 0).1
  simp only [cursor] at closes
  exact closes fifth

/-- A violation on an archive link that owes nothing is charged to the next block: the
client is closed at the fourth drop after it. -/
theorem idle_violation_charged : ∃ run, Reachable BudgetRun.machine BudgetRun.Any run ∧
    run.session.ending = none ∧ run.session.link = some servingLive ∧
    (run.session.onLinkEnd .unclean 0).ending = some (unavailable 50) ∧
    countAt EndRecord.chargedWhileOwing 50
      (.linkEnd (run.endRecord servingLive .unclean 0) :: run.marks) = 4 :=
  exists_reachable_of_run (s := ⟨.fresh .stitched, []⟩)
    (.request fiftyOn :: goOnWith doneArchive :: .ended (.violation .variant) 0 ::
      drops 3 ++ [goOnWith servingLive]) ⟨.stitched, rfl⟩ (by decide +kernel)

end Samples

end FleetRouter.Session
