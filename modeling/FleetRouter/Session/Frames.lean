import FleetRouter.Lib.Transition
import FleetRouter.Session.Link
import FleetRouter.Session.Status

/-!
# The frames a client is sent

Three paths write to the client: forwarded block results, relayed status
results and the router's own status replies.  Each records the head and LIB it
sends in the client's marks and rewrites the frame to carry them, so over a
whole session the head and LIB in the bytes sent never go back.
-/

namespace FleetRouter.Session

open Ship Fleet Transition

/-- What a listener is configured with, as far as frames go. -/
structure Listener where
  topology : Topology
  patchHeadLib : Bool
  deriving DecidableEq, Repr

/-- Whether frames are rewritten to carry the session's own head and LIB. -/
def Listener.patches (listener : Listener) : Bool :=
  listener.topology = .pool || listener.patchHeadLib

/-! ## Rewriting a frame -/

/-- Record the head and LIB the client is sent, and write them into the frame
when they differ from its own. -/
def applyHeadLib (c : ClientSide) (frame : List UInt8) (head lib : BlockPos) (role : Role)
    (tip : Option (BlockPos × BlockPos)) (patch : Bool) : ClientSide × List UInt8 :=
  let (c, values) := headLibFor c role head lib tip patch
  (c, match values with
    | some (head, lib) => patchHeadLib frame head lib
    | none => frame)

/-- Fill in the `prev_block` a frozen result leaves out, from the block delivered
before it. -/
def fillPrevBlock (c : ClientSide) (frame : List UInt8) (h : ResultHead) : List UInt8 :=
  match h.thisBlock, h.prevBlock, c.lastIrreversible with
  | some this, none, some last =>
      if this.num.val ≤ 1 || last.num.val + 1 ≠ this.num.val then frame
      else
        match insertPrevBlock frame h last with
        | some (filled, _) => filled
        | none => frame
  | _, _, _ => frame

/-- The bytes a forwarded result is sent as. -/
def resultFrame (c : ClientSide) (role : Role) (fleet : FleetAnswers) (frame : List UInt8)
    (h : ResultHead) : List UInt8 :=
  let c := c.charge.1
  let filled := match role with
    | .frozen => fillPrevBlock c frame h
    | .live => frame
  (applyHeadLib c filled h.head h.lib role fleet.tip fleet.patch).2

/-- The client and the bytes it is sent for a relayed status result. -/
def relayStatus (c : ClientSide) (frame : List UInt8) (patch : Bool) : ClientSide × List UInt8 :=
  match readHeadLib frame with
  | some (head, lib) => applyHeadLib c frame head lib .live none patch
  | none => (c, frame)

/-! ## A session's writes to its client -/

inductive FrameKind where
  | result
  | status
  | unknown
  deriving DecidableEq, Repr

/-- What the session remembers of its client, its status requests, and every
frame sent so far. -/
structure Conversation where
  c : ClientSide
  status : StatusFlow
  sent : List (FrameKind × List UInt8)

/-- The results and status replies among the frames sent. -/
def Conversation.reports (s : Conversation) : List (List UInt8) :=
  (s.sent.filter fun entry => entry.1 ≠ .unknown).map Prod.snd

inductive ConversationEvent where
  | request (r : BlocksRequest)
  | ack (n : Fin (2 ^ 32))
  | statusRequest (v1 : Bool) (now wait : Nat)
  /-- Answer or relay the oldest waiting status request. -/
  | driveStatus (view : FleetView) (tip : Option BlockPos × Option BlockPos) (linked : Bool)
  /-- A binary message read from a link. -/
  | upstream (st : LinkState) (fleet : FleetAnswers) (frame : List UInt8)
  | linkEnded (now wait : Nat)

/-- A status result read from a live link of a pool session. -/
def Conversation.onStatusReply (s : Conversation) (listener : Listener) (frame : List UInt8) :
    Conversation :=
  match s.status.replyArrived with
  | none => s
  | some (status, _) =>
      let (c, out) := relayStatus s.c frame listener.patches
      { c, status, sent := s.sent ++ [(.status, out)] }

/-- A block result read from a link. -/
def Conversation.onBlocks (s : Conversation) (listener : Listener) (st : LinkState)
    (fleet : FleetAnswers) (frame : List UInt8) (h : ResultHead) : Conversation :=
  let fleet := { fleet with patch := listener.patches }
  match onBlockResult s.c st fleet h with
  | .forwarded c _ _ =>
      { s with c, sent := s.sent ++ [(.result, resultFrame s.c st.role fleet frame h)] }
  | _ => s

def Conversation.onUpstreamBinary (s : Conversation) (listener : Listener) (st : LinkState)
    (fleet : FleetAnswers) (frame : List UInt8) : Conversation :=
  match classifyUpstream frame, st.role, listener.topology with
  | .blocks h, _, _ => s.onBlocks listener st fleet frame h
  | .status _, .live, .pool => s.onStatusReply listener frame
  | .other, .live, .pool => { s with sent := s.sent ++ [(.unknown, frame)] }
  | _, _, _ => s

def Conversation.onDriveStatus (s : Conversation) (listener : Listener) (view : FleetView)
    (tip : Option BlockPos × Option BlockPos) (linked : Bool) : Conversation :=
  let canRelay := listener.topology = .pool && linked
  match s.status.next (statusReady view tip) canRelay with
  | (status, some (.reply v1)) =>
      match routerStatus view tip s.c v1 with
      | some (c, reply) => { c, status, sent := s.sent ++ [(.status, reply.bytes)] }
      | none => { s with status }
  | (status, _) => { s with status }

def Conversation.step (listener : Listener) (s : Conversation) :
    ConversationEvent → Option Conversation
  | .request r => some { s with c := (s.c.newRequest r).1 }
  | .ack n => some { s with c := (s.c.ack n).1 }
  | .statusRequest v1 now wait => (s.status.push v1 now wait).map fun status => { s with status }
  | .driveStatus view tip linked => some (s.onDriveStatus listener view tip linked)
  | .upstream st fleet frame => some (s.onUpstreamBinary listener st fleet frame)
  | .linkEnded now wait => some { s with status := s.status.linkEnded now wait }

def Conversation.fresh : Conversation where
  c := .default
  status := .default
  sent := []

def Conversation.machine (listener : Listener) :
    Machine Conversation ConversationEvent where
  init s := s = Conversation.fresh
  step := Conversation.step listener

/-! ## Head and LIB of one frame -/

/-- The head and LIB sent last. -/
def ClientSide.marks (c : ClientSide) : Option (BlockPos × BlockPos) :=
  match c.headSent, c.libSent with
  | some head, some lib => some (head, lib)
  | _, _ => none

@[simp] theorem headLibFor_marks (c : ClientSide) (role : Role) (head lib : BlockPos)
    (tip : Option (BlockPos × BlockPos)) (patch : Bool) :
    (headLibFor c role head lib tip patch).1.marks = some (headLibMarks c role head lib tip) :=
  rfl

/-- With patching on, a frame leaves with exactly the marks that are recorded. -/
theorem readHeadLib_applyHeadLib {c : ClientSide} {frame : List UInt8} {head lib : BlockPos}
    (read : readHeadLib frame = some (head, lib)) (role : Role)
    (tip : Option (BlockPos × BlockPos)) :
    readHeadLib (applyHeadLib c frame head lib role tip true).2 =
      some (headLibMarks c role head lib tip) := by
  simp only [applyHeadLib, headLibFor, Bool.true_and]
  by_cases differs : (headLibMarks c role head lib tip).1 ≠ head ∨
      (headLibMarks c role head lib tip).2 ≠ lib
  · simp only [Bool.or_eq_true, decide_eq_true_eq, if_pos differs]
    exact readHeadLib_patchHeadLib (long_of_readHeadLib read) _ _
  · simp only [Bool.or_eq_true, decide_eq_true_eq, if_neg differs, read]
    rw [not_or, not_not, not_not] at differs
    exact congrArg some (Prod.ext differs.1.symm differs.2.symm)

theorem readHeadLib_putResultHead (h : ResultHead) (payload : List UInt8) :
    readHeadLib (putResultHead h ++ payload) = some (h.head, h.lib) := by
  have layout : putResultHead h ++ payload = resultIndex h.v1 ::
      (putPos h.head ++ putPos h.lib ++
        (putOptionalPos h.thisBlock ++ putOptionalPos h.prevBlock ++ payload)) := by
    simp [putResultHead, putThrough]
  rw [layout]
  exact readHeadLib_cons _ _ _ _

/-- Filling in `prev_block` moves neither head nor LIB. -/
theorem readHeadLib_fillPrevBlock {frame : List UInt8} {h : ResultHead}
    (isBlocks : classifyUpstream frame = .blocks h) (c : ClientSide) :
    readHeadLib (fillPrevBlock c frame h) = some (h.head, h.lib) := by
  obtain ⟨position, payload, rfl⟩ := classifyUpstream_eq_blocks.mp isBlocks
  have kept := readHeadLib_putResultHead h payload
  simp only [fillPrevBlock]
  split
  · rename_i this last hasThis noPrev _
    split
    · exact kept
    · rw [insertPrevBlock_eq (by simp [hasThis]) noPrev position]
      exact readHeadLib_putResultHead (h.withPrev last) payload
  · exact kept

/-- A forwarded result leaves with the marks recorded for it. -/
theorem readHeadLib_resultFrame {frame : List UInt8} {h : ResultHead}
    (isBlocks : classifyUpstream frame = .blocks h) (c : ClientSide) (role : Role)
    {fleet : FleetAnswers} (patch : fleet.patch = true) :
    readHeadLib (resultFrame c role fleet frame h) =
      some (headLibMarks c.charge.1 role h.head h.lib fleet.tip) := by
  have whole : readHeadLib frame = some (h.head, h.lib) := by
    obtain ⟨-, payload, rfl⟩ := classifyUpstream_eq_blocks.mp isBlocks
    exact readHeadLib_putResultHead h payload
  simp only [resultFrame, patch]
  cases role with
  | frozen => exact readHeadLib_applyHeadLib (readHeadLib_fillPrevBlock isBlocks _) .frozen _
  | live => exact readHeadLib_applyHeadLib whole .live _

/-- A status result is long enough to carry head and LIB. -/
theorem long_of_status {frame : List UInt8} {v1 : Bool}
    (isStatus : classifyUpstream frame = .status v1) : headLibEnd ≤ frame.length := by
  simp only [classifyUpstream] at isStatus
  have short : headLibEnd ≤ statusV0MinLen ∧ headLibEnd ≤ statusV1Len := by decide
  split at isStatus
  · cases isStatus
  · split_ifs at isStatus with v0 v1 blocks
    · exact short.1.trans v0.2
    · exact short.2.trans v1.2
    · split at isStatus <;> cases isStatus

/-! ## Marks over a session -/

/-- Neither head nor LIB goes back. -/
def NotAbove (a b : BlockPos × BlockPos) : Prop := a.1.num ≤ b.1.num ∧ a.2.num ≤ b.2.num

theorem NotAbove.trans {a b d : BlockPos × BlockPos} (first : NotAbove a b)
    (second : NotAbove b d) : NotAbove a d :=
  ⟨first.1.trans second.1, first.2.trans second.2⟩

/-- The frames sent and the marks the client's side keeps of them. -/
structure Reported (c : ClientSide) (frames : List (List UInt8)) : Prop where
  ordered : c.marksOrdered
  hwm : ∀ w, c.irrHwm = some w → ∃ lib, c.libSent = some lib ∧ w ≤ lib.num
  read : ∃ marks : List (BlockPos × BlockPos), frames.map readHeadLib = marks.map some ∧
    marks.Pairwise NotAbove ∧ (∀ m ∈ marks, m.2.num ≤ m.1.num) ∧ marks.getLast? = c.marks

namespace Reported

variable {c : ClientSide} {frames : List (List UInt8)}

theorem initial : Reported .default [] where
  ordered := trivial
  hwm := by simp [ClientSide.default]
  read := ⟨[], rfl, .nil, by simp, rfl⟩

/-- Marks and high-water mark are all the frames depend on. -/
theorem congr {c' : ClientSide} (inv : Reported c frames) (head : c'.headSent = c.headSent)
    (lib : c'.libSent = c.libSent) (hwm : c'.irrHwm = c.irrHwm) : Reported c' frames := by
  obtain ⟨ordered, bounded, read⟩ := inv
  refine ⟨?_, ?_, ?_⟩
  · rwa [ClientSide.marksOrdered, head, lib]
  · rwa [hwm, lib]
  · rwa [ClientSide.marks, head, lib]

/-- New marks are at or above the old ones. -/
theorem notAbove_headLibMarks (ordered : c.marksOrdered) {top : BlockPos × BlockPos}
    (sent : c.marks = some top) (role : Role) (head lib : BlockPos)
    (tip : Option (BlockPos × BlockPos)) : NotAbove top (headLibMarks c role head lib tip) := by
  cases headSent : c.headSent with
  | none => simp [ClientSide.marks, headSent] at sent
  | some h =>
      cases libSent : c.libSent with
      | none => simp [ClientSide.marks, headSent, libSent] at sent
      | some l =>
          simp only [ClientSide.marks, headSent, libSent, Option.some.injEq] at sent
          subst sent
          exact ⟨headSent_le_headLibMarks headSent .., libSent_le_headLibMarks ordered libSent ..⟩

/-- A frame sent with the marks recorded for it. -/
theorem send (inv : Reported c frames) {role : Role} {head lib : BlockPos}
    {tip : Option (BlockPos × BlockPos)} {frame : List UInt8}
    (carries : readHeadLib frame = some (headLibMarks c role head lib tip)) (patch : Bool) :
    Reported (headLibFor c role head lib tip patch).1 (frames ++ [frame]) := by
  obtain ⟨ordered, hwm, marks, read, ascending, inFrame, latest⟩ := inv
  refine ⟨headLibFor_marksOrdered c role head lib tip patch, ?_, ?_⟩
  · intro w mark
    obtain ⟨l, sent, below⟩ := hwm w mark
    exact ⟨_, rfl, below.trans (libSent_le_headLibMarks ordered sent role head lib tip)⟩
  · refine ⟨marks ++ [headLibMarks c role head lib tip], by simp [read, carries], ?_, ?_, by simp⟩
    · refine List.pairwise_append.mpr ⟨ascending, List.pairwise_singleton .., ?_⟩
      intro m member new isNew
      rw [List.mem_singleton.mp isNew]
      cases sent : c.marks with
      | none =>
          rw [sent, List.getLast?_eq_none_iff] at latest
          simp [latest] at member
      | some top =>
          have raised := notAbove_headLibMarks ordered sent role head lib tip
          obtain ⟨front, rfl⟩ := List.getLast?_eq_some_iff.mp (latest.trans sent)
          rcases List.mem_append.mp member with earlier | isTop
          · have before := (List.pairwise_append.mp ascending).2.2 m earlier top (by simp)
            exact before.trans raised
          · rwa [List.mem_singleton.mp isTop]
    · intro m member
      rcases List.mem_append.mp member with old | new
      · exact inFrame m old
      · rw [List.mem_singleton.mp new]
        exact headLibMarks_le c role head lib tip

/-- Committing a result keeps the marks; the high-water mark only takes blocks at
or below the LIB sent. -/
theorem commit (inv : Reported c frames) (h : ResultHead) (fw : Forward) :
    Reported (commitClient c h fw) frames := by
  obtain ⟨ordered, hwm, read⟩ := inv
  refine ⟨?_, ?_, ?_⟩
  · rwa [ClientSide.marksOrdered, commitClient_headSent, commitClient_libSent]
  · intro w mark
    rw [commitClient_libSent]
    simp only [commitClient] at mark
    split at mark
    · rename_i p _
      simp only [ClientSide.record] at mark
      split at mark
      · rename_i irreversible
        obtain ⟨lib, sent, below⟩ := (Option.any_eq_true _ _).mp irreversible
        refine ⟨lib, sent, ?_⟩
        rw [decide_eq_true_eq] at below
        cases old : c.irrHwm with
        | none =>
            simp only [old, Option.elim_none, Option.some.injEq] at mark
            exact mark ▸ below
        | some previous =>
            obtain ⟨_, sent', bounded⟩ := hwm previous old
            rw [sent] at sent'
            cases sent'
            simp only [old, Option.elim_some, Option.some.injEq] at mark
            exact mark ▸ max_le bounded below
      · exact hwm w mark
    · exact hwm w mark
  · rwa [ClientSide.marks, commitClient_headSent, commitClient_libSent]

end Reported

namespace Conversation

variable {listener : Listener} {s : Conversation}

@[simp] theorem reports_append (s : Conversation) (c : ClientSide) (status : StatusFlow)
    (kind : FrameKind) (frame : List UInt8) :
    reports { c, status, sent := s.sent ++ [(kind, frame)] } =
      s.reports ++ if kind = .unknown then [] else [frame] := by
  by_cases unknown : kind = .unknown <;> simp [reports, unknown]

theorem onBlocks_reported (patches : listener.patches = true) (inv : Reported s.c s.reports)
    (st : LinkState) (fleet : FleetAnswers) {frame : List UInt8} {h : ResultHead}
    (isBlocks : classifyUpstream frame = .blocks h) :
    Reported (s.onBlocks listener st fleet frame h).c
      (s.onBlocks listener st fleet frame h).reports := by
  simp only [onBlocks]
  split
  · rename_i c _ fw handled
    obtain ⟨_, _, _, _, _, rfl, _⟩ := onBlockResult_forwarded handled
    rw [reports_append, if_neg (by decide)]
    have charged : Reported s.c.charge.1 s.reports := inv.congr rfl rfl rfl
    exact (charged.send (readHeadLib_resultFrame isBlocks s.c st.role patches) _).commit h fw
  · exact inv

theorem onStatusReply_reported (patches : listener.patches = true)
    (inv : Reported s.c s.reports) {frame : List UInt8} {v1 : Bool}
    (isStatus : classifyUpstream frame = .status v1) :
    Reported (s.onStatusReply listener frame).c (s.onStatusReply listener frame).reports := by
  simp only [onStatusReply]
  split
  · exact inv
  · obtain ⟨head, lib, read⟩ := exists_readHeadLib (long_of_status isStatus)
    simp only [relayStatus, read, patches]
    rw [reports_append, if_neg (by decide)]
    exact inv.send (readHeadLib_applyHeadLib read .live none) true

theorem onDriveStatus_reported (inv : Reported s.c s.reports) (view : FleetView)
    (tip : Option BlockPos × Option BlockPos) (linked : Bool) :
    Reported (s.onDriveStatus listener view tip linked).c
      (s.onDriveStatus listener view tip linked).reports := by
  simp only [onDriveStatus]
  split
  · rename_i status v1 _
    cases answered : routerStatus view tip s.c v1 with
    | none => exact inv
    | some answer =>
        obtain ⟨c, reply⟩ := answer
        obtain ⟨head, lib, -, rfl, bytes⟩ := routerStatus_eq answered
        obtain ⟨index, rest, layout⟩ := statusBytes_eq view
          (headLibMarks s.c .live head lib none).1 (headLibMarks s.c .live head lib none).2 v1
        rw [reports_append, if_neg (by decide)]
        refine inv.send ?_ true
        rw [bytes, layout]
        exact readHeadLib_cons ..
  · exact inv

theorem step_reported (patches : listener.patches = true) {s' : Conversation}
    {e : ConversationEvent} (inv : Reported s.c s.reports)
    (step : s.step listener e = some s') : Reported s'.c s'.reports := by
  cases e with
  | request | ack =>
      cases step
      exact inv.congr rfl rfl rfl
  | statusRequest v1 now wait =>
      obtain ⟨status, -, rfl⟩ := Option.map_eq_some_iff.mp step
      exact inv
  | driveStatus view tip linked =>
      cases step
      exact onDriveStatus_reported inv view tip linked
  | linkEnded now wait =>
      cases step
      exact inv
  | upstream st fleet frame =>
      cases step
      simp only [onUpstreamBinary]
      split
      · rename_i isBlocks
        exact onBlocks_reported patches inv st fleet isBlocks
      · rename_i isStatus _ _
        exact onStatusReply_reported patches inv isStatus
      · rw [reports_append, if_pos rfl, List.append_nil]
        exact inv
      · exact inv

theorem reported_of_reachable (patches : listener.patches = true)
    (reachable : Reachable (machine listener) (fun _ _ => True) s) :
    Reported s.c s.reports := by
  refine reachable.invariant (P := fun s => Reported s.c s.reports) ?_ ?_
  · rintro _ rfl
    exact .initial
  · intro s e s' _ inv _ step
    exact step_reported patches inv step

/-- Head and LIB never go back in the bytes a client is sent: read in order, the
frames carry non-decreasing heads and LIBs with `lib ≤ head`, the last one
carries the marks the router keeps, and those bound what counts as
irreversible. -/
theorem head_lib_never_go_back (patches : listener.patches = true)
    (reachable : Reachable (machine listener) (fun _ _ => True) s) :
    (∃ marks : List (BlockPos × BlockPos), s.reports.map readHeadLib = marks.map some ∧
      marks.Pairwise NotAbove ∧ (∀ m ∈ marks, m.2.num ≤ m.1.num) ∧
      marks.getLast? = s.c.marks) ∧
    (∀ w, s.c.irrHwm = some w → ∃ lib, s.c.libSent = some lib ∧ w ≤ lib.num) ∧
    (∀ lib, s.c.libSent = some lib → ∃ head, s.c.headSent = some head ∧ lib.num ≤ head.num) ∧
    ∀ block, s.c.lastIrreversible = some block →
      ∃ lib, s.c.libSent = some lib ∧ block.num ≤ lib.num := by
  obtain ⟨ordered, hwm, read⟩ := reported_of_reachable patches reachable
  refine ⟨read, hwm, ?_, ?_⟩
  · intro lib sent
    cases headSent : s.c.headSent with
    | none => simp [ClientSide.marksOrdered, headSent, sent] at ordered
    | some head =>
      exact ⟨head, rfl, by simpa [ClientSide.marksOrdered, headSent, sent] using ordered⟩
  · intro block isLast
    obtain ⟨-, irreversible⟩ := Option.filter_eq_some_iff.mp isLast
    obtain ⟨w, mark, below⟩ := (Option.any_eq_true _ _).mp irreversible
    obtain ⟨lib, sent, bounded⟩ := hwm w mark
    exact ⟨lib, sent, (of_decide_eq_true below).trans bounded⟩

/-- A fleet that covers nothing yet. -/
def emptyView : FleetView := .empty .pool none

/-- A result with head 104 and LIB 102, then a status reply while the fleet
reports a lower head and a LIB above it. -/
def loweredTip : List ConversationEvent :=
  [ .request streamRequest
  , .upstream (buildRequest .default streamRequest (.new 0 .live) 1000 .initial ⟨.pool, none⟩).2
      quietFleet
      ([1] ++ putPos (samplePos 104) ++ putPos (samplePos 102) ++ [1] ++ putPos (samplePos 101)
        ++ [0])
  , .statusRequest false 0 10
  , .driveStatus emptyView (some (samplePos 103), some (samplePos 105)) true ]

theorem head_lib_never_go_back_sample :
    ∃ s, Reachable (machine ⟨.pool, false⟩) (fun _ _ => True) s ∧
      s.reports.map readHeadLib =
        [some (samplePos 104, samplePos 102), some (samplePos 104, samplePos 104)] ∧
      ∃ marks : List (BlockPos × BlockPos), s.reports.map readHeadLib = marks.map some ∧
        marks.Pairwise NotAbove := by
  obtain ⟨s, reachable, frames⟩ : ∃ s, Reachable (machine ⟨.pool, false⟩) (fun _ _ => True) s ∧
      s.reports.map readHeadLib =
        [some (samplePos 104, samplePos 102), some (samplePos 104, samplePos 104)] :=
    exists_reachable_of_run loweredTip rfl (by decide +kernel)
  obtain ⟨marks, read, ascending, -⟩ := (head_lib_never_go_back rfl reachable).1
  exact ⟨s, reachable, frames, marks, read, ascending⟩

end Conversation

end FleetRouter.Session
