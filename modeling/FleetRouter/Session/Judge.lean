import FleetRouter.Session.State

/-!
# Judging upstream results

The rules applied to every upstream block result before it is forwarded: how
it moves the upstream's cursor (`classifyResult`), what the router does with it
(`judge`), the head and LIB it is sent with (`headLibFor`) and what the session
remembers of it (`commit`).
-/

namespace FleetRouter.Session

open Ship

/-! ## Head and LIB -/

/-- `x`, unless `sent` is higher. -/
def mono (x : BlockPos) (sent : Option BlockPos) : BlockPos :=
  match sent with
  | some s => if x.num < s.num then s else x
  | none => x

/-- The head and LIB reported with a result: a frozen frame takes the fleet
tip. -/
def reportedTip (role : Role) (head lib : BlockPos) (fleet : Option (BlockPos × BlockPos)) :
    BlockPos × BlockPos :=
  match role, fleet with
  | .frozen, some tip => tip
  | _, _ => (head, lib)

/-- The head and LIB a result must carry: the reported ones made monotonic, with
`lib ≤ head`. -/
def headLibMarks (c : ClientSide) (role : Role) (head lib : BlockPos)
    (fleet : Option (BlockPos × BlockPos)) : BlockPos × BlockPos :=
  let h := mono (reportedTip role head lib fleet).1 c.headSent
  let l := mono (reportedTip role head lib fleet).2 c.libSent
  (h, if h.num < l.num then h else l)

/-- Record the head and LIB the client is sent.  Also returns the values to
write into the frame, if they differ from its own and patching is on. -/
def headLibFor (c : ClientSide) (role : Role) (head lib : BlockPos)
    (fleet : Option (BlockPos × BlockPos)) (patch : Bool) :
    ClientSide × Option (BlockPos × BlockPos) :=
  let (h, l) := headLibMarks c role head lib fleet
  ({ c with headSent := some h, libSent := some l },
    if patch && (h ≠ head || l ≠ lib) then some (h, l) else none)

/-- The head and LIB sent so far are set together, and the LIB is not above the
head. -/
def ClientSide.marksOrdered (c : ClientSide) : Prop :=
  match c.headSent, c.libSent with
  | none, none => True
  | some head, some lib => lib.num ≤ head.num
  | _, _ => False

theorem le_mono (x : BlockPos) (sent : Option BlockPos) : x.num ≤ (mono x sent).num := by
  cases sent with
  | none => exact le_rfl
  | some s =>
      simp only [mono]
      split
      · rename_i lower
        exact lower.le
      · exact le_rfl

theorem sent_le_mono (x : BlockPos) {s : BlockPos} : s.num ≤ (mono x (some s)).num := by
  simp only [mono]
  split
  · exact le_rfl
  · rename_i notLower
    exact not_lt.mp notLower

theorem headLibMarks_le (c : ClientSide) (role : Role) (head lib : BlockPos)
    (fleet : Option (BlockPos × BlockPos)) :
    (headLibMarks c role head lib fleet).2.num ≤ (headLibMarks c role head lib fleet).1.num := by
  simp only [headLibMarks]
  split
  · exact le_rfl
  · rename_i notAbove
    exact not_lt.mp notAbove

theorem headSent_le_headLibMarks {c : ClientSide} {s : BlockPos} (sent : c.headSent = some s)
    (role : Role) (head lib : BlockPos) (fleet : Option (BlockPos × BlockPos)) :
    s.num ≤ (headLibMarks c role head lib fleet).1.num := by
  simp only [headLibMarks, sent]
  exact sent_le_mono _

/-- Clamping the LIB to the head does not lower it below the LIB sent, since the
head itself is at or above that. -/
theorem libSent_le_headLibMarks {c : ClientSide} (ordered : c.marksOrdered) {s : BlockPos}
    (sent : c.libSent = some s) (role : Role) (head lib : BlockPos)
    (fleet : Option (BlockPos × BlockPos)) :
    s.num ≤ (headLibMarks c role head lib fleet).2.num := by
  cases headSent : c.headSent with
  | none => simp [ClientSide.marksOrdered, headSent, sent] at ordered
  | some top =>
      have below : s.num ≤ top.num := by
        simpa [ClientSide.marksOrdered, headSent, sent] using ordered
      simp only [headLibMarks, headSent, sent]
      split
      · exact below.trans (sent_le_mono _)
      · exact sent_le_mono _

/-- A reported LIB that is not above its head is not lowered. -/
theorem reported_le_headLibMarks (c : ClientSide) (role : Role) (head lib : BlockPos)
    (fleet : Option (BlockPos × BlockPos))
    (ordered : (reportedTip role head lib fleet).2.num ≤ (reportedTip role head lib fleet).1.num) :
    (reportedTip role head lib fleet).2.num ≤ (headLibMarks c role head lib fleet).2.num := by
  simp only [headLibMarks]
  split
  · exact ordered.trans (le_mono _ _)
  · exact le_mono _ _

theorem headLibFor_marksOrdered (c : ClientSide) (role : Role) (head lib : BlockPos)
    (fleet : Option (BlockPos × BlockPos)) (patch : Bool) :
    (headLibFor c role head lib fleet patch).1.marksOrdered :=
  headLibMarks_le c role head lib fleet

/-! ## Classification -/

/-- How a block result moves the upstream's cursor. -/
inductive ResultKind where
  | block
  | idLess
  | keepAlive
  | idLessUncertain
  deriving DecidableEq, Repr

/-- One result, classified against the upstream cursor. -/
structure Classified where
  n : Option (Fin (2 ^ 32))
  advance : Bool
  kind : ResultKind
  deriving DecidableEq, Repr

/-- The keep-alive rule: Spring's send rule, evaluated on the head or LIB in the
frame, tells an id-less result from a head keep-alive. -/
def classifyResult (h : ResultHead) (cursor : UpCursor) (lr : LinkReq) : Classified :=
  let gate := if lr.irreversibleOnly then h.lib.num else h.head.num
  match h.thisBlock, cursor with
  | some p, _ => { n := some p.num, advance := true, kind := .block }
  | none, .exact u =>
      if u ≤ gate && u < lr.end then { n := some u, advance := true, kind := .idLess }
      else { n := none, advance := false, kind := .keepAlive }
  | none, .uncertain _ _ => { n := none, advance := false, kind := .idLessUncertain }

/-! ## Judgements -/

/-- What a frozen result lacks of the fields its request asked for and its
upstream advertises. -/
inductive Lacks where
  | nothing
  | block
  | data
  deriving DecidableEq, Repr

/-- How a frozen upstream broke its contract. -/
inductive ViolationKind where
  | idless
  | gap
  | rewind
  | missingField
  | credit
  | variant
  | discontinuity
  deriving DecidableEq, Repr

/-- How a link ended. -/
inductive UpEnd where
  | unclean
  | clean (code : Nat)
  | idle
  | stall
  | monitorOffline
  | violation (kind : ViolationKind)
  | uncovered
  | discontinuity
  | tooLarge
  | sendFailed
  | silent
  | moved
  | noBlockLog
  deriving DecidableEq, Repr

/-- A result that will be forwarded, and what it means. -/
structure Forward where
  cls : Classified
  fork : Bool
  jump : Bool
  discontinuity : Bool
  variantMismatch : Bool
  noBlock : Bool
  deriving DecidableEq, Repr

/-- What to do with one upstream block result. -/
inductive Judgement where
  | forward (fw : Forward)
  | duplicate (advanceTo : Option (Fin (2 ^ 32)))
  | ended (reason : UpEnd)
  deriving DecidableEq, Repr

section
variable (c : ClientSide) (st : LinkState) (creq : BlocksRequest) (lr : LinkReq)
  (h : ResultHead) (lacks : Fin (2 ^ 32) → Lacks) (alternative : Fin (2 ^ 32) → Bool)

/-- The contract of a frozen upstream: the variant of the request, ids where
they are known, and the advertised fields.  Returns whether only `block` is
missing. -/
def frozenContract (cls : Classified) : Except ViolationKind Bool :=
  if st.role = .frozen then
    if h.v1 ≠ creq.v1 then .error .variant
    else
      match cls.kind, cls.n with
      | .keepAlive, _ => .error .idless
      | .idLessUncertain, _ => .error .idless
      | .idLess, some n => if st.expectIdsFrom ≤ n then .error .idless else .ok false
      | .block, some n =>
          match lacks n with
          | .data => .error .missingField
          | .block => .ok true
          | .nothing => .ok false
      | _, none => .ok false
  else .ok false

/-- The first result of a request that continues a stream the client has. -/
def seam : Bool := st.firstResultPending && lr.purpose.resumes

/-- The result against the client's cursor: a replay or a fork below it, a jump
above it.  Returns the fork and jump flags. -/
def placeResult (cls : Classified) : Except Judgement (Bool × Bool) :=
  match cls.n with
  | none => .ok (false, false)
  | some n =>
      if n < c.cursor then
        if st.resumeFloor.isSome && c.isDup n h.thisBlock then
          .error (.duplicate (if cls.advance then some (nextBlock n) else none))
        else if st.role = .frozen then .error (.ended (.violation .rewind))
        else .ok (true, false)
      else if c.cursor < n then
        if st.role = .frozen then .error (.ended (.violation .gap))
        else if seam st lr && alternative c.cursor then .error (.ended .uncovered)
        else .ok (false, true)
      else .ok (false, false)

/-- The delivered block the result must continue, if there is one. -/
def continues : Option BlockPos :=
  if seam st lr then c.last
  else if st.role = .frozen && st.firstResultPending then c.lastIrreversible
  else none

/-- The `prev_block` of the first result of a leg against the last delivered
block.  Returns the discontinuity flag. -/
def checkContinuity : Except UpEnd Bool :=
  match continues c st lr, h.thisBlock, h.prevBlock with
  | some last, some this, some prev =>
      if last.num.val + 1 = this.num.val ∧ prev.id ≠ last.id then
        if st.role = .frozen then .error (.violation .discontinuity)
        else if (0 < c.deliveredForRequest || c.lastIrreversible.isSome)
            && alternative c.cursor then .error .discontinuity
        else .ok true
      else .ok false
  | _, _, _ => .ok false

/-- Judge one block result before anything is forwarded. -/
def judge : Judgement :=
  let cls := classifyResult h st.upCursor lr
  match frozenContract st creq h lacks cls with
  | .error kind => .ended (.violation kind)
  | .ok noBlock =>
    match placeResult c st lr h alternative cls with
    | .error judgement => judgement
    | .ok (fork, jump) =>
      match checkContinuity c st lr h alternative with
      | .error reason => .ended reason
      | .ok discontinuity =>
        if st.role = .frozen && c.credit = 0 then .ended (.violation .credit)
        else .forward
          { cls, fork, jump, discontinuity, noBlock
            variantMismatch := st.role ≠ .frozen && h.v1 ≠ creq.v1 }

end

/-! ## Committing a forwarded result -/

/-- Where the result moves the client's and the upstream's cursor. -/
def Forward.next (fw : Forward) : Option (Fin (2 ^ 32)) :=
  if fw.cls.advance then fw.cls.n.map nextBlock else none

/-- The client was given block `p` with an id. -/
def ClientSide.record (c : ClientSide) (p : BlockPos) : ClientSide :=
  { c with
    delivered := c.delivered.push p c.libSent
    last := some p
    irrHwm := if c.libSent.any fun l => p.num ≤ l.num
      then some (c.irrHwm.elim p.num fun w => max w p.num) else c.irrHwm }

/-- The ring after a fork dropped the blocks it replaces. -/
def Forward.rewound (fw : Forward) (ring : DeliveredRing) : DeliveredRing :=
  match fw.fork, fw.cls.n with
  | true, some n => ring.truncateFrom n
  | _, _ => ring

/-- What a forwarded result changes on the client's side. -/
def commitClient (c : ClientSide) (h : ResultHead) (fw : Forward) : ClientSide :=
  let moved : ClientSide :=
    { c with
      delivered := fw.rewound c.delivered
      cursor := fw.next.getD c.cursor
      deliveredForRequest := c.deliveredForRequest + 1 }
  match h.thisBlock with
  | some p => moved.record p
  | none => moved

/-- What a forwarded result changes on the link. -/
def commitLink (st : LinkState) (h : ResultHead) (fw : Forward) : LinkState :=
  { st with
    upCursor := match fw.next with
      | some next => .exact next
      | none => st.upCursor
    keepalivesSeen := if fw.next = none ∧ fw.cls.kind = .keepAlive
      then st.keepalivesSeen + 1 else st.keepalivesSeen
    frames := st.frames + 1
    lastHead := some h.head
    lastLib := some h.lib
    firstResultPending := false
    resumeFloor := if st.resumeFloor.any fun floor => fw.cls.n.any fun n => floor ≤ n
      then none else st.resumeFloor }

/-- Commit a result the client has just been sent.  The head and LIB must
already be recorded, since pruning follows `libSent`. -/
def commit (c : ClientSide) (st : LinkState) (h : ResultHead) (fw : Forward) :
    ClientSide × LinkState :=
  (commitClient c h fw, commitLink st h fw)

section
variable (c : ClientSide) (h : ResultHead) (fw : Forward)

@[simp] theorem commitClient_req : (commitClient c h fw).req = c.req := by
  unfold commitClient
  split <;> rfl

@[simp] theorem commitClient_credit : (commitClient c h fw).credit = c.credit := by
  unfold commitClient
  split <;> rfl

@[simp] theorem commitClient_cursor :
    (commitClient c h fw).cursor = fw.next.getD c.cursor := by
  unfold commitClient
  split <;> rfl

@[simp] theorem commitClient_deliveredForRequest :
    (commitClient c h fw).deliveredForRequest = c.deliveredForRequest + 1 := by
  unfold commitClient
  split <;> rfl

@[simp] theorem commitClient_headSent : (commitClient c h fw).headSent = c.headSent := by
  unfold commitClient
  split <;> rfl

@[simp] theorem commitClient_libSent : (commitClient c h fw).libSent = c.libSent := by
  unfold commitClient
  split <;> rfl

end

/-! ## What a judgement says -/

section
variable {c : ClientSide} {st : LinkState} {creq : BlocksRequest} {lr : LinkReq}
  {h : ResultHead} {lacks : Fin (2 ^ 32) → Lacks} {alternative : Fin (2 ^ 32) → Bool}

/-- A result stands for a block exactly if it moves the cursor. -/
theorem classifyResult_advance (h : ResultHead) (cursor : UpCursor) (lr : LinkReq) :
    (classifyResult h cursor lr).advance = (classifyResult h cursor lr).n.isSome := by
  simp only [classifyResult]
  cases h.thisBlock with
  | some p => rfl
  | none =>
      cases cursor with
      | uncertain lo hi => rfl
      | exact u =>
          simp only
          generalize (if lr.irreversibleOnly = true then h.lib.num else h.head.num) = gate
          split <;> rfl

theorem classifyResult_some {cursor : UpCursor} {p : BlockPos} (this : h.thisBlock = some p) :
    classifyResult h cursor lr = { n := some p.num, advance := true, kind := .block } := by
  simp [classifyResult, this]

/-- The gate of Spring's send rule, as the frame reports it. -/
def frameGate (h : ResultHead) (lr : LinkReq) : Fin (2 ^ 32) :=
  if lr.irreversibleOnly then h.lib.num else h.head.num

/-- An id-less result stands for a block only under the send rule. -/
theorem classifyResult_idless {cursor : UpCursor} {n : Fin (2 ^ 32)}
    (noBlock : h.thisBlock = none) (found : (classifyResult h cursor lr).n = some n) :
    cursor = .exact n ∧ n ≤ frameGate h lr ∧ n < lr.end ∧
      (classifyResult h cursor lr).kind = .idLess := by
  cases cursor with
  | uncertain lo hi => simp [classifyResult, noBlock] at found
  | exact u =>
      by_cases rule : u ≤ frameGate h lr ∧ u < lr.end
      · have classified : classifyResult h (.exact u) lr =
            { n := some u, advance := true, kind := .idLess } := by
          simpa [classifyResult, noBlock, frameGate] using rule
        rw [classified] at found ⊢
        cases found
        exact ⟨rfl, rule.1, rule.2, rfl⟩
      · have classified : classifyResult h (.exact u) lr =
            { n := none, advance := false, kind := .keepAlive } := by
          simpa [classifyResult, noBlock, frameGate] using rule
        rw [classified] at found
        cases found

/-- A result that stands for no block is a keep-alive, or cannot be told from
one. -/
theorem classifyResult_uncounted {cursor : UpCursor}
    (found : (classifyResult h cursor lr).n = none) :
    (classifyResult h cursor lr).kind = .keepAlive ∨
      (classifyResult h cursor lr).kind = .idLessUncertain := by
  simp only [classifyResult] at found ⊢
  generalize (if lr.irreversibleOnly = true then h.lib.num else h.head.num) = gate at found ⊢
  cases this : h.thisBlock with
  | some p => simp [this] at found
  | none =>
      cases cursor with
      | uncertain lo hi => exact .inr rfl
      | exact u =>
          simp only [this] at found ⊢
          split at found
          · cases found
          · rename_i closed
            simp [closed]

theorem placeResult_error {cls : Classified} {judgement : Judgement}
    (placed : placeResult c st lr h alternative cls = .error judgement) :
    (∃ reason, judgement = .ended reason) ∨
      ∃ n, cls.n = some n ∧ n < c.cursor ∧ st.resumeFloor.isSome ∧
        c.isDup n h.thisBlock ∧
        judgement = .duplicate (if cls.advance then some (nextBlock n) else none) := by
  simp only [placeResult] at placed
  cases found : cls.n with
  | none => simp [found] at placed
  | some n =>
      simp only [found] at placed
      generalize target : (if cls.advance = true then some (nextBlock n) else none) = next
        at placed
      split_ifs at placed with below replay frozen above frozen uncovered
      · cases placed
        rw [Bool.and_eq_true] at replay
        exact .inr ⟨n, rfl, below, replay.1, replay.2, by rw [target]⟩
      all_goals
        cases placed
        exact .inl ⟨_, rfl⟩

/-- How a judgement comes about, in the order of the checks. -/
inductive Judged (c : ClientSide) (st : LinkState) (creq : BlocksRequest) (lr : LinkReq)
    (h : ResultHead) (lacks : Fin (2 ^ 32) → Lacks) (alternative : Fin (2 ^ 32) → Bool) :
    Judgement → Prop where
  | contract {kind : ViolationKind}
      (broken : frozenContract st creq h lacks (classifyResult h st.upCursor lr) = .error kind) :
      Judged c st creq lr h lacks alternative (.ended (.violation kind))
  | place {judgement : Judgement}
      (misplaced : placeResult c st lr h alternative (classifyResult h st.upCursor lr) =
        .error judgement) : Judged c st creq lr h lacks alternative judgement
  | continuity {reason : UpEnd} (broken : checkContinuity c st lr h alternative = .error reason) :
      Judged c st creq lr h lacks alternative (.ended reason)
  | credit : Judged c st creq lr h lacks alternative (.ended (.violation .credit))
  | forward {fw : Forward} (cls : fw.cls = classifyResult h st.upCursor lr)
      (contract : frozenContract st creq h lacks fw.cls = .ok fw.noBlock)
      (placed : placeResult c st lr h alternative fw.cls = .ok (fw.fork, fw.jump))
      (continuity : checkContinuity c st lr h alternative = .ok fw.discontinuity)
      (credit : st.role = .frozen → c.credit ≠ 0) :
      Judged c st creq lr h lacks alternative (.forward fw)

theorem Judged.of_judge {judgement : Judgement}
    (judged : judge c st creq lr h lacks alternative = judgement) :
    Judged c st creq lr h lacks alternative judgement := by
  subst judged
  simp only [judge]
  cases contract : frozenContract st creq h lacks (classifyResult h st.upCursor lr) with
  | error kind => exact .contract contract
  | ok noBlock =>
      cases placed : placeResult c st lr h alternative (classifyResult h st.upCursor lr) with
      | error judgement => exact .place placed
      | ok flags =>
          cases continuity : checkContinuity c st lr h alternative with
          | error reason => exact .continuity continuity
          | ok discontinuity =>
              simp only
              split
              · exact .credit
              · rename_i credit
                refine .forward rfl contract placed continuity ?_
                intro frozen empty
                simp [frozen, empty] at credit

theorem judge_eq_forward {fw : Forward}
    (judged : judge c st creq lr h lacks alternative = .forward fw) :
    fw.cls = classifyResult h st.upCursor lr ∧
      frozenContract st creq h lacks fw.cls = .ok fw.noBlock ∧
      placeResult c st lr h alternative fw.cls = .ok (fw.fork, fw.jump) ∧
      checkContinuity c st lr h alternative = .ok fw.discontinuity ∧
      (st.role = .frozen → c.credit ≠ 0) := by
  cases Judged.of_judge judged with
  | place misplaced =>
      rcases placeResult_error misplaced with ⟨_, ended⟩ | ⟨_, _, _, _, _, duplicate⟩
      · cases ended
      · cases duplicate
  | forward cls contract placed continuity credit =>
      exact ⟨cls, contract, placed, continuity, credit⟩

/-- A replay is a block below the cursor that the client already has. -/
theorem judge_eq_duplicate {advanceTo : Option (Fin (2 ^ 32))}
    (judged : judge c st creq lr h lacks alternative = .duplicate advanceTo) :
    ∃ n, (classifyResult h st.upCursor lr).n = some n ∧ n < c.cursor ∧
      st.resumeFloor.isSome ∧ c.isDup n h.thisBlock ∧ advanceTo = some (nextBlock n) := by
  cases Judged.of_judge judged with
  | place misplaced =>
      rcases placeResult_error misplaced with ⟨_, ended⟩ | ⟨n, found, below, window, dup, same⟩
      · cases ended
      · have advances := classifyResult_advance h st.upCursor lr
        rw [found] at advances
        rw [advances] at same
        cases same
        exact ⟨n, found, below, window, dup, rfl⟩

/-- The result stands below the cursor only as a fork on a live link. -/
theorem placeResult_below {cls : Classified} {fork jump : Bool} {n : Fin (2 ^ 32)}
    (placed : placeResult c st lr h alternative cls = .ok (fork, jump))
    (found : cls.n = some n) (below : n < c.cursor) :
    fork = true ∧ st.role = .live ∧ ¬(st.resumeFloor.isSome ∧ c.isDup n h.thisBlock) := by
  simp only [placeResult, found, if_pos below] at placed
  split at placed
  · cases placed
  · rename_i replay
    split at placed
    · cases placed
    · rename_i live
      cases placed
      refine ⟨rfl, ?_, by simpa using replay⟩
      cases role : st.role with
      | live => rfl
      | frozen => exact absurd role live

theorem placeResult_above {cls : Classified} {fork jump : Bool} {n : Fin (2 ^ 32)}
    (placed : placeResult c st lr h alternative cls = .ok (fork, jump))
    (found : cls.n = some n) (above : c.cursor < n) :
    fork = false ∧ st.role = .live := by
  simp only [placeResult, found, if_neg (not_lt.mpr above.le), if_pos above] at placed
  split at placed
  · cases placed
  · rename_i live
    split at placed
    · cases placed
    · cases placed
      refine ⟨rfl, ?_⟩
      cases role : st.role with
      | live => rfl
      | frozen => exact absurd role live

theorem placeResult_at {cls : Classified} {fork jump : Bool}
    (placed : placeResult c st lr h alternative cls = .ok (fork, jump))
    (found : cls.n = some c.cursor) : fork = false := by
  simp only [placeResult, found, lt_irrefl, if_false] at placed
  cases placed
  rfl

/-- A forwarded result moves the cursor behind the block it stands for. -/
theorem forward_next {fw : Forward} (cls : fw.cls = classifyResult h st.upCursor lr) :
    fw.next = fw.cls.n.map nextBlock := by
  have advances := classifyResult_advance h st.upCursor lr
  rw [Forward.next, cls, advances]
  cases (classifyResult h st.upCursor lr).n <;> rfl

end

end FleetRouter.Session
