import FleetRouter.Lib.Transition
import FleetRouter.Ship.Result
import FleetRouter.Fleet.View
import FleetRouter.Session.Link

/-!
# Containing an archive

A frozen upstream serves a fixed range, so everything it sends can be held
against the request it was given.  `Leg` runs one request on a frozen link
against frames of any content.  Whatever arrives, the results that reach the
client are consecutive from the client's cursor, are paid for by the client's
credit and keep to the contract of the request.
-/

namespace FleetRouter.Session

open Ship Fleet Transition

/-- What a block result from `u` lacks of the fields the request asked for and
`u` advertises at block `n`.  A payload that does not decode lacks data. -/
def lacks (u : Option UpstreamView) (creq : BlocksRequest) (frame : List UInt8)
    (h : ResultHead) (n : Fin (2 ^ 32)) : Lacks :=
  match u with
  | none => .nothing
  | some u =>
      match resultPresence frame h with
      | .error _ => .data
      | .ok p =>
          if (creq.fetchTraces && u.covers .trace n && !p.traces)
              || (creq.fetchDeltas && u.covers .chainState n && !p.deltas)
              || (creq.v1 && creq.fetchFinalityData && u.covers .finality n && !p.finality) then
            .data
          else if creq.fetchBlock && u.coversIds n && !p.block then .block
          else .nothing

/-- The payload decodes and has every requested field that `u` advertises at
block `n`. -/
def HasFields (u : UpstreamView) (creq : BlocksRequest) (frame : List UInt8) (h : ResultHead)
    (n : Fin (2 ^ 32)) : Prop :=
  ∃ presence, resultPresence frame h = .ok presence ∧
    (creq.fetchTraces → u.covers .trace n → presence.traces) ∧
    (creq.fetchDeltas → u.covers .chainState n → presence.deltas) ∧
    (creq.v1 → creq.fetchFinalityData → u.covers .finality n → presence.finality)

theorem hasFields_of_lacks {u : UpstreamView} {creq : BlocksRequest} {frame : List UInt8}
    {h : ResultHead} {n : Fin (2 ^ 32)} (complete : lacks (some u) creq frame h n ≠ .data) :
    HasFields u creq frame h n := by
  simp only [lacks] at complete
  cases presence : resultPresence frame h with
  | error error => simp [presence] at complete
  | ok p =>
      simp only [presence] at complete
      split at complete
      · exact absurd rfl complete
      · rename_i fields
        refine ⟨p, presence, ?_⟩
        simp only [Bool.or_eq_true, Bool.and_eq_true, Bool.not_eq_true', not_or, not_and,
          Bool.not_eq_false] at fields
        exact ⟨fun asked covered => fields.1.1 ⟨asked, covered⟩,
          fun asked covered => fields.1.2 ⟨asked, covered⟩,
          fun v1 asked covered => fields.2 ⟨⟨v1, asked⟩, covered⟩⟩

/-! ## One request on a frozen link -/

/-- A result that was forwarded, with the client before and after it and the
archive as the router saw it. -/
structure Forwarded where
  frame : List UInt8
  h : ResultHead
  n : Option (Fin (2 ^ 32))
  before : ClientSide
  after : ClientSide
  view : Option UpstreamView

/-- The client and the link while one request is served. -/
structure Leg where
  c : ClientSide
  st : LinkState
  view : Option UpstreamView
  forwarded : List Forwarded
  /-- The router ended the link. -/
  closed : Bool

inductive LegEvent where
  | ack (n : Fin (2 ^ 32))
  /-- A status reply raised the marks. -/
  | marks (head lib : BlockPos)
  | viewChanged (view : Option UpstreamView)
  | frame (bytes : List UInt8) (answers : FleetAnswers)

def Leg.onFrame (s : Leg) (bytes : List UInt8) (answers : FleetAnswers) : Leg :=
  match classifyUpstream bytes, s.c.req with
  | .blocks h, some creq =>
      match onBlockResult s.c s.st { answers with lacks := lacks s.view creq bytes h } h with
      | .forwarded c st fw =>
          { s with
            c, st
            forwarded := s.forwarded ++
              [{ frame := bytes, h, n := fw.cls.n, before := s.c, after := c, view := s.view }] }
      | .dropped st => { s with st }
      | .ended _ => { s with closed := true }
      | .ignored => s
  | _, _ => { s with closed := true }

def Leg.step (s : Leg) : LegEvent → Option Leg
  | .ack n => some { s with c := (s.c.ack n).1 }
  | .marks head lib => some { s with c := (headLibFor s.c .live head lib none true).1 }
  | .viewChanged view => some { s with view }
  | .frame bytes answers => if s.closed then none else some (s.onFrame bytes answers)

/-- A leg begins when its request is built. -/
def Leg.begin (c : ClientSide) (creq : BlocksRequest) (st : LinkState) («end» : Fin (2 ^ 32))
    (purpose : Purpose) (target : Target) (view : Option UpstreamView) : Leg where
  c := c
  st := (buildRequest c creq st «end» purpose target).2
  view := view
  forwarded := []
  closed := false

def Leg.machine (start : Leg) : Machine Leg LegEvent where
  init s := s = start
  step := Leg.step

/-- Frames name blocks below the last block number. -/
def LegEvent.belowMax (_ : Leg) : LegEvent → Prop
  | .frame bytes _ => ∀ p ∈ (classifyUpstream bytes).thisBlock, p.num.val < u32Max
  | _ => True

instance (s : Leg) : ∀ e : LegEvent, Decidable (e.belowMax s)
  | .frame bytes _ =>
      inferInstanceAs (Decidable (∀ p ∈ (classifyUpstream bytes).thisBlock, p.num.val < u32Max))
  | .ack _ | .marks _ _ | .viewChanged _ => inferInstanceAs (Decidable True)

/-- What a forwarded result of an archive keeps to. -/
structure Forwarded.Contract (creq : BlocksRequest) (firstId : Fin (2 ^ 32)) (f : Forwarded) :
    Prop where
  credit : 0 < f.before.credit.val
  charged : f.after.credit.val + 1 = f.before.credit.val
  variant : f.h.v1 = creq.v1
  ids : f.h.thisBlock = none → ∃ n, f.n = some n ∧ n < firstId
  named : ∀ p, f.h.thisBlock = some p → f.n = some p.num
  fields : ∀ p u, f.h.thisBlock = some p → f.view = some u →
    HasFields u creq f.frame f.h p.num

/-- The result follows the last delivered block, where the router checks it: at a
seam the router made, or behind an irreversible block. -/
def Forwarded.Continues (purpose : Purpose) (f : Forwarded) : Prop :=
  ∀ last this prev, f.before.last = some last →
    (purpose.resumes ∨ f.before.lastIrreversible = some last) →
    f.h.thisBlock = some this → f.h.prevBlock = some prev →
    last.num.val + 1 = this.num.val → prev.id = last.id

/-! ## One frame -/

section
variable {c : ClientSide} {st : LinkState} {creq : BlocksRequest} {lr : LinkReq}
  {h : ResultHead} {lacking : Fin (2 ^ 32) → Lacks} {alternative : Fin (2 ^ 32) → Bool}
  {fw : Forward}

/-- The contract of a frozen link, read off a forwarded result. -/
theorem frozenContract_ok {noBlock : Bool} (frozen : st.role = .frozen)
    (kept : frozenContract st creq h lacking (classifyResult h st.upCursor lr) = .ok noBlock) :
    h.v1 = creq.v1 ∧ ∃ n, (classifyResult h st.upCursor lr).n = some n ∧
      (h.thisBlock = none → n < st.expectIdsFrom ∧ n < lr.end) ∧
      ∀ p, h.thisBlock = some p → n = p.num ∧ lacking n ≠ .data := by
  simp only [frozenContract, frozen, if_true] at kept
  split at kept
  · cases kept
  rename_i variant
  refine ⟨not_not.mp variant, ?_⟩
  cases this : h.thisBlock with
  | some p =>
      rw [classifyResult_some this] at kept ⊢
      refine ⟨p.num, rfl, by simp, ?_⟩
      rintro _ ⟨⟩
      refine ⟨rfl, ?_⟩
      intro missing
      simp [missing] at kept
  | none =>
      cases found : (classifyResult h st.upCursor lr).n with
      | none =>
          rcases classifyResult_uncounted found with kind | kind <;> simp [kind] at kept
      | some n =>
          obtain ⟨-, -, short, kind⟩ := classifyResult_idless this found
          simp only [found, kind] at kept
          split at kept
          · cases kept
          · rename_i early
            exact ⟨n, rfl, fun _ => ⟨lt_of_not_ge early, short⟩, by simp⟩

/-- On a frozen link only a result for exactly the client's next block is
forwarded. -/
theorem forwarded_at_cursor (frozen : st.role = .frozen)
    (judged : judge c st creq lr h lacking alternative = .forward fw) :
    fw.cls.n = some c.cursor := by
  obtain ⟨cls, kept, placed, -, -⟩ := judge_eq_forward judged
  rw [cls] at kept placed ⊢
  obtain ⟨-, n, found, -, -⟩ := frozenContract_ok frozen kept
  rcases lt_trichotomy n c.cursor with below | same | above
  · have live := (placeResult_below placed found below).2.1
    rw [frozen] at live
    cases live
  · rw [found, same]
  · have live := (placeResult_above placed found above).2
    rw [frozen] at live
    cases live

/-- The first result of a leg continues the block delivered before it. -/
theorem continues_of_judge (frozen : st.role = .frozen) (first : st.firstResultPending = true)
    (judged : judge c st creq lr h lacking alternative = .forward fw)
    {last this prev : BlockPos} (delivered : c.last = some last)
    (checked : lr.purpose.resumes = true ∨ c.lastIrreversible = some last)
    (hasThis : h.thisBlock = some this) (hasPrev : h.prevBlock = some prev)
    (follows : last.num.val + 1 = this.num.val) : prev.id = last.id := by
  obtain ⟨-, -, -, continuity, -⟩ := judge_eq_forward judged
  have against : continues c st lr = some last := by
    simp only [continues, seam, first, frozen, Bool.true_and]
    cases resumes : lr.purpose.resumes with
    | true => simpa using delivered
    | false => simpa [resumes] using checked
  by_contra differs
  simp [checkContinuity, against, hasThis, hasPrev, follows, differs, frozen] at continuity

end

/-! ## A whole leg -/

/-- What holds while an archive answers a request that begins at `k`. -/
structure Leg.Contained (creq : BlocksRequest) (firstId : Fin (2 ^ 32)) (purpose : Purpose)
    (k : Fin (2 ^ 32)) (s : Leg) : Prop where
  request : s.c.req = some creq
  frozen : s.st.role = .frozen
  expects : s.st.expectIdsFrom = firstId
  serving : ∃ lr, s.st.req = some lr ∧ lr.purpose = purpose
  pending : s.st.firstResultPending = s.forwarded.isEmpty
  cursor : s.c.cursor.val = k.val + s.forwarded.length
  numbered : s.forwarded.map (fun f => f.n.map Fin.val) =
    (List.range s.forwarded.length).map fun i => some (k.val + i)
  contract : ∀ f ∈ s.forwarded, f.Contract creq firstId
  continuing : ∀ f, s.forwarded.head? = some f → f.Continues purpose

namespace Leg.Contained

variable {creq : BlocksRequest} {firstId k : Fin (2 ^ 32)} {purpose : Purpose} {s : Leg}

theorem initial {c : ClientSide} {st : LinkState} (request : c.req = some creq)
    (frozen : st.role = .frozen) («end» : Fin (2 ^ 32)) (purpose : Purpose) (target : Target)
    (view : Option UpstreamView) :
    Contained creq (target.idsBegin.getD 0) purpose c.cursor
      (Leg.begin c creq st «end» purpose target view) where
  request := request
  frozen := frozen
  expects := by simp [Leg.begin, buildRequest, frozen]
  serving := ⟨_, rfl, rfl⟩
  pending := rfl
  cursor := rfl
  numbered := rfl
  contract := by simp [Leg.begin]
  continuing := by simp [Leg.begin]

/-- The parts of the client the leg depends on. -/
theorem client (inv : s.Contained creq firstId purpose k) {c : ClientSide}
    (request : c.req = s.c.req) (cursor : c.cursor = s.c.cursor) :
    Contained creq firstId purpose k { s with c } :=
  { inv with request := request.trans inv.request, cursor := cursor ▸ inv.cursor }

theorem dropped (inv : s.Contained creq firstId purpose k) (advanceTo : Option (Fin (2 ^ 32))) :
    Contained creq firstId purpose k { s with st := dropDuplicate s.st advanceTo } := by
  obtain ⟨request, frozen, expects, serving, pending, cursor, numbered, contract, continuing⟩ :=
    inv
  cases advanceTo <;>
    exact ⟨request, frozen, expects, serving, pending, cursor, numbered, contract, continuing⟩

/-- The contract of one forwarded result. -/
theorem contract_of_judge {lr : LinkReq} {h : ResultHead} {fw : Forward} {bytes : List UInt8}
    {answers : FleetAnswers} {tip : Option (BlockPos × BlockPos)} {patch : Bool}
    (inv : s.Contained creq firstId purpose k)
    (judged : judge s.c s.st creq lr h (lacks s.view creq bytes h) answers.alternative =
      .forward fw) :
    Forwarded.Contract creq firstId
      { frame := bytes, h, n := fw.cls.n, before := s.c, view := s.view
        after :=
          commitClient (headLibFor s.c.charge.1 s.st.role h.head h.lib tip patch).1 h fw } := by
  obtain ⟨cls, kept, -, -, paid⟩ := judge_eq_forward judged
  have positive : 0 < s.c.credit.val := by
    have nonzero := paid inv.frozen
    rw [Ne, Fin.ext_iff] at nonzero
    exact Nat.pos_of_ne_zero nonzero
  rw [cls] at kept
  obtain ⟨variant, n, found, idless, named⟩ := frozenContract_ok inv.frozen kept
  rw [← cls] at found
  refine ⟨positive, ?_, variant, ?_, ?_, ?_⟩
  · rw [commitClient_credit]
    exact (ClientSide.charge_credit positive).2
  · intro noThis
    exact ⟨n, found, inv.expects ▸ (idless noThis).1⟩
  · intro p this
    rw [found, (named p this).1]
  · intro p u this view
    have complete := (named p this).2
    rw [(named p this).1] at complete
    have view : s.view = some u := view
    rw [view] at complete
    exact hasFields_of_lacks complete

theorem forwarded {lr : LinkReq} {h : ResultHead} {fw : Forward} {bytes : List UInt8}
    {answers : FleetAnswers} {tip : Option (BlockPos × BlockPos)} {patch : Bool}
    (inv : s.Contained creq firstId purpose k) (linkRequest : s.st.req = some lr)
    (judged : judge s.c s.st creq lr h (lacks s.view creq bytes h) answers.alternative =
      .forward fw)
    (belowMax : ∀ p, h.thisBlock = some p → p.num.val < u32Max) :
    Contained creq firstId purpose k
      { s with
        c := commitClient (headLibFor s.c.charge.1 s.st.role h.head h.lib tip patch).1 h fw
        st := commitLink s.st h fw
        forwarded := s.forwarded ++
          [{ frame := bytes, h, n := fw.cls.n, before := s.c, view := s.view
             after := commitClient
               (headLibFor s.c.charge.1 s.st.role h.head h.lib tip patch).1 h fw }] } := by
  obtain ⟨cls, kept, -, -, -⟩ := judge_eq_forward judged
  have at_ : fw.cls.n = some s.c.cursor :=
    forwarded_at_cursor inv.frozen judged
  have room : s.c.cursor.val < u32Max := by
    rw [cls] at kept at_
    obtain ⟨-, n, found, idless, named⟩ := frozenContract_ok inv.frozen kept
    rw [found, Option.some.injEq] at at_
    subst at_
    cases this : h.thisBlock with
    | some p => exact (named p this).1 ▸ belowMax p this
    | none =>
        have short := (idless this).2
        have := lr.end.isLt
        simp only [u32Max]
        omega
  refine ⟨?_, inv.frozen, inv.expects, inv.serving, ?_, ?_, ?_, ?_, ?_⟩
  · rw [commitClient_req]
    exact inv.request
  · simp [commitLink]
  · rw [commitClient_cursor, forward_next cls, at_, Option.map_some, Option.getD_some,
      nextBlock_val, List.length_append, List.length_singleton]
    have := inv.cursor
    omega
  · rw [List.map_append, inv.numbered, List.length_append, List.length_singleton,
      List.range_succ, List.map_append]
    simp [at_, inv.cursor]
  · intro f member
    rcases List.mem_append.mp member with old | new
    · exact inv.contract f old
    · rw [List.mem_singleton.mp new]
      exact inv.contract_of_judge judged
  · intro f isFirst
    cases already : s.forwarded with
    | cons first rest =>
        refine inv.continuing f ?_
        simpa [already] using isFirst
    | nil =>
        simp only [already, List.nil_append, List.head?_cons, Option.some.injEq] at isFirst
        subst isFirst
        intro last this prev delivered checked hasThis hasPrev follows
        obtain ⟨_, sameReq, samePurpose⟩ := inv.serving
        rw [linkRequest, Option.some.injEq] at sameReq
        subst sameReq
        have first : s.st.firstResultPending = true := by rw [inv.pending, already]; rfl
        exact continues_of_judge inv.frozen first judged delivered (samePurpose ▸ checked)
          hasThis hasPrev follows

theorem onFrame {bytes : List UInt8} {answers : FleetAnswers}
    (inv : s.Contained creq firstId purpose k)
    (belowMax : LegEvent.belowMax s (.frame bytes answers)) :
    (s.onFrame bytes answers).Contained creq firstId purpose k := by
  simp only [Leg.onFrame]
  split
  · rename_i h creq' classified request
    cases inv.request.symm.trans request
    split
    · rename_i c st fw handled
      obtain ⟨creq', lr, request', linkRequest, judged, rfl, rfl⟩ :=
        onBlockResult_forwarded handled
      cases inv.request.symm.trans request'
      rw [LegEvent.belowMax, classified] at belowMax
      exact inv.forwarded linkRequest judged fun p this => belowMax p this
    · rename_i st handled
      obtain ⟨_, _, n, _, _, _, _, _, _, rfl⟩ := onBlockResult_dropped handled
      exact inv.dropped _
    · exact { inv with }
    · exact inv
  · exact { inv with }

theorem of_reachable {start : Leg} (initial : start.Contained creq firstId purpose k)
    (reachable : Reachable (Leg.machine start) LegEvent.belowMax s) :
    s.Contained creq firstId purpose k := by
  refine reachable.invariant (P := Contained creq firstId purpose k) ?_ ?_
  · rintro _ rfl
    exact initial
  · intro s e s' _ inv isAllowed step
    cases e with
    | ack | marks =>
        cases step
        exact inv.client rfl rfl
    | viewChanged view =>
        cases step
        exact { inv with }
    | frame bytes answers =>
        simp only [Leg.machine, Leg.step] at step
        split at step
        · cases step
        · cases step
          exact inv.onFrame isAllowed

end Leg.Contained

/-- Whatever a frozen upstream sends for a request, the results that reach the
client are the blocks from its cursor on, in order; each is paid for, has the
variant of the request and its id where ids are known, and one with an id
decodes with the advertised fields.  The first one continues the block before
it.  Every other frame is dropped or ends the link. -/
theorem archive_leg_contained {c : ClientSide} {creq : BlocksRequest} {st : LinkState}
    {«end» : Fin (2 ^ 32)} {purpose : Purpose} {target : Target} {view : Option UpstreamView}
    {s : Leg} (request : c.req = some creq) (frozen : st.role = .frozen)
    (reachable : Reachable (Leg.machine (Leg.begin c creq st «end» purpose target view))
      LegEvent.belowMax s) :
    s.forwarded.map (fun f => f.n.map Fin.val) =
        (List.range s.forwarded.length).map (fun i => some (c.cursor.val + i)) ∧
      (∀ f ∈ s.forwarded, f.Contract creq (target.idsBegin.getD 0)) ∧
      (∀ f, s.forwarded.head? = some f → f.Continues purpose) ∧
      ∀ answers h, onBlockResult s.c s.st answers h ≠ .ignored := by
  have inv := Leg.Contained.of_reachable
    (.initial request frozen «end» purpose target view)
    reachable
  refine ⟨inv.numbered, inv.contract, inv.continuing, ?_⟩
  intro answers h ignored
  obtain ⟨lr, linkRequest, -⟩ := inv.serving
  simp only [onBlockResult, inv.request, linkRequest] at ignored
  split at ignored
  · split at ignored <;> cases ignored
  · cases ignored
  · cases ignored

/-- A client that holds block 100 and asks for the blocks after it. -/
def archiveClient : ClientSide where
  req := some streamRequest
  credit := 100
  cursor := 101
  deliveredForRequest := 0
  headSent := some (samplePos 130)
  libSent := some (samplePos 120)
  delivered := .empty
  irrHwm := some 100
  last := some (samplePos 100)

/-- An archive whose ids begin at the given block. -/
def sampleArchive (first : Fin (2 ^ 32)) : UpstreamView where
  index := 1
  endpoint := "archive"
  role := .frozen
  enabled := true
  operatorDisabled := false
  online := true
  stale := false
  known := true
  trace := ⟨first, 150⟩
  chainState := ⟨first, 150⟩
  finality := ⟨0, 0⟩
  head := none
  lib := none
  connections := 0
  maxSessions := none
  priority := 0
  weight := 1
  quarantines := []
  abiFp := none
  abiOk := true
  legacyStatus := false
  noBlockLog := false

/-- A leg of that client on an archive whose ids begin at `first`. -/
def archiveLeg (first : Fin (2 ^ 32)) : Leg :=
  .begin archiveClient streamRequest (.new 1 .frozen) 150 .initial
    ⟨.stitched, some first⟩ (some (sampleArchive first))

/-- A result for `this` behind `prev`, with the given payload. -/
def archiveResult (this prev : Option BlockPos) : ResultHead where
  v1 := false
  head := samplePos 130
  lib := samplePos 120
  thisBlock := this
  prevBlock := prev
  fieldsAt := 75 + (if this.isSome then posLen else 0) + (if prev.isSome then posLen else 0)

/-- Reading one frame of a leg. -/
def oneFrame (h : ResultHead) (payload : List UInt8) : List LegEvent :=
  [.frame (putResultHead h ++ payload) quietFleet]

/-- Below the first id neither the payload nor the `prev_block` is looked at: a
result without an id is forwarded for block 101 although its payload does not
decode and its `prev_block` is not the irreversible block 100 the client
holds. -/
theorem idless_result_unchecked :
    ∃ s, Reachable (Leg.machine (archiveLeg 140)) LegEvent.belowMax s ∧
      ∃ f ∈ s.forwarded, f.n = some 101 ∧ f.before.lastIrreversible = some (samplePos 100) ∧
        f.h.prevBlock = some (samplePos 99) ∧
        (resultPresence f.frame f.h).toOption = none :=
  exists_reachable_of_run (s := archiveLeg 140)
    (oneFrame (archiveResult none (some (samplePos 99))) [2]) rfl (by decide +kernel)

theorem archive_leg_contained_sample :
    ∃ s, Reachable (Leg.machine (archiveLeg 101)) LegEvent.belowMax s ∧
      s.forwarded.map (fun f => f.n) = [some 101] ∧
      ∀ f ∈ s.forwarded, f.Contract streamRequest 101 := by
  obtain ⟨s, reachable, numbers⟩ : ∃ s, Reachable (Leg.machine (archiveLeg 101))
      LegEvent.belowMax s ∧ s.forwarded.map (fun f => f.n) = [some 101] :=
    exists_reachable_of_run (s := archiveLeg 101)
      (oneFrame (archiveResult (some (samplePos 101)) (some (samplePos 100))) [0, 0, 0]) rfl
      (by decide +kernel)
  exact ⟨s, reachable, numbers, (archive_leg_contained rfl rfl reachable).2.1⟩

end FleetRouter.Session
