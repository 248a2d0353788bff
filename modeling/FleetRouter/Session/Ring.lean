import FleetRouter.Lib.BinarySearch
import FleetRouter.Lib.Transition
import FleetRouter.Session.Link

/-!
# The delivered ring and the client's chain

What the client holds is a map from block numbers to ids: a result for a block deletes
the entries at or above it and adds the block if it has an id, and a new request
deletes the entries from its start on.  The ring is a suffix of that map, and has all
of it above the LIB sent while that is not more than the ring can hold.
-/

namespace FleetRouter.Session

open Ship KeyedDeque Transition

/-! ## Reading the ring -/

namespace DeliveredRing

/-- The id delivered for block `n`, searched for in the two slices of the deque. -/
def getSlices (front back : List BlockPos) (n : Fin (2 ^ 32)) : Option Checksum :=
  ((search BlockPos.num n front).map BlockPos.id).or
    ((search BlockPos.num n back).map BlockPos.id)

/-- The deque may be split anywhere. -/
theorem getSlices_eq_get {ring : DeliveredRing} {front back : List BlockPos}
    (split : front ++ back = ring.buf) (n : Fin (2 ^ 32)) :
    getSlices front back n = ring.get n := by
  have ascending := ring.ascending
  rw [← split] at ascending
  obtain ⟨frontAscending, backAscending, -⟩ := List.pairwise_append.mp ascending
  rw [getSlices, search_eq_lookup frontAscending, search_eq_lookup backAscending, get, ← split,
    lookup, lookup, lookup, List.find?_append, Option.map_or]

/-- The newest `max` entries, in their order. -/
theorem reversibleTail_eq (ring : DeliveredRing) (lib below : Fin (2 ^ 32)) (max : Nat) :
    ring.reversibleTail lib below max =
      keepLast max (ring.buf.filter fun p => lib < p.num && p.num < below) := by
  rw [reversibleTail, List.filter_reverse, List.take_reverse, List.reverse_reverse, keepLast]

theorem truncateFrom_buf (ring : DeliveredRing) (n : Fin (2 ^ 32)) :
    (ring.truncateFrom n).buf = ring.buf.filter fun p => p.num < n :=
  truncateFrom_eq_filter ring.ascending n

/-- A delivered block goes to the back of what was below it, and the front is cut. -/
theorem push_suffix (ring : DeliveredRing) (p : BlockPos) (lib : Option BlockPos) :
    (ring.push p lib).buf <:+ (ring.buf.filter fun q => q.num < p.num) ++ [p] := by
  rw [push_buf, ← truncateFrom_eq_filter ring.ascending]
  refine (keepLast_suffix _ _).trans ?_
  cases lib with
  | none => exact List.suffix_rfl
  | some l => exact pruneTo_suffix _ _

end DeliveredRing

/-! ## Runs -/

/-- A session's memory of its client, and the map of what the client holds, ascending
by number. -/
structure RingRun where
  c : ClientSide
  chain : List BlockPos

/-- The entries below a block. -/
def keepBelow (chain : List BlockPos) : Option (Fin (2 ^ 32)) → List BlockPos
  | some n => chain.filter fun p => p.num < n
  | none => chain

inductive RingEvent where
  | newRequest (r : BlocksRequest)
  /-- A head and LIB that are sent without a block. -/
  | headLib (role : Role) (head lib : BlockPos) (fleet : Option (BlockPos × BlockPos))
      (patch : Bool)
  /-- A result read from a link in any state. -/
  | result (st : LinkState) (fleet : FleetAnswers) (h : ResultHead)

namespace RingRun

def start : RingRun := ⟨.default, []⟩

def step (s : RingRun) : RingEvent → RingRun
  | .newRequest r => ⟨(s.c.newRequest r).1, keepBelow s.chain r.start⟩
  | .headLib role head lib fleet patch =>
    { s with c := (headLibFor s.c role head lib fleet patch).1 }
  | .result st fleet h =>
      match onBlockResult s.c st fleet h with
      | .forwarded c _ fw => ⟨c, keepBelow s.chain fw.cls.n ++ h.thisBlock.toList⟩
      | .dropped _ | .ended _ | .ignored => s

end RingRun

def ringMachine : Machine RingRun RingEvent where
  init s := s = .start
  step s e := some (s.step e)

/-- No forwarded result stands for the last block number. -/
def RingEvent.BelowMax (s : RingRun) : RingEvent → Prop
  | .result st fleet h => ∀ c st' fw n, onBlockResult s.c st fleet h = .forwarded c st' fw →
      fw.cls.n = some n → n.val < u32Max
  | .newRequest _ | .headLib _ _ _ _ _ => True

/-- The block is above the LIB the client was sent. -/
def ClientSide.aboveLib (c : ClientSide) (p : BlockPos) : Bool :=
  c.libSent.all fun lib => lib.num < p.num

/-- The map has no more entries above the LIB sent than the ring can hold. -/
def RingRun.Fits (s : RingRun) : Prop := s.chain.countP s.c.aboveLib ≤ deliveredCap

/-! ## What a forwarded result does -/

/-- A LIB that has moved on leaves fewer blocks above it. -/
theorem aboveLib_of_headLibFor {c : ClientSide} (ordered : c.marksOrdered) {role : Role}
    {head lib : BlockPos} {fleet : Option (BlockPos × BlockPos)} {patch : Bool} {p : BlockPos}
    (above : (headLibFor c role head lib fleet patch).1.aboveLib p = true) :
    c.aboveLib p = true := by
  cases sent : c.libSent with
  | none => simp [ClientSide.aboveLib, sent]
  | some l =>
      have later := libSent_le_headLibMarks ordered sent role head lib fleet
      simp only [ClientSide.aboveLib, headLibFor, Option.all_some, decide_eq_true_eq] at above
      simpa [ClientSide.aboveLib, sent] using later.trans_lt above

/-- The ring after a result, with the block it has. -/
def DeliveredRing.record (ring : DeliveredRing) (lib : Option BlockPos) :
    Option BlockPos → DeliveredRing
  | some p => ring.push p lib
  | none => ring

theorem commitClient_delivered (c : ClientSide) (h : ResultHead) (fw : Forward) :
    (commitClient c h fw).delivered = (fw.rewound c.delivered).record c.libSent h.thisBlock := by
  unfold commitClient
  split <;> rename_i this <;> simp [this, ClientSide.record, DeliveredRing.record]

/-- With every entry below the cursor, a result for block `n` drops what it replaces,
fork or not. -/
theorem rewound_buf {c : ClientSide} {st : LinkState} {creq : BlocksRequest} {lr : LinkReq}
    {h : ResultHead} {lacks : Fin (2 ^ 32) → Lacks} {alternative : Fin (2 ^ 32) → Bool}
    {fw : Forward} (judged : judge c st creq lr h lacks alternative = .forward fw)
    (below : ∀ p ∈ c.delivered.buf, p.num < c.cursor) :
    (fw.rewound c.delivered).buf = keepBelow c.delivered.buf fw.cls.n := by
  obtain ⟨-, -, placed, -, -⟩ := judge_eq_forward judged
  cases stands : fw.cls.n with
  | none =>
      rw [Forward.rewound, stands, keepBelow]
      cases fw.fork <;> rfl
  | some n =>
      rcases lt_or_ge n c.cursor with fork | ahead
      · obtain ⟨forked, -, -⟩ := placeResult_below placed stands fork
        rw [Forward.rewound, forked, stands]
        exact DeliveredRing.truncateFrom_buf _ n
      · have kept : fw.fork = false := by
          rcases ahead.lt_or_eq with above | rfl
          · exact (placeResult_above placed stands above).1
          · exact placeResult_at placed stands
        have all : (c.delivered.buf.filter fun p => p.num < n) = c.delivered.buf := by
          rw [List.filter_eq_self]
          intro p member
          simpa using (below p member).trans_le ahead
        rw [keepBelow, all, Forward.rewound, kept]

/-- A result with a block stands for it; one that stands for no block has none. -/
theorem classifyResult_this (h : ResultHead) (cursor : UpCursor) (lr : LinkReq) {p : BlockPos}
    (this : h.thisBlock = some p) : (classifyResult h cursor lr).n = some p.num := by
  simp [classifyResult, this]

/-- What a forwarded result does to the client's side. -/
structure Delivers (c c' : ClientSide) (h : ResultHead) (n : Option (Fin (2 ^ 32))) : Prop where
  marks : c.marksOrdered → c'.marksOrdered
  above : c.marksOrdered → ∀ p, c'.aboveLib p = true → c.aboveLib p = true
  cursor : c'.cursor = (n.map nextBlock).getD c.cursor
  stands : ∀ p, h.thisBlock = some p → n = some p.num
  ring : (∀ p ∈ c.delivered.buf, p.num < c.cursor) → ∃ rewound : DeliveredRing,
    rewound.buf = keepBelow c.delivered.buf n ∧
    c'.delivered = rewound.record c'.libSent h.thisBlock

theorem delivers_of_forwarded {c c' : ClientSide} {st st' : LinkState} {fleet : FleetAnswers}
    {h : ResultHead} {fw : Forward}
    (handled : onBlockResult c st fleet h = .forwarded c' st' fw) : Delivers c c' h fw.cls.n := by
  obtain ⟨creq, lr, -, -, judged, rfl, -⟩ := onBlockResult_forwarded handled
  obtain ⟨cls, -⟩ := judge_eq_forward judged
  constructor
  · intro _
    have ordered := headLibFor_marksOrdered c.charge.1 st.role h.head h.lib fleet.tip fleet.patch
    simpa [ClientSide.marksOrdered] using ordered
  · intro ordered p above
    have charged : c.charge.1.marksOrdered := ordered
    apply aboveLib_of_headLibFor charged
    rwa [ClientSide.aboveLib, commitClient_libSent] at above
  · rw [commitClient_cursor, forward_next cls]
    rfl
  · intro p this
    rw [cls]
    exact classifyResult_this h st.upCursor lr this
  · intro below
    refine ⟨fw.rewound c.delivered, rewound_buf judged below, ?_⟩
    rw [commitClient_delivered, commitClient_libSent]
    rfl

/-! ## The refinement -/

namespace RingRun

/-- The ring is a suffix of the map, and both are below the cursor. -/
structure Inv (s : RingRun) : Prop where
  marks : s.c.marksOrdered
  ascending : Ascending BlockPos.num s.chain
  below : ∀ p ∈ s.chain, p.num < s.c.cursor
  suffix : s.c.delivered.buf <:+ s.chain

theorem Inv.start : Inv .start where
  marks := trivial
  ascending := List.Pairwise.nil
  below := by simp [RingRun.start]
  suffix := List.suffix_rfl

theorem keepBelow_sublist (chain : List BlockPos) (n : Option (Fin (2 ^ 32))) :
    (keepBelow chain n).Sublist chain := by
  cases n with
  | none => exact List.Sublist.refl _
  | some n => exact List.filter_sublist

theorem lt_of_mem_keepBelow {chain : List BlockPos} {n : Fin (2 ^ 32)} {p : BlockPos}
    (member : p ∈ keepBelow chain (some n)) : p.num < n := by
  simpa using (List.mem_filter.mp member).2

theorem keepBelow_suffix {ring chain : List BlockPos} (suffix : ring <:+ chain)
    (n : Option (Fin (2 ^ 32))) : keepBelow ring n <:+ keepBelow chain n := by
  cases n with
  | none => exact suffix
  | some n => exact suffix.filter _

/-- The ring with the block a result has is a suffix of what the result leaves. -/
theorem record_suffix {rewound : DeliveredRing} {chain : List BlockPos} {lib : Option BlockPos}
    {n : Option (Fin (2 ^ 32))} {this : Option BlockPos}
    (suffix : rewound.buf <:+ keepBelow chain n)
    (stands : ∀ p, this = some p → n = some p.num) :
    (rewound.record lib this).buf <:+ keepBelow chain n ++ this.toList := by
  cases this with
  | none => simpa [DeliveredRing.record] using suffix
  | some p =>
      have kept : (rewound.buf.filter fun q => q.num < p.num) = rewound.buf := by
        rw [List.filter_eq_self]
        intro q member
        rw [stands p rfl] at suffix
        simpa using lt_of_mem_keepBelow (suffix.subset member)
      refine (rewound.push_suffix p lib).trans ?_
      rw [kept]
      obtain ⟨front, same⟩ := suffix
      exact ⟨front, by rw [← same, List.append_assoc]; rfl⟩

theorem Inv.forwarded {s : RingRun} (inv : s.Inv) {c : ClientSide} {h : ResultHead}
    {n : Option (Fin (2 ^ 32))} (delivers : Delivers s.c c h n)
    (belowMax : ∀ m, n = some m → m.val < u32Max) :
    Inv ⟨c, keepBelow s.chain n ++ h.thisBlock.toList⟩ := by
  constructor
  · exact delivers.marks inv.marks
  · have kept : Ascending BlockPos.num (keepBelow s.chain n) :=
      List.Pairwise.sublist (keepBelow_sublist _ _) inv.ascending
    cases this : h.thisBlock with
    | none => simpa using kept
    | some p =>
        apply kept.concat
        intro q member
        rw [delivers.stands p this] at member
        exact lt_of_mem_keepBelow member
  · intro p member
    rw [delivers.cursor]
    cases stands : n with
    | none =>
        have noBlock : h.thisBlock = none := by
          cases this : h.thisBlock with
          | none => rfl
          | some q =>
              rw [delivers.stands q this] at stands
              cases stands
        rw [noBlock, stands] at member
        exact inv.below p (by simpa [keepBelow] using member)
    | some m =>
        have next : (nextBlock m).val = m.val + 1 := by
          rw [nextBlock_val]
          have := belowMax m stands
          omega
        have upTo : p.num.val ≤ m.val := by
          rw [stands, List.mem_append, Option.mem_toList] at member
          rcases member with old | this
          · exact (lt_of_mem_keepBelow old).le
          · rw [delivers.stands p this, Option.some.injEq] at stands
            exact (congrArg Fin.val stands).le
        show p.num.val < (nextBlock m).val
        omega
  · obtain ⟨rewound, buf, ring⟩ := delivers.ring fun p member =>
      inv.below p (inv.suffix.subset member)
    rw [ring]
    apply record_suffix _ delivers.stands
    rw [buf]
    exact keepBelow_suffix inv.suffix n

theorem Inv.step {s : RingRun} (inv : s.Inv) {e : RingEvent} (belowMax : e.BelowMax s) :
    (s.step e).Inv := by
  cases e with
  | newRequest r =>
      refine ⟨inv.marks, inv.ascending.filter _, ?_, ?_⟩
      · intro p member
        exact lt_of_mem_keepBelow member
      · show (s.c.delivered.truncateFrom r.start).buf <:+ _
        rw [DeliveredRing.truncateFrom_buf]
        exact inv.suffix.filter _
  | headLib role head lib fleet patch =>
      exact ⟨headLibFor_marksOrdered s.c role head lib fleet patch, inv.ascending, inv.below,
        inv.suffix⟩
  | result st fleet h =>
      simp only [RingRun.step]
      split
      · rename_i c st' fw handled
        exact inv.forwarded (delivers_of_forwarded handled) fun n => belowMax c st' fw n handled
      · exact inv
      · exact inv
      · exact inv

/-- Every entry of the map above the LIB sent is in the ring. -/
def Complete (s : RingRun) : Prop :=
  ∀ p ∈ s.chain, s.c.aboveLib p = true → p ∈ s.c.delivered.buf

theorem Complete.forwarded {s : RingRun} (complete : s.Complete) (inv : s.Inv) {c : ClientSide}
    {h : ResultHead} {n : Option (Fin (2 ^ 32))} (delivers : Delivers s.c c h n)
    (fits : Fits ⟨c, keepBelow s.chain n ++ h.thisBlock.toList⟩) :
    Complete ⟨c, keepBelow s.chain n ++ h.thisBlock.toList⟩ := by
  obtain ⟨rewound, buf, ring⟩ := delivers.ring fun p member =>
    inv.below p (inv.suffix.subset member)
  -- What is still above the LIB was in the ring, and is below what the result replaces.
  have old : ∀ p ∈ keepBelow s.chain n, c.aboveLib p = true → p ∈ rewound.buf := by
    intro p member above
    have was := complete p ((keepBelow_sublist _ _).subset member)
      (delivers.above inv.marks p above)
    rw [buf]
    cases stands : n with
    | none => exact was
    | some m =>
        rw [stands] at member
        exact List.mem_filter.mpr ⟨was, by simpa using lt_of_mem_keepBelow member⟩
  intro p member above
  simp only [ring]
  cases this : h.thisBlock with
  | none =>
      simp only [this, Option.toList_none, List.append_nil] at member
      exact old p member above
  | some q =>
      simp only [this, Option.toList_some, List.mem_append, List.mem_singleton] at member
      rcases member with isOld | rfl
      · have below : p.num < q.num := by
          rw [delivers.stands q this] at isOld
          exact lt_of_mem_keepBelow isOld
        apply DeliveredRing.mem_push_of_mem (old p isOld above) below
        · intro l lib
          simpa [ClientSide.aboveLib, lib] using above
        · rw [Fits, this] at fits
          refine Nat.le_trans ?_ fits
          -- The cap counts blocks of the map above the LIB.
          have part :
              (DeliveredRing.replaced rewound.buf q).Sublist (keepBelow s.chain n ++ [q]) := by
            have suffix := keepBelow_suffix inv.suffix n
            rw [← buf] at suffix
            exact ((truncateFrom_initial _ _).sublist.trans suffix.sublist).append (.refl _)
          refine (part.countP_le).trans (List.countP_mono_left ?_)
          intro x _ higher
          simp only [ClientSide.aboveLib, Option.all_eq_true, decide_eq_true_eq] at above higher ⊢
          intro l lib
          exact (above l lib).trans_le higher
      · exact DeliveredRing.mem_push_self rewound p c.libSent

theorem Complete.step {s : RingRun} (complete : s.Complete) (inv : s.Inv) {e : RingEvent}
    (fits : (s.step e).Fits) : (s.step e).Complete := by
  cases e with
  | newRequest r =>
      intro p member above
      have kept : p ∈ keepBelow s.chain (some r.start) := member
      have was := complete p ((keepBelow_sublist _ _).subset kept) above
      show p ∈ (s.c.delivered.truncateFrom r.start).buf
      rw [DeliveredRing.truncateFrom_buf]
      exact List.mem_filter.mpr ⟨was, by simpa using lt_of_mem_keepBelow kept⟩
  | headLib role head lib fleet patch =>
      intro p member above
      have later : (headLibFor s.c role head lib fleet patch).1.aboveLib p = true := above
      exact complete p member (aboveLib_of_headLibFor inv.marks later)
  | result st fleet h =>
      simp only [RingRun.step] at fits ⊢
      split
      · rename_i c st' fw handled
        rw [handled] at fits
        exact complete.forwarded inv (delivers_of_forwarded handled) fits
      · exact complete
      · exact complete
      · exact complete

theorem Inv.of_reachable {s : RingRun}
    (reachable : Reachable ringMachine (fun s e => e.BelowMax s) s) : s.Inv := by
  refine reachable.invariant ?_ ?_
  · rintro _ rfl
    exact .start
  · rintro s e _ - inv belowMax ⟨⟩
    exact inv.step belowMax

theorem Complete.of_reachable {s : RingRun}
    (reachable : Reachable ringMachine (fun s e => e.BelowMax s ∧ (s.step e).Fits) s) :
    s.Complete := by
  have both : s.Inv ∧ s.Complete := by
    refine reachable.invariant (P := fun s => s.Inv ∧ s.Complete) ?_ ?_
    · rintro _ rfl
      exact ⟨.start, by simp [Complete, RingRun.start]⟩
    · rintro s e _ - ⟨inv, complete⟩ ⟨belowMax, fits⟩ ⟨⟩
      exact ⟨inv.step belowMax, complete.step inv fits⟩
  exact both.2

end RingRun

/-- The delivered ring refines the client's chain.  It ascends, holds at most
`deliveredCap` blocks, all below the cursor, and is a suffix of the map of what the
client holds; as long as that map never has more than `deliveredCap` blocks above the
LIB sent, the ring has them all.  Looking a block up in the two slices of the deque is
a linear search, however it is split, and `reversibleTail` gives the newest entries of
its range in ascending order. -/
theorem delivered_ring_refines_chain :
    (∀ s, Reachable ringMachine (fun s e => e.BelowMax s) s →
      Ascending BlockPos.num s.c.delivered.buf ∧ s.c.delivered.buf.length ≤ 4096 ∧
      (∀ p ∈ s.c.delivered.buf, p.num < s.c.cursor) ∧
      Ascending BlockPos.num s.chain ∧ s.c.delivered.buf <:+ s.chain) ∧
    (∀ s, Reachable ringMachine (fun s e => e.BelowMax s ∧ (s.step e).Fits) s →
      ∀ p ∈ s.chain, s.c.aboveLib p = true → p ∈ s.c.delivered.buf) ∧
    (∀ (ring : DeliveredRing) front back n, front ++ back = ring.buf →
      DeliveredRing.getSlices front back n =
        (ring.buf.find? fun p => p.num = n).map BlockPos.id) ∧
    ∀ (ring : DeliveredRing) lib below max,
      ring.reversibleTail lib below max =
        keepLast max (ring.buf.filter fun p => lib < p.num && p.num < below) ∧
      Ascending BlockPos.num (ring.reversibleTail lib below max) := by
  refine ⟨?_, ?_, ?_, ?_⟩
  · intro s reachable
    have inv := RingRun.Inv.of_reachable reachable
    exact ⟨s.c.delivered.ascending, s.c.delivered.bounded,
      fun p member => inv.below p (inv.suffix.subset member), inv.ascending, inv.suffix⟩
  · intro s reachable
    exact RingRun.Complete.of_reachable reachable
  · intro ring front back n split
    exact DeliveredRing.getSlices_eq_get split n
  · intro ring lib below max
    have tail := ring.reversibleTail_eq lib below max
    refine ⟨tail, ?_⟩
    rw [tail]
    exact Ascending.keepLast (ring.ascending.filter _) max

end FleetRouter.Session
