import FleetRouter.Lib.Transition
import FleetRouter.Session.Link

/-!
# De-duplication inside a resume window

The router recognises a replayed block by the delivered ring or by the
irreversible high-water mark.  `Core` runs the two router structures next to a
record of what the client was given: the chain it holds for its current request
and every delivery with the LIB in force at that moment.  A replay of a held
block is recognised exactly if the block was above the LIB at the last delivery
or some block at or above it was already irreversible when it was delivered.
-/

namespace FleetRouter.Session

open Ship KeyedDeque Transition

/-! ## The runs -/

/-- A block given to the client with an id, and the number of the LIB it had
been sent then. -/
structure Delivery where
  block : BlockPos
  lib : Fin (2 ^ 32)
  deriving DecidableEq

/-- The router's memory of one session and what the client was given. -/
structure Core where
  c : ClientSide
  st : LinkState
  /-- The blocks the client holds for its current request, ascending. -/
  chain : List BlockPos
  /-- Every delivery with an id, newest first. -/
  log : List Delivery

inductive CoreEvent where
  | newRequest (r : BlocksRequest)
  | ack (n : Fin (2 ^ 32))
  | headLib (role : Role) (head lib : BlockPos) (fleet : Option (BlockPos × BlockPos))
      (patch : Bool)
  | newLink (up : Nat) (role : Role)
  | request («end» : Fin (2 ^ 32)) (purpose : Purpose) (target : Target)
  | result (fleet : FleetAnswers) (h : ResultHead)

/-- The chain after a result: a block replaces what the client held at or above
it. -/
def chainAfter (chain : List BlockPos) (h : ResultHead) (n : Option (Fin (2 ^ 32))) :
    List BlockPos :=
  match h.thisBlock, n with
  | some p, _ => KeyedDeque.truncateFrom BlockPos.num p.num chain ++ [p]
  | none, some n => KeyedDeque.truncateFrom BlockPos.num n chain
  | none, none => chain

/-- The deliveries after a result sent with the LIB `lib`. -/
def logAfter (log : List Delivery) (h : ResultHead) (lib : Option BlockPos) : List Delivery :=
  match h.thisBlock, lib with
  | some block, some lib => { block, lib := lib.num } :: log
  | _, _ => log

def Core.step (s : Core) : CoreEvent → Option Core
  | .newRequest r => some
      { s with c := (s.c.newRequest r).1, st := { s.st with resumeFloor := none }, chain := [] }
  | .ack n => some { s with c := (s.c.ack n).1 }
  | .headLib role head lib fleet patch => some
      { s with c := (headLibFor s.c role head lib fleet patch).1 }
  | .newLink up role => some { s with st := LinkState.new up role }
  | .request «end» purpose target =>
      s.c.req.map fun creq =>
        { s with st := (buildRequest s.c creq s.st «end» purpose target).2 }
  | .result fleet h =>
      match onBlockResult s.c s.st fleet h with
      | .forwarded c st fw => some
          { c, st, chain := chainAfter s.chain h fw.cls.n, log := logAfter s.log h c.libSent }
      | .dropped st => some { s with st }
      | .ended _ | .ignored => some s

/-- The memory of a session that has just been opened. -/
def Core.fresh : Core where
  c := .default
  st := LinkState.new 0 .live
  chain := []
  log := []

def Core.machine : Machine Core CoreEvent where
  init s := s = Core.fresh
  step := Core.step

/-- The blocks the client holds above the LIB it has been sent. -/
def Core.reversible (s : Core) : Nat :=
  s.chain.countP fun p => s.c.libSent.all fun l => decide (l.num < p.num)

/-- The step does not leave the client with more reversible blocks than the ring
remembers. -/
def Core.withinCap (s : Core) (e : CoreEvent) : Prop :=
  ∀ s', s.step e = some s' → s'.reversible ≤ deliveredCap

/-! ## What the router remembers -/

/-- The ring and the high-water mark against the client's chain and the log of
deliveries. -/
structure Remembers (c : ClientSide) (chain : List BlockPos) (log : List Delivery) : Prop where
  marks : c.marksOrdered
  ascending : Ascending BlockPos.num chain
  behind : ∀ p ∈ chain, p.num < c.cursor ∨ c.cursor.val = u32Max
  /-- Entries of earlier requests are below the chain. -/
  leftovers : ∀ e ∈ c.delivered.buf, e ∈ chain ∨ ∀ p ∈ chain, e.num < p.num
  logged : log = [] → chain = []
  libs : ∀ d ∈ log, ∃ l, c.libSent = some l ∧ d.lib ≤ l.num
  remembered : ∀ d, log.head? = some d → ∀ p ∈ chain, d.lib < p.num → p ∈ c.delivered.buf
  forgotten : ∀ d, log.head? = some d → ∀ p ∈ chain, p ∈ c.delivered.buf →
    d.lib < p.num ∨ p = d.block
  hwm : ∀ n, (∃ w, c.irrHwm = some w ∧ n ≤ w) ↔
    ∃ d ∈ log, n ≤ d.block.num ∧ d.block.num ≤ d.lib

namespace Remembers

variable {c : ClientSide} {chain : List BlockPos} {log : List Delivery}

theorem initial : Remembers .default [] [] where
  marks := trivial
  ascending := List.Pairwise.nil
  behind := by simp
  leftovers := by simp [ClientSide.default, DeliveredRing.empty]
  logged := fun _ => rfl
  libs := by simp
  remembered := by simp
  forgotten := by simp
  hwm := by simp [ClientSide.default]

theorem exists_newest (inv : Remembers c chain log) {p : BlockPos} (held : p ∈ chain) :
    ∃ d, log.head? = some d := by
  cases entries : log with
  | nil => simp [inv.logged entries] at held
  | cons d rest => exact ⟨d, rfl⟩

/-- What the client holds above the LIB it was sent is in the ring. -/
theorem mem_ring (inv : Remembers c chain log) {p l : BlockPos} (held : p ∈ chain)
    (sent : c.libSent = some l) (above : l.num < p.num) : p ∈ c.delivered.buf := by
  obtain ⟨d, newest⟩ := inv.exists_newest held
  obtain ⟨l', sent', low⟩ := inv.libs d (List.mem_of_mem_head? newest)
  cases sent.symm.trans sent'
  exact inv.remembered d newest p held (low.trans_lt above)

theorem newRequest (inv : Remembers c chain log) (r : BlocksRequest) :
    Remembers (c.newRequest r).1 [] log where
  marks := inv.marks
  ascending := List.Pairwise.nil
  behind := by simp
  leftovers := by simp
  logged := fun _ => rfl
  libs := inv.libs
  remembered := by simp
  forgotten := by simp
  hwm := inv.hwm

theorem ack (inv : Remembers c chain log) (n : Fin (2 ^ 32)) :
    Remembers (c.ack n).1 chain log :=
  { inv with }

theorem charge (inv : Remembers c chain log) : Remembers c.charge.1 chain log :=
  { inv with }

theorem headLib (inv : Remembers c chain log) (role : Role) (head lib : BlockPos)
    (fleet : Option (BlockPos × BlockPos)) (patch : Bool) :
    Remembers (headLibFor c role head lib fleet patch).1 chain log :=
  { inv with
    marks := headLibFor_marksOrdered c role head lib fleet patch
    libs := by
      intro d member
      obtain ⟨l, sent, low⟩ := inv.libs d member
      exact ⟨_, rfl, low.trans (libSent_le_headLibMarks inv.marks sent role head lib fleet)⟩ }

end Remembers

theorem Forward.mem_rewound {fw : Forward} {ring : DeliveredRing} {e : BlockPos}
    (member : e ∈ (fw.rewound ring).buf) : e ∈ ring.buf := by
  unfold Forward.rewound at member
  split at member
  · exact (DeliveredRing.mem_truncateFrom.mp member).1
  · exact member

theorem Forward.mem_rewound_of_lt {fw : Forward} {ring : DeliveredRing} {e : BlockPos}
    {n : Fin (2 ^ 32)} (found : fw.cls.n = some n) (member : e ∈ ring.buf) (below : e.num < n) :
    e ∈ (fw.rewound ring).buf := by
  unfold Forward.rewound
  split
  · rename_i m isFork same
    cases found.symm.trans same
    exact DeliveredRing.mem_truncateFrom.mpr ⟨member, below⟩
  · exact member

namespace Remembers

variable {c : ClientSide} {chain : List BlockPos} {log : List Delivery} {h : ResultHead}
  {fw : Forward}

/-- Nothing held above the LIB is pushed out while the client holds at most as
many reversible blocks as the ring. -/
private theorem replaced_count (inv : Remembers c chain log) {p q l : BlockPos}
    (held : q ∈ chain) (above : l.num < q.num) :
    (DeliveredRing.replaced (fw.rewound c.delivered).buf p).countP
        (fun other => decide (q.num ≤ other.num)) ≤
      (KeyedDeque.truncateFrom BlockPos.num p.num chain ++ [p]).countP
        fun other => decide (l.num < other.num) := by
  refine (DeliveredRing.replaced_ascending (fw.rewound c.delivered).ascending p).countP_le ?_
  intro e member high
  have high : q.num ≤ e.num := by simpa using high
  refine ⟨?_, by simpa using above.trans_le high⟩
  rcases List.mem_append.mp member with old | new
  · obtain ⟨inRing, below⟩ :=
      (KeyedDeque.mem_truncateFrom (fw.rewound c.delivered).ascending).mp old
    rcases inv.leftovers e (Forward.mem_rewound inRing) with inChain | lower
    · exact List.mem_append_left _
        ((KeyedDeque.mem_truncateFrom inv.ascending).mpr ⟨inChain, below⟩)
    · exact absurd (lower q held) (not_lt.mpr high)
  · exact List.mem_append_right _ new

theorem block (inv : Remembers c chain log) {p l : BlockPos} (this : h.thisBlock = some p)
    (found : fw.cls.n = some p.num) (next : fw.next = some (nextBlock p.num))
    (sent : c.libSent = some l)
    (few : (KeyedDeque.truncateFrom BlockPos.num p.num chain ++ [p]).countP
      (fun other => decide (l.num < other.num)) ≤ deliveredCap) :
    Remembers (commitClient c h fw) (KeyedDeque.truncateFrom BlockPos.num p.num chain ++ [p])
      ({ block := p, lib := l.num } :: log) := by
  have ring : (commitClient c h fw).delivered =
      (fw.rewound c.delivered).push p (some l) := by
    simp [commitClient, this, ClientSide.record, sent]
  have mark : (commitClient c h fw).irrHwm = if p.num ≤ l.num
      then some (c.irrHwm.elim p.num fun w => max w p.num) else c.irrHwm := by
    simp [commitClient, this, ClientSide.record, sent]
  have cursor : (commitClient c h fw).cursor = nextBlock p.num := by
    rw [commitClient_cursor, next]
    rfl
  have inChain {q : BlockPos} :
      q ∈ KeyedDeque.truncateFrom BlockPos.num p.num chain ++ [p] ↔
        q ∈ chain ∧ q.num < p.num ∨ q = p := by
    rw [List.mem_append, KeyedDeque.mem_truncateFrom inv.ascending, List.mem_singleton]
  constructor
  case marks => simpa [ClientSide.marksOrdered] using inv.marks
  case ascending =>
    exact (inv.ascending.truncateFrom p.num).concat fun q member =>
      ((KeyedDeque.mem_truncateFrom inv.ascending).mp member).2
  case behind =>
    intro q member
    have top : q.num ≤ p.num := by
      rcases inChain.mp member with ⟨-, below⟩ | rfl
      · exact below.le
      · exact le_rfl
    have after := nextBlock_val p.num
    rw [cursor, u32Max]
    rw [u32Max] at after
    omega
  case leftovers =>
    intro e member
    rw [ring] at member
    rcases DeliveredRing.of_mem_push member with rfl | ⟨old, below, -⟩
    · exact .inl (inChain.mpr (.inr rfl))
    · rcases inv.leftovers e (Forward.mem_rewound old) with held | lower
      · exact .inl (inChain.mpr (.inl ⟨held, below⟩))
      · refine .inr fun q isHeld => ?_
        rcases inChain.mp isHeld with ⟨held, -⟩ | rfl
        · exact lower q held
        · exact below
  case logged => simp
  case libs =>
    intro d member
    rw [commitClient_libSent]
    rcases List.mem_cons.mp member with rfl | old
    · exact ⟨l, sent, le_rfl⟩
    · exact inv.libs d old
  case remembered =>
    intro d newest q member above
    cases newest
    rw [ring]
    rcases inChain.mp member with ⟨held, below⟩ | rfl
    · have inRing := inv.mem_ring held sent above
      refine DeliveredRing.mem_push_of_mem (Forward.mem_rewound_of_lt found inRing below) below
        ?_ ((replaced_count inv held above).trans few)
      rintro _ ⟨⟩
      exact above
    · exact DeliveredRing.mem_push_self _ _ _
  case forgotten =>
    intro d newest q member kept
    cases newest
    rw [ring] at kept
    rcases DeliveredRing.of_mem_push kept with rfl | ⟨-, -, above⟩
    · exact .inr rfl
    · exact .inl (above l rfl)
  case hwm =>
    intro n
    rw [mark]
    simp only [List.mem_cons, exists_eq_or_imp, ← inv.hwm n]
    split
    · rename_i irreversible
      cases c.irrHwm with
      | none => simp [irreversible]
      | some w => simp [irreversible, or_comm]
    · rename_i reversible
      simp [reversible]

theorem idless (inv : Remembers c chain log) {n : Fin (2 ^ 32)} (noBlock : h.thisBlock = none)
    (found : fw.cls.n = some n) (next : fw.next = some (nextBlock n))
    (placed : fw.fork = true ∨ c.cursor ≤ n ∧ n.val < u32Max) :
    Remembers (commitClient c h fw) (KeyedDeque.truncateFrom BlockPos.num n chain) log := by
  have same : commitClient c h fw =
      { c with
        delivered := fw.rewound c.delivered
        cursor := nextBlock n
        deliveredForRequest := c.deliveredForRequest + 1 } := by
    simp [commitClient, noBlock, next]
  have inChain {q : BlockPos} : q ∈ KeyedDeque.truncateFrom BlockPos.num n chain ↔
      q ∈ chain ∧ q.num < n := KeyedDeque.mem_truncateFrom inv.ascending
  rw [same]
  constructor
  case marks => exact inv.marks
  case ascending => exact inv.ascending.truncateFrom n
  case behind =>
    intro q member
    have below := (inChain.mp member).2
    have after := nextBlock_val n
    simp only [u32Max] at after ⊢
    omega
  case leftovers =>
    intro e member
    rcases inv.leftovers e (Forward.mem_rewound member) with held | lower
    · refine .inl (inChain.mpr ⟨held, ?_⟩)
      rcases placed with isFork | ⟨atLeast, small⟩
      · have rewound : fw.rewound c.delivered = c.delivered.truncateFrom n := by
          simp [Forward.rewound, isFork, found]
        rw [rewound] at member
        exact (DeliveredRing.mem_truncateFrom.mp member).2
      · rcases inv.behind e held with below | atMax
        · exact below.trans_le atLeast
        · omega
    · exact .inr fun q isHeld => lower q (inChain.mp isHeld).1
  case logged =>
    intro entries
    simp [inv.logged entries, KeyedDeque.truncateFrom]
  case libs => exact inv.libs
  case remembered =>
    intro d newest q member above
    obtain ⟨held, below⟩ := inChain.mp member
    exact Forward.mem_rewound_of_lt found (inv.remembered d newest q held above) below
  case forgotten =>
    intro d newest q member kept
    exact inv.forgotten d newest q (inChain.mp member).1 (Forward.mem_rewound kept)
  case hwm => exact inv.hwm

theorem uncounted (inv : Remembers c chain log) (noBlock : h.thisBlock = none)
    (found : fw.cls.n = none) : Remembers (commitClient c h fw) chain log := by
  have next : fw.next = none := by simp [Forward.next, found]
  have rewound : fw.rewound c.delivered = c.delivered := by
    unfold Forward.rewound
    rw [found]
    split
    · rename_i impossible
      cases impossible
    · rfl
  have same : commitClient c h fw =
      { c with deliveredForRequest := c.deliveredForRequest + 1 } := by
    simp [commitClient, noBlock, next, rewound]
  rw [same]
  exact { inv with }

/-- A forwarded result keeps the memory exact, as long as the client does not
hold more reversible blocks than the ring can. -/
theorem forwarded (inv : Remembers c chain log) {c' : ClientSide} {st st' : LinkState}
    {fleet : FleetAnswers} (handled : onBlockResult c st fleet h = .forwarded c' st' fw)
    (few : (chainAfter chain h fw.cls.n).countP
      (fun p => c'.libSent.all fun l => decide (l.num < p.num)) ≤ deliveredCap) :
    Remembers c' (chainAfter chain h fw.cls.n) (logAfter log h c'.libSent) := by
  obtain ⟨creq, lr, -, -, judged, rfl, rfl⟩ := onBlockResult_forwarded handled
  obtain ⟨cls, -, placed, -, -⟩ := judge_eq_forward judged
  have marked := inv.charge.headLib st.role h.head h.lib fleet.tip fleet.patch
  have next := forward_next cls
  cases this : h.thisBlock with
  | some p =>
      have found : fw.cls.n = some p.num := by rw [cls, classifyResult_some this]
      rw [found] at next
      have after : chainAfter chain h fw.cls.n =
          KeyedDeque.truncateFrom BlockPos.num p.num chain ++ [p] := by
        simp [chainAfter, this]
      rw [commitClient_libSent, after] at few
      rw [after, commitClient_libSent]
      simp only [logAfter, this]
      exact marked.block this found next rfl few
  | none =>
      have sameLog (lib : Option BlockPos) : logAfter log h lib = log := by
        simp [logAfter, this]
      rw [sameLog]
      cases found : fw.cls.n with
      | none =>
          have after : chainAfter chain h none = chain := by simp [chainAfter, this]
          rw [after]
          exact marked.uncounted this found
      | some n =>
          rw [found] at next
          have after : chainAfter chain h (some n) =
              KeyedDeque.truncateFrom BlockPos.num n chain := by
            simp [chainAfter, this]
          rw [after]
          refine marked.idless this found next ?_
          by_cases below : n < c.cursor
          · exact .inl (placeResult_below placed found below).1
          · have classified := found
            rw [cls] at classified
            have rule := (classifyResult_idless this classified).2.2.1
            refine .inr ⟨not_lt.mp below, ?_⟩
            rw [u32Max]
            omega

end Remembers

theorem remembers_of_reachable {s : Core}
    (reachable : Reachable Core.machine Core.withinCap s) : Remembers s.c s.chain s.log := by
  refine reachable.invariant (P := fun s => Remembers s.c s.chain s.log) ?_ ?_
  · rintro _ rfl
    exact Remembers.initial
  · intro s e s' _ inv within step
    have few := within s' step
    change s.step e = some s' at step
    cases e with
    | newRequest r =>
        cases step
        exact inv.newRequest r
    | ack n =>
        cases step
        exact inv.ack n
    | headLib role head lib fleet patch =>
        cases step
        exact inv.headLib role head lib fleet patch
    | newLink up role =>
        cases step
        exact inv
    | request «end» purpose target =>
        obtain ⟨creq, -, rfl⟩ := Option.map_eq_some_iff.mp step
        exact inv
    | result fleet h =>
        simp only [Core.step] at step
        split at step
        · rename_i c st fw handled
          cases step
          exact inv.forwarded handled few
        all_goals
          cases step
          exact inv

/-! ## Recognising a replay -/

/-- On a live link a block below the cursor is dropped exactly if the window is
open and the router has it. -/
theorem judge_live_below {c : ClientSide} {st : LinkState} {creq : BlocksRequest}
    {lr : LinkReq} {h : ResultHead} {lacks : Fin (2 ^ 32) → Lacks}
    {alternative : Fin (2 ^ 32) → Bool} {p : BlockPos} (live : st.role = .live)
    (this : h.thisBlock = some p) (below : p.num < c.cursor) (window : st.resumeFloor.isSome) :
    judge c st creq lr h lacks alternative = .duplicate (some (nextBlock p.num)) ↔
      c.isDup p.num (some p) = true := by
  constructor
  · intro judged
    obtain ⟨n, found, -, -, dup, -⟩ := judge_eq_duplicate judged
    rw [classifyResult_some this] at found
    cases found
    rwa [this] at dup
  · intro dup
    have contract (cls : Classified) : frozenContract st creq h lacks cls = .ok false := by
      simp [frozenContract, live]
    simp [judge, contract, placeResult, classifyResult_some this, below, window, this, dup]

/-- The block was above the LIB in force at the last delivery, or a block at or
above it was at or below the LIB when it was delivered. -/
def Core.recognises (s : Core) (n : Fin (2 ^ 32)) : Prop :=
  (∀ d, s.log.head? = some d → d.lib < n) ∨
    ∃ d ∈ s.log, n ≤ d.block.num ∧ d.block.num ≤ d.lib

theorem Remembers.isDup_iff {c : ClientSide} {chain : List BlockPos} {log : List Delivery}
    (inv : Remembers c chain log) {p : BlockPos} (held : p ∈ chain) :
    c.isDup p.num (some p) = true ↔
      (∀ d, log.head? = some d → d.lib < p.num) ∨
        ∃ d ∈ log, p.num ≤ d.block.num ∧ d.block.num ≤ d.lib := by
  obtain ⟨d, newest⟩ := inv.exists_newest held
  have heads : (∀ e, log.head? = some e → e.lib < p.num) ↔ d.lib < p.num := by simp [newest]
  rw [heads, ← inv.hwm p.num]
  by_cases kept : p ∈ c.delivered.buf
  · have remembered : c.delivered.get p.num = some p.id := DeliveredRing.get_eq_some.mpr kept
    simp only [ClientSide.isDup, remembered, decide_true, true_iff]
    rcases inv.forgotten d newest p held kept with above | rfl
    · exact .inl above
    · by_cases low : d.block.num ≤ d.lib
      · exact .inr ((inv.hwm _).mpr ⟨d, List.mem_of_mem_head? newest, le_rfl, low⟩)
      · exact .inl (not_le.mp low)
  · have notAbove : ¬d.lib < p.num := fun above =>
      kept (inv.remembered d newest p held above)
    have absent : c.delivered.get p.num = none := by
      rw [DeliveredRing.get_eq_none]
      intro e member sameNumber
      rcases inv.leftovers e member with inChain | lower
      · exact kept (inv.ascending.eq_of_key_eq inChain held sameNumber ▸ member)
      · exact (lower p held).ne sameNumber
    simp only [ClientSide.isDup, absent, notAbove, false_or]
    cases c.irrHwm <;> simp

/-- Inside a resume window a live replay of a block the client holds is dropped
exactly if the block was above the LIB at the last delivery, or a block at or
above it was already irreversible when it was delivered. -/
theorem replay_dropped_iff (s : Core) (reachable : Reachable Core.machine Core.withinCap s)
    (creq : BlocksRequest) (lr : LinkReq) (h : ResultHead) (lacks : Fin (2 ^ 32) → Lacks)
    (alternative : Fin (2 ^ 32) → Bool) (p : BlockPos) (live : s.st.role = .live)
    (window : s.st.resumeFloor.isSome) (this : h.thisBlock = some p)
    (below : p.num < s.c.cursor) (held : p ∈ s.chain) :
    judge s.c s.st creq lr h lacks alternative = .duplicate (some (nextBlock p.num)) ↔
      s.recognises p.num := by
  rw [judge_live_below live this below window]
  exact (remembers_of_reachable reachable).isDup_iff held

/-! ## A replay that is not recognised -/

instance (s : Core) (e : CoreEvent) : Decidable (s.withinCap e) :=
  decidable_of_iff ((s.step e).all fun s' => decide (s'.reversible ≤ deliveredCap)) (by
    simp [Core.withinCap, Option.all_eq_true])

/-- Blocks 101 to 103 are delivered while the LIB is 100, then block 104 with
the LIB at 102, and the stream is resumed on another link. -/
def prunedRun : List CoreEvent :=
  [.newRequest streamRequest, .newLink 0 .live, .request 1000 .initial ⟨.pool, none⟩,
    .result quietFleet (liveResult 101 103 100), .result quietFleet (liveResult 102 103 100),
    .result quietFleet (liveResult 103 103 100), .result quietFleet (liveResult 104 104 102),
    .newLink 1 .live, .request 1000 .failover ⟨.pool, none⟩]

/-- Block 101 became irreversible after it was delivered.  The ring has pruned
it, the high-water mark was never set, and its replay is forwarded again. -/
theorem replay_forwarded :
    ∃ s, Reachable Core.machine Core.withinCap s ∧
      s.st.role = .live ∧ s.st.resumeFloor.isSome ∧ samplePos 101 ∈ s.chain ∧
      (101 : Fin (2 ^ 32)) < s.c.cursor ∧ s.c.libSent = some (samplePos 102) ∧
      s.c.irrHwm = none ∧
      s.st.req = some ⟨105, 1000, false, false, .failover⟩ ∧
      judge s.c s.st streamRequest ⟨105, 1000, false, false, .failover⟩
          (liveResult 101 104 102) quietFleet.lacks quietFleet.alternative =
        .forward ⟨⟨some 101, true, .block⟩, true, false, false, false, false⟩ :=
  exists_reachable_of_run prunedRun rfl (by decide +kernel)

/-- In the same state block 103 is still above the LIB, and its replay is
dropped. -/
theorem replay_dropped_sample :
    ∃ s, Reachable Core.machine Core.withinCap s ∧ samplePos 103 ∈ s.chain ∧
      s.recognises 103 := by
  have found : ∃ s, Reachable Core.machine Core.withinCap s ∧
      s.st.role = .live ∧ s.st.resumeFloor.isSome ∧ samplePos 103 ∈ s.chain ∧
      (103 : Fin (2 ^ 32)) < s.c.cursor ∧
      judge s.c s.st streamRequest ⟨105, 1000, false, false, .failover⟩
          (liveResult 103 104 102) quietFleet.lacks quietFleet.alternative =
        .duplicate (some (nextBlock 103)) :=
    exists_reachable_of_run prunedRun rfl (by decide +kernel)
  obtain ⟨s, reachable, live, window, held, below, dropped⟩ := found
  exact ⟨s, reachable, held,
    (replay_dropped_iff s reachable streamRequest ⟨105, 1000, false, false, .failover⟩
      (liveResult 103 104 102) quietFleet.lacks quietFleet.alternative (samplePos 103)
      live window rfl below held).mp dropped⟩

end FleetRouter.Session
