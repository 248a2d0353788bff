import Mathlib.Order.Fin.Basic
import FleetRouter.Lib.KeyedDeque
import FleetRouter.Ship.Wire

/-!
# The state of a session

`ClientSide` mirrors what one Spring node would hold for this client: the
current request, the send credit, the cursor, the head and LIB already sent
and the reversible blocks already delivered.  `LinkState` is the part of an
upstream link that holds no socket.  Instants and transport counters are left
out; no function modelled here reads them.
-/

namespace FleetRouter.Session

open Ship

/-! ## Saturating `u32` arithmetic -/

def u32Max : Nat := 2 ^ 32 - 1

theorem u32Max_lt : u32Max < 2 ^ 32 := by decide

def saturatingAdd (a b : Fin (2 ^ 32)) : Fin (2 ^ 32) :=
  if fits : a.val + b.val < 2 ^ 32 then ⟨a.val + b.val, fits⟩ else ⟨u32Max, u32Max_lt⟩

theorem saturatingAdd_val (a b : Fin (2 ^ 32)) :
    (saturatingAdd a b).val = min (a.val + b.val) u32Max := by
  unfold saturatingAdd u32Max
  split <;> simp only <;> omega

/-- `n.saturating_add(1)`, the block after `n`. -/
def nextBlock (n : Fin (2 ^ 32)) : Fin (2 ^ 32) := saturatingAdd n 1

theorem nextBlock_val (n : Fin (2 ^ 32)) : (nextBlock n).val = min (n.val + 1) u32Max :=
  saturatingAdd_val n 1

/-! ## The delivered ring -/

/-- Reversible blocks remembered per session. -/
def deliveredCap : Nat := 4096

/-- Positions sent with a resume request. -/
def resumePositions : Nat := 1024

/-- The reversible blocks delivered to the client, ascending by number. -/
structure DeliveredRing where
  buf : List BlockPos
  ascending : KeyedDeque.Ascending BlockPos.num buf
  bounded : buf.length ≤ deliveredCap
  deriving DecidableEq

namespace DeliveredRing

open KeyedDeque

def empty : DeliveredRing := ⟨[], List.Pairwise.nil, Nat.zero_le _⟩

/-- The buffer with the entries at or above the block dropped and the block put
at the back. -/
def replaced (buf : List BlockPos) (p : BlockPos) : List BlockPos :=
  truncateFrom BlockPos.num p.num buf ++ [p]

theorem replaced_ascending {buf : List BlockPos} (ascending : Ascending BlockPos.num buf)
    (p : BlockPos) : Ascending BlockPos.num (replaced buf p) :=
  (ascending.truncateFrom p.num).concat fun _ member =>
    ((mem_truncateFrom ascending).mp member).2

/-- The entries at or below the LIB are pruned; the newest one is kept. -/
def pruned (lib : Option BlockPos) (buf : List BlockPos) : List BlockPos :=
  match lib with
  | some lib => pruneTo BlockPos.num lib.num buf
  | none => buf

theorem pruned_ascending {buf : List BlockPos} (ascending : Ascending BlockPos.num buf)
    (lib : Option BlockPos) : Ascending BlockPos.num (pruned lib buf) := by
  cases lib with
  | none => exact ascending
  | some lib => exact ascending.pruneTo lib.num

/-- Record a delivered block. -/
def push (ring : DeliveredRing) (p : BlockPos) (lib : Option BlockPos) : DeliveredRing where
  buf := keepLast deliveredCap (pruned lib (replaced ring.buf p))
  ascending := (pruned_ascending (replaced_ascending ring.ascending p) lib).keepLast _
  bounded := keepLast_length _ _

/-- The id delivered for block `n`, if it is still remembered. -/
def get (ring : DeliveredRing) (n : Fin (2 ^ 32)) : Option Checksum :=
  (lookup BlockPos.num n ring.buf).map BlockPos.id

/-- Drop the entries at or above `n`. -/
def truncateFrom (ring : DeliveredRing) (n : Fin (2 ^ 32)) : DeliveredRing where
  buf := KeyedDeque.truncateFrom BlockPos.num n ring.buf
  ascending := ring.ascending.truncateFrom n
  bounded := (truncateFrom_initial n ring.buf).length_le.trans ring.bounded

/-- The newest `max` entries with `lib < num < below`, ascending. -/
def reversibleTail (ring : DeliveredRing) (lib below : Fin (2 ^ 32)) (max : Nat) :
    List BlockPos :=
  ((ring.buf.reverse.filter fun p => lib < p.num && p.num < below).take max).reverse

theorem get_eq_some {ring : DeliveredRing} {n : Fin (2 ^ 32)} {id : Checksum} :
    ring.get n = some id ↔ ⟨n, id⟩ ∈ ring.buf := by
  simp only [get, Option.map_eq_some_iff, lookup_eq_some ring.ascending]
  constructor
  · rintro ⟨p, ⟨member, rfl⟩, rfl⟩
    exact member
  · intro member
    exact ⟨⟨n, id⟩, ⟨member, rfl⟩, rfl⟩

theorem get_eq_none {ring : DeliveredRing} {n : Fin (2 ^ 32)} :
    ring.get n = none ↔ ∀ p ∈ ring.buf, p.num ≠ n := by
  simp [get, lookup_eq_none]

theorem mem_truncateFrom {ring : DeliveredRing} {n : Fin (2 ^ 32)} {p : BlockPos} :
    p ∈ (ring.truncateFrom n).buf ↔ p ∈ ring.buf ∧ p.num < n :=
  KeyedDeque.mem_truncateFrom ring.ascending

theorem mem_reversibleTail {ring : DeliveredRing} {lib below : Fin (2 ^ 32)} {max : Nat}
    {p : BlockPos} (member : p ∈ ring.reversibleTail lib below max) :
    p ∈ ring.buf ∧ lib < p.num ∧ p.num < below := by
  rw [reversibleTail, List.mem_reverse] at member
  simpa using List.mem_of_mem_take member

theorem push_buf (ring : DeliveredRing) (p : BlockPos) (lib : Option BlockPos) :
    (ring.push p lib).buf = keepLast deliveredCap (pruned lib (replaced ring.buf p)) := by
  simp only [push]

/-- What the ring remembers after a delivery: the block itself and entries below
it that are above the LIB. -/
theorem of_mem_push {ring : DeliveredRing} {p e : BlockPos} {lib : Option BlockPos}
    (member : e ∈ (ring.push p lib).buf) :
    e = p ∨ e ∈ ring.buf ∧ e.num < p.num ∧ ∀ l, lib = some l → l.num < e.num := by
  rw [push_buf] at member
  have inPruned := (keepLast_suffix deliveredCap _).subset member
  have split (inReplaced : e ∈ replaced ring.buf p) :
      e = p ∨ e ∈ ring.buf ∧ e.num < p.num := by
    rcases List.mem_append.mp inReplaced with old | new
    · exact .inr ((KeyedDeque.mem_truncateFrom ring.ascending).mp old)
    · exact .inl (List.mem_singleton.mp new)
  cases lib with
  | none =>
      rcases split inPruned with isNew | old
      · exact .inl isNew
      · exact .inr ⟨old.1, old.2, by simp⟩
  | some l =>
      rcases (mem_pruneTo (replaced_ascending ring.ascending p)).mp inPruned with
        ⟨inFront, above⟩ | isNew
      · obtain ⟨old, below⟩ := (KeyedDeque.mem_truncateFrom ring.ascending).mp inFront
        exact .inr ⟨old, below, by rintro _ ⟨⟩; exact above⟩
      · exact .inl isNew

/-- An entry stays if it is below the new block, above the LIB, and not pushed
out by the cap. -/
theorem mem_push_of_mem {ring : DeliveredRing} {p e : BlockPos} {lib : Option BlockPos}
    (member : e ∈ ring.buf) (below : e.num < p.num) (above : ∀ l, lib = some l → l.num < e.num)
    (few : (replaced ring.buf p).countP (fun other => decide (e.num ≤ other.num)) ≤
      deliveredCap) :
    e ∈ (ring.push p lib).buf := by
  have inFront : e ∈ KeyedDeque.truncateFrom BlockPos.num p.num ring.buf :=
    (KeyedDeque.mem_truncateFrom ring.ascending).mpr ⟨member, below⟩
  have ascending := replaced_ascending ring.ascending p
  rw [push_buf]
  cases lib with
  | none => exact mem_keepLast ascending (List.mem_append_left _ inFront) few
  | some l =>
      refine mem_keepLast (ascending.pruneTo l.num)
        ((mem_pruneTo ascending).mpr (.inl ⟨inFront, above l rfl⟩)) ?_
      exact ((pruneTo_suffix _ _).sublist.countP_le).trans few

theorem mem_push_self (ring : DeliveredRing) (p : BlockPos) (lib : Option BlockPos) :
    p ∈ (ring.push p lib).buf := by
  have ascending := replaced_ascending ring.ascending p
  have alone : (replaced ring.buf p).countP (fun other => decide (p.num ≤ other.num)) ≤
      deliveredCap := by
    have one : (replaced ring.buf p).countP (fun other => decide (p.num ≤ other.num)) ≤
        [p].countP fun _ => true := by
      refine ascending.countP_le fun entry member high => ⟨?_, rfl⟩
      rcases List.mem_append.mp member with old | new
      · have low := ((KeyedDeque.mem_truncateFrom ring.ascending).mp old).2
        exact absurd low (not_lt.mpr (by simpa using high))
      · exact new
    exact one.trans (Nat.le_of_ble_eq_true rfl)
  rw [push_buf]
  cases lib with
  | none => exact mem_keepLast ascending (by simp [replaced]) alone
  | some l =>
      refine mem_keepLast (ascending.pruneTo l.num)
        ((mem_pruneTo ascending).mpr (.inr rfl)) ?_
      exact ((pruneTo_suffix _ _).sublist.countP_le).trans alone

/-- What is below the new block and above an entry that stays, stays too. -/
theorem mem_push_of_le {ring : DeliveredRing} {p e q : BlockPos} {lib : Option BlockPos}
    (kept : e ∈ (ring.push p lib).buf) (member : q ∈ ring.buf) (above : e.num ≤ q.num)
    (below : q.num < p.num) : q ∈ (ring.push p lib).buf := by
  have suffix : (ring.push p lib).buf <:+ replaced ring.buf p := by
    rw [push_buf]
    refine (keepLast_suffix _ _).trans ?_
    cases lib with
    | none => exact List.suffix_rfl
    | some l => exact pruneTo_suffix _ _
  refine (replaced_ascending ring.ascending p).mem_suffix suffix kept ?_ above
  exact List.mem_append_left _ ((KeyedDeque.mem_truncateFrom ring.ascending).mpr ⟨member, below⟩)

end DeliveredRing

/-! ## Links -/

/-- A live node follows the chain; a frozen one serves a fixed archive. -/
inductive Role where
  | live
  | frozen
  deriving DecidableEq, Repr

/-- How a listener routes: to whole nodes, or across block ranges. -/
inductive Topology where
  | pool
  | stitched
  deriving DecidableEq, Repr

/-- The upstream's next block, as far as the router can tell. -/
inductive UpCursor where
  | exact (u : Fin (2 ^ 32))
  | uncertain (lo hi : Fin (2 ^ 32))
  deriving DecidableEq, Repr

/-- Why the router sent a request. -/
inductive Purpose where
  | initial
  | handoff
  | failover
  | reroute
  deriving DecidableEq, Repr

/-- The request continues a stream the client already has. -/
def Purpose.resumes : Purpose → Bool
  | .failover | .handoff => true
  | .initial | .reroute => false

/-- The request a link is serving. -/
structure LinkReq where
  start : Fin (2 ^ 32)
  «end» : Fin (2 ^ 32)
  clamped : Bool
  irreversibleOnly : Bool
  purpose : Purpose
  deriving DecidableEq, Repr

/-- What the router tracks about one link, apart from its socket. -/
structure LinkState where
  up : Nat
  role : Role
  req : Option LinkReq
  upCursor : UpCursor
  firstResultPending : Bool
  /-- The de-duplication window, open from a resume until a result reaches
  it. -/
  resumeFloor : Option (Fin (2 ^ 32))
  /-- On a frozen link, id-less results are allowed only below this block. -/
  expectIdsFrom : Fin (2 ^ 32)
  keepalivesSeen : Nat
  lastHead : Option BlockPos
  lastLib : Option BlockPos
  frames : Nat
  deriving DecidableEq, Repr

def LinkState.new (up : Nat) (role : Role) : LinkState where
  up := up
  role := role
  req := none
  upCursor := .exact 0
  firstResultPending := false
  resumeFloor := none
  expectIdsFrom := 0
  keepalivesSeen := 0
  lastHead := none
  lastLib := none
  frames := 0

/-- The link's request has nothing left to send. -/
def LinkState.legDone (st : LinkState) : Bool :=
  match st.req, st.upCursor with
  | none, _ => true
  | some req, .exact u => req.end ≤ u
  | some _, .uncertain _ _ => false

/-! ## The client side -/

/-- What one Spring node would hold for this client, and what the router has
already sent it. -/
structure ClientSide where
  req : Option BlocksRequest
  /-- The mirror of the node's send credit. -/
  credit : Fin (2 ^ 32)
  /-- The next block the client expects. -/
  cursor : Fin (2 ^ 32)
  deliveredForRequest : Nat
  headSent : Option BlockPos
  libSent : Option BlockPos
  delivered : DeliveredRing
  /-- A high-water mark of irreversible deliveries. -/
  irrHwm : Option (Fin (2 ^ 32))
  last : Option BlockPos
  deriving DecidableEq

def ClientSide.default : ClientSide where
  req := none
  credit := 0
  cursor := 0
  deliveredForRequest := 0
  headSent := none
  libSent := none
  delivered := .empty
  irrHwm := none
  last := none

/-- `end ≤ start` and no position below both: the router takes it that a node never
sends anything for this request. -/
def requestIsEmpty (r : BlocksRequest) : Bool :=
  r.end ≤ r.start && !r.havePositions.any fun p => p.num < min r.start r.end

namespace ClientSide

/-- A client ack.  Also returns how much the credit rose. -/
def ack (c : ClientSide) (n : Fin (2 ^ 32)) : ClientSide × Fin (2 ^ 32) :=
  let credit := saturatingAdd c.credit n
  ({ c with credit }, ⟨credit.val - c.credit.val, by omega⟩)

/-- A new request replaces the request, the credit and the cursor.  Also
returns the credit before it. -/
def newRequest (c : ClientSide) (r : BlocksRequest) : ClientSide × Fin (2 ^ 32) :=
  ({ c with
      credit := r.maxInFlight
      cursor := r.start
      deliveredForRequest := 0
      delivered := c.delivered.truncateFrom r.start
      req := some r }, c.credit)

/-- Charge one forwarded result.  Also returns whether the client had no credit
left, in which case the credit stays 0. -/
def charge (c : ClientSide) : ClientSide × Bool :=
  ({ c with credit := ⟨c.credit.val - 1, by omega⟩ }, c.credit.val = 0)

/-- The last delivered block, if it was at or below the LIB the client had been
sent. -/
def lastIrreversible (c : ClientSide) : Option BlockPos :=
  c.last.filter fun last => c.irrHwm.any fun w => last.num ≤ w

/-- Whether the current request still owes the client blocks. -/
def inProgress (c : ClientSide) : Bool :=
  c.req.any fun r => !requestIsEmpty r && c.cursor < r.end

/-- Inside a resume window, whether block `n` below the cursor is a replay of
what the client already has. -/
def isDup (c : ClientSide) (n : Fin (2 ^ 32)) (this : Option BlockPos) : Bool :=
  match this with
  | some p =>
      match c.delivered.get n with
      | some id => id = p.id
      | none => c.irrHwm.any fun w => n ≤ w
  | none => true

@[simp] theorem ack_credit (c : ClientSide) (n : Fin (2 ^ 32)) :
    (c.ack n).1.credit.val = c.credit.val + (c.ack n).2.val := by
  have := saturatingAdd_val c.credit n
  simp only [ack, u32Max] at this ⊢
  omega

theorem charge_credit {c : ClientSide} (positive : 0 < c.credit.val) :
    c.charge.2 = false ∧ c.charge.1.credit.val + 1 = c.credit.val := by
  simp only [charge, decide_eq_false_iff_not]
  omega

end ClientSide

/-- Block `n` of a sample chain. -/
def samplePos (n : Fin (2 ^ 32)) : BlockPos := ⟨n, Vector.replicate 32 n.val.toUInt8⟩

end FleetRouter.Session
