import Mathlib.Logic.Function.Basic
import Mathlib.Data.List.Nodup
import FleetRouter.Net.Session

/-!
# One chain and its nodes

The chain every upstream follows, and the nodes of the lock-step tests: a live
node holds the blocks from its first one up to its own head, starts lower for a
position it does not share, starts at its first block when asked below it, and
is rewound by a fork; an archive holds irreversible blocks and sends results
without an id below the first id it knows.  Live nodes of the legacy family also
send head keep-alives.
-/

namespace FleetRouter.Net

open Ship Session Transition

/-- The ids of the branches a chain may take: two branches never share the id of
a block. -/
structure Branches (κ : Type) where
  id : κ → Fin (2 ^ 32) → Checksum
  distinct : ∀ n, Function.Injective fun branch => id branch n

/-- Blocks that may be reversible at a time. -/
def maxReversible : Nat := 1024

/-- The chain: the forks that happened, last first, each with the branch it
started. -/
structure Chain (κ : Type) where
  head : Fin (2 ^ 32)
  lib : Fin (2 ^ 32)
  genesis : κ
  forks : List (Fin (2 ^ 32) × κ)
  ordered : lib ≤ head
  shallow : head.val ≤ lib.val + maxReversible
  /-- No branch is taken twice. -/
  fresh : (genesis :: forks.map Prod.snd).Nodup

/-- What the chain or a node does next. -/
inductive Choice (κ : Type) where
  /-- The chain gets blocks, and its LIB moves. -/
  | advance (head lib : Fin (2 ^ 32))
  | fork (start : Fin (2 ^ 32)) (branch : κ)
  /-- A connected node catches up with the chain. -/
  | tip (head lib : Fin (2 ^ 32))
  | result
  | keepAlive

namespace Chain

variable {κ : Type} (b : Branches κ)

/-- The branch block `n` is on. -/
def branch (w : Chain κ) (n : Fin (2 ^ 32)) : κ :=
  (w.forks.find? fun f => f.1 ≤ n).elim w.genesis Prod.snd

def pos (w : Chain κ) (n : Fin (2 ^ 32)) : BlockPos := ⟨n, b.id (w.branch n) n⟩

variable [DecidableEq κ]

/-- The chain moves.  Forks are above the LIB and take a new branch. -/
def evolve (w : Chain κ) : Choice κ → Option (Chain κ)
  | .advance head lib =>
      if grows : w.head ≤ head ∧ w.lib ≤ lib ∧ lib ≤ head ∧ head.val ≤ lib.val + maxReversible then
        some { w with head, lib, ordered := grows.2.2.1, shallow := grows.2.2.2 }
      else none
  | .fork start branch =>
      if new : w.lib < start ∧ branch ≠ w.genesis ∧ branch ∉ w.forks.map Prod.snd then
        some
          { w with
            forks := (start, branch) :: w.forks
            fresh := by
              have old := List.nodup_cons.mp w.fresh
              simp only [List.map_cons, List.nodup_cons, List.mem_cons, not_or]
              exact ⟨⟨new.2.1.symm, old.1⟩, new.2.2, old.2⟩ }
      else none
  | .tip _ _ => some w
  | .result | .keepAlive => none

end Chain

/-- A connection of a node: what it has of the chain, and what it is sending. -/
structure Node where
  role : Role
  legacy : Bool
  /-- The first block whose id it knows. -/
  first : Fin (2 ^ 32)
  head : Fin (2 ^ 32)
  lib : Fin (2 ^ 32)
  req : Option BlocksRequest
  cursor : Fin (2 ^ 32)
  credit : Fin (2 ^ 32)
  ordered : lib ≤ head
  rooted : first.val ≤ lib.val + 1
  shallow : head.val ≤ lib.val + maxReversible

namespace Node

variable {κ : Type} (b : Branches κ)

def knows (x : Node) (n : Fin (2 ^ 32)) : Bool := x.first ≤ n && n ≤ x.head

/-- A new connection has no request.  A live node is not ahead of the chain, and
an archive holds irreversible blocks only. -/
def joins (w : Chain κ) (x : Node) : Bool :=
  x.req.isNone && x.credit = 0 && x.lib ≤ w.lib && x.head ≤ w.head &&
    (x.role = .live || x.head = x.lib)

/-- A fork rewinds a live node that is past it.  No node leaves a branch at or
below its own LIB. -/
def follow (w : Chain κ) : Choice κ → Node → Node
  | .fork start _, x =>
      if x.role = .live && start < x.cursor && x.lib < start then { x with cursor := start }
      else x
  | .tip head lib, x =>
      if grows : x.role = .live ∧ x.head ≤ head ∧ head ≤ w.head ∧ x.lib ≤ lib ∧ lib ≤ w.lib ∧
          lib ≤ head ∧ head.val ≤ lib.val + maxReversible then
        { x with
          head, lib
          ordered := grows.2.2.2.2.2.1
          rooted := by
            have := x.rooted
            omega
          shallow := grows.2.2.2.2.2.2 }
      else x
  | .advance _ _, x | .result, x | .keepAlive, x => x

/-- A position below the start that the node does not share moves the start
down to it. -/
def lowered (w : Chain κ) (x : Node) (start : Fin (2 ^ 32)) (p : BlockPos) : Fin (2 ^ 32) :=
  if p.num < start && !(x.knows p.num && w.pos b p.num = p) then p.num else start

/-- Where the node starts for a request; a live node not below its first
block. -/
def startFor (w : Chain κ) (x : Node) (r : BlocksRequest) : Fin (2 ^ 32) :=
  let start := r.havePositions.foldl (lowered b w x) r.start
  match x.role with
  | .live => max start x.first
  | .frozen => start

def onRequest (w : Chain κ) (x : Node) (r : BlocksRequest) : Node :=
  { x with req := some r, cursor := x.startFor b w r, credit := r.maxInFlight }

def onAck (x : Node) (n : Fin (2 ^ 32)) : Node := { x with credit := x.credit + n }

/-- The last block the request may be sent up to. -/
def gate (x : Node) (r : BlocksRequest) : Fin (2 ^ 32) :=
  if r.irreversibleOnly then x.lib else x.head

/-- The result for block `n`, with an id if the node knows it. -/
def result (w : Chain κ) (x : Node) (r : BlocksRequest) (n : Fin (2 ^ 32)) : Frame where
  h :=
    { v1 := r.v1
      head := w.pos b x.head
      lib := w.pos b x.lib
      thisBlock := if x.knows n then some (w.pos b n) else none
      prevBlock := if x.knows n && 1 < n then some (w.pos b (n - 1)) else none
      fieldsAt := 0 }
  block := some n

/-- A head keep-alive. -/
def keepAlive (w : Chain κ) (x : Node) (r : BlocksRequest) : Frame where
  h :=
    { v1 := r.v1
      head := w.pos b x.head
      lib := w.pos b x.lib
      thisBlock := none
      prevBlock := none
      fieldsAt := 0 }
  block := none

/-- The send rule. -/
def due (x : Node) (r : BlocksRequest) : Bool := x.cursor ≤ x.gate r && x.cursor < r.end

/-- One result, while there is credit. -/
def send (w : Chain κ) (x : Node) : Choice κ → Option (Node × Frame)
  | .result => x.req.bind fun r =>
      if due : x.credit.val ≠ 0 ∧ x.due r then
        some
          ({ x with
              credit := ⟨x.credit.val - 1, by omega⟩
              cursor := ⟨x.cursor.val + 1, by
                have := due.2
                simp only [Node.due, Bool.and_eq_true, decide_eq_true_eq] at this
                omega⟩ },
            x.result b w r x.cursor)
      else none
  | .keepAlive => x.req.bind fun r =>
      if x.role = .live && x.legacy && !x.due r && x.credit.val ≠ 0 then
        some ({ x with credit := ⟨x.credit.val - 1, by omega⟩ }, x.keepAlive b w r)
      else none
  | .advance _ _ | .fork _ _ | .tip _ _ => none

/-- The nodes of one chain as upstreams. -/
def upstream [DecidableEq κ] : Upstream (Chain κ) Node (Choice κ) where
  role := Node.role
  credit := Node.credit
  joins := joins
  evolve := Chain.evolve
  follow := follow
  onRequest := onRequest b
  onAck := onAck
  send := send b
  credit_joins := by
    intro w x joined
    simp only [joins, Bool.and_eq_true, decide_eq_true_eq] at joined
    exact joined.1.1.1.2
  credit_follow := by
    intro w a x
    cases a <;> simp only [follow] <;> split <;> rfl
  credit_onRequest := fun _ _ _ => rfl
  credit_onAck := fun _ _ => rfl
  credit_send := by
    intro w x a x' f sent
    cases a with
    | result =>
        obtain ⟨r, -, sent⟩ := Option.bind_eq_some_iff.mp sent
        split at sent
        · cases sent
          simp only
          omega
        · cases sent
    | keepAlive =>
        obtain ⟨r, -, sent⟩ := Option.bind_eq_some_iff.mp sent
        split at sent
        · rename_i rule
          cases sent
          simp only [Bool.and_eq_true, decide_eq_true_eq] at rule ⊢
          omega
        · cases sent
    | advance | fork | tip => cases sent

/-! ## What a node does -/

theorem startFor_of_le {w : Chain κ} {x : Node} {r : BlocksRequest}
    (unmoved : ∀ p ∈ r.havePositions, r.start ≤ p.num) : r.start ≤ x.startFor b w r := by
  have same : r.havePositions.foldl (lowered b w x) r.start = r.start := by
    generalize r.havePositions = positions at unmoved
    induction positions with
    | nil => rfl
    | cons p positions ih =>
        have above : ¬p.num < r.start := not_lt.mpr (unmoved p (by simp))
        rw [List.foldl_cons, lowered, if_neg (by simp [above])]
        exact ih fun q member => unmoved q (by simp [member])
  simp only [startFor, same]
  cases x.role with
  | live => exact le_max_left _ _
  | frozen => exact le_rfl

theorem first_le_startFor {w : Chain κ} {x : Node} {r : BlocksRequest} (live : x.role = .live) :
    x.first ≤ x.startFor b w r := by
  simp only [startFor, live]
  exact le_max_right _ _

/-- Positions only move the start down, to one of them. -/
theorem lowered_cases (w : Chain κ) (x : Node) (start : Fin (2 ^ 32))
    (positions : List BlockPos) :
    positions.foldl (lowered b w x) start = start ∨
      ∃ p ∈ positions, positions.foldl (lowered b w x) start = p.num ∧ p.num < start := by
  induction positions generalizing start with
  | nil => exact .inl rfl
  | cons p positions ih =>
      have step : lowered b w x start p = start ∨
          lowered b w x start p = p.num ∧ p.num < start := by
        unfold lowered
        split
        · rename_i moved
          simp only [Bool.and_eq_true, decide_eq_true_eq] at moved
          exact .inr ⟨rfl, moved.1⟩
        · exact .inl rfl
      rw [List.foldl_cons]
      rcases ih (lowered b w x start p) with same | ⟨q, member, same, below⟩
      · rw [same]
        exact step.imp_right fun moved => ⟨p, by simp, moved⟩
      · refine .inr ⟨q, by simp [member], same, below.trans_le ?_⟩
        exact step.elim le_of_eq fun moved => (moved.1.trans_lt moved.2).le

/-- Where a node starts: at the start, at a position below it, or, if it is live,
at its first block. -/
theorem startFor_cases (w : Chain κ) (x : Node) (r : BlocksRequest) :
    x.startFor b w r = r.start ∨ (x.role = .live ∧ x.startFor b w r = x.first) ∨
      ∃ p ∈ r.havePositions, x.startFor b w r = p.num ∧ p.num < r.start := by
  have moved := lowered_cases b w x r.start r.havePositions
  unfold startFor
  cases role : x.role with
  | frozen => exact moved.imp_right .inr
  | live =>
      simp only
      rcases max_choice (r.havePositions.foldl (lowered b w x) r.start) x.first with same | same
      · rw [same]
        exact moved.imp_right .inr
      · rw [same]
        exact .inr (.inl ⟨trivial, rfl⟩)

theorem startFor_le (w : Chain κ) (x : Node) (r : BlocksRequest) :
    x.startFor b w r ≤ r.start ∨ x.role = .live ∧ x.startFor b w r ≤ x.first := by
  rcases startFor_cases b w x r with same | ⟨live, same⟩ | ⟨p, -, same, below⟩
  · exact .inl same.le
  · exact .inr ⟨live, same.le⟩
  · exact .inl (same.trans_lt below).le

/-- A node that starts below the start was given a position at or below that. -/
theorem exists_position (w : Chain κ) {x : Node} {r : BlocksRequest}
    (below : x.startFor b w r < r.start) : ∃ p ∈ r.havePositions, p.num ≤ x.startFor b w r := by
  have low : r.havePositions.foldl (lowered b w x) r.start ≤ x.startFor b w r := by
    unfold startFor
    cases x.role with
    | live => exact le_max_left _ _
    | frozen => exact le_rfl
  rcases lowered_cases b w x r.start r.havePositions with same | ⟨p, member, same, -⟩
  · exact absurd (same ▸ low) (not_le.mpr below)
  · exact ⟨p, member, same ▸ low⟩

theorem startFor_frozen {w : Chain κ} {x : Node} {r : BlocksRequest} (frozen : x.role = .frozen)
    (noPositions : r.havePositions = []) : x.startFor b w r = r.start := by
  simp [startFor, frozen, noPositions]

theorem gate_le (x : Node) (r : BlocksRequest) : x.gate r ≤ x.head := by
  unfold gate
  split
  · exact x.ordered
  · exact le_rfl

/-- What a node does when it sends. -/
theorem send_cases {w : Chain κ} {x x' : Node} {a : Choice κ} {f : Frame}
    (sent : x.send b w a = some (x', f)) :
    ∃ r, x.req = some r ∧ x'.role = x.role ∧ x'.legacy = x.legacy ∧ x'.first = x.first ∧
      x'.head = x.head ∧ x'.lib = x.lib ∧ x'.req = x.req ∧
      (x.due r = true ∧ x'.cursor.val = x.cursor.val + 1 ∧ f = x.result b w r x.cursor ∨
        x.role = .live ∧ x.legacy = true ∧ x.due r = false ∧ x'.cursor = x.cursor ∧
          f = x.keepAlive b w r) := by
  cases a with
  | result =>
      obtain ⟨r, request, sent⟩ := Option.bind_eq_some_iff.mp sent
      split at sent
      · rename_i due
        cases sent
        exact ⟨r, request, rfl, rfl, rfl, rfl, rfl, rfl, .inl ⟨due.2, rfl, rfl⟩⟩
      · cases sent
  | keepAlive =>
      obtain ⟨r, request, sent⟩ := Option.bind_eq_some_iff.mp sent
      split at sent
      · rename_i rule
        cases sent
        simp only [Bool.and_eq_true, decide_eq_true_eq, Bool.not_eq_true'] at rule
        exact ⟨r, request, rfl, rfl, rfl, rfl, rfl, rfl,
          .inr ⟨rule.1.1.1, rule.1.1.2, rule.1.2, rfl, rfl⟩⟩
      · cases sent
  | advance | fork | tip => cases sent

/-- A node that is not of the legacy family sends only blocks. -/
theorem send_modern {w : Chain κ} {x x' : Node} {a : Choice κ} {f : Frame}
    (sent : x.send b w a = some (x', f)) (modern : x.legacy = true → x.role ≠ .live) :
    ∃ r, x.req = some r ∧ x.due r = true ∧ x'.cursor.val = x.cursor.val + 1 ∧
      f = x.result b w r x.cursor := by
  obtain ⟨r, request, -, -, -, -, -, -, block | ⟨live, legacy, -⟩⟩ := send_cases b sent
  · exact ⟨r, request, block⟩
  · exact absurd live (modern legacy)

/-- How a node follows the chain: its LIB does not go back, and only a fork above
it moves the cursor. -/
theorem follow_cases (w : Chain κ) (a : Choice κ) (x : Node) :
    (x.follow w a).role = x.role ∧ (x.follow w a).legacy = x.legacy ∧
      (x.follow w a).first = x.first ∧ (x.follow w a).req = x.req ∧
      x.lib ≤ (x.follow w a).lib ∧
      ((x.follow w a).cursor = x.cursor ∨
        x.role = .live ∧ x.lib < (x.follow w a).cursor ∧ ∃ branch,
          a = .fork (x.follow w a).cursor branch ∧ (x.follow w a).cursor < x.cursor) := by
  cases a with
  | fork start branch =>
      simp only [follow]
      split
      · rename_i rule
        simp only [Bool.and_eq_true, decide_eq_true_eq] at rule
        exact ⟨rfl, rfl, rfl, rfl, le_rfl, .inr ⟨rule.1.1, rule.2, branch, rfl, rule.1.2⟩⟩
      · exact ⟨rfl, rfl, rfl, rfl, le_rfl, .inl rfl⟩
  | tip head lib =>
      simp only [follow]
      split
      · rename_i grows
        exact ⟨rfl, rfl, rfl, rfl, grows.2.2.2.1, .inl rfl⟩
      · exact ⟨rfl, rfl, rfl, rfl, le_rfl, .inl rfl⟩
  | advance | result | keepAlive => exact ⟨rfl, rfl, rfl, rfl, le_rfl, .inl rfl⟩

end Node

/-! ## A sample chain -/

/-- Branches told apart by the first byte of their ids. -/
def sampleBranches : Branches UInt8 where
  id branch n := (Vector.replicate 32 n.val.toUInt8).set 0 branch
  distinct := by
    intro n branch other same
    have first := congrArg (fun id : Checksum => id[0]) same
    simpa using first

/-- The chain with the given head and LIB, before any fork. -/
def sampleChain (head lib : Fin (2 ^ 32)) (ordered : lib ≤ head)
    (shallow : head.val ≤ lib.val + maxReversible) : Chain UInt8 where
  head := head
  lib := lib
  genesis := 0
  forks := []
  ordered := ordered
  shallow := shallow
  fresh := by simp

/-- A new connection to a live node that has all blocks up to the given
head. -/
def sampleNode (legacy : Bool) (head lib : Fin (2 ^ 32)) (ordered : lib ≤ head)
    (shallow : head.val ≤ lib.val + maxReversible) : Node where
  role := .live
  legacy := legacy
  first := 0
  head := head
  lib := lib
  req := none
  cursor := 0
  credit := 0
  ordered := ordered
  rooted := Nat.zero_le _
  shallow := shallow

end FleetRouter.Net
