import Mathlib.Data.List.Chain
import FleetRouter.Net.Reuse

/-!
# Streams over one chain

The session on nodes of one chain, with the client's own books: its next block,
the blocks it was given for its current request, and the lowest fork since that
request arrived.  What is in flight on a link follows the node's cursor block by
block, so the router's cursor and the client's next block stay the same.
-/

namespace FleetRouter.Net

open Ship Session Transition

variable {κ : Type}

/-! ## The client's books -/

structure Reader where
  next : Nat
  /-- The blocks given for the current request, ascending. -/
  delivered : List BlockPos
  /-- The lowest fork since the request arrived. -/
  forkLow : Option (Fin (2 ^ 32))
  deriving DecidableEq

namespace Reader

def empty : Reader where
  next := 0
  delivered := []
  forkLow := none

def request (r : BlocksRequest) : Reader where
  next := r.start.val
  delivered := []
  forkLow := none

/-- The client is given a result. -/
def deliver (x : Reader) (f : Frame) : Reader :=
  match f.h.thisBlock with
  | some p =>
      { x with
        next := p.num.val + 1
        delivered := x.delivered.filter (fun q => q.num < p.num) ++ [p] }
  | none =>
      match f.block with
      | some n => { x with next := n.val + 1 }
      | none => x

def fork (x : Reader) (start : Fin (2 ^ 32)) : Reader :=
  { x with forkLow := some (x.forkLow.elim start (min start)) }

/-- A fork at or below block `n` since the request arrived. -/
def forked (x : Reader) (n : Nat) : Prop := ∃ start ∈ x.forkLow, start.val ≤ n

theorem forked_fork {x : Reader} {start : Fin (2 ^ 32)} {n : Nat} :
    (x.fork start).forked n ↔ start.val ≤ n ∨ x.forked n := by
  cases low : x.forkLow with
  | none => simp [fork, forked, low]
  | some other =>
      simp only [fork, forked, low, Option.elim_some, Option.mem_def, Option.some.injEq,
        exists_eq_left']
      rcases le_total start other with le | le
      · rw [min_eq_left le]
        omega
      · rw [min_eq_right le]
        omega

@[simp] theorem deliver_forkLow (x : Reader) (f : Frame) : (x.deliver f).forkLow = x.forkLow := by
  unfold deliver
  split
  · rfl
  · split <;> rfl

end Reader

structure Stream (κ : Type) where
  net : System (Chain κ) Node
  reader : Reader

namespace Stream

/-- What a step of the session puts in the client's books. -/
def observe (s : System (Chain κ) Node) (x : Reader) : NetEvent Node (Choice κ) → Reader
  | .takeRequest _ =>
      match s.toRouter with
      | .request r :: _ => .request r
      | _ => x
  | .read answers =>
      match s.link.bind fun l => l.inn.head?.map fun packet => (l, packet) with
      | some (l, packet) =>
          match onBlockResult s.c l.st answers packet.h with
          | .forwarded _ _ _ => x.deliver packet.toFrame
          | _ => x
      | none => x
  | .evolve (.fork start _) => x.fork start
  | _ => x

def step [DecidableEq κ] (b : Branches κ) (s : Stream κ) (e : NetEvent Node (Choice κ)) :
    Option (Stream κ) :=
  (s.net.step (Node.upstream b) e).map fun net => { net, reader := observe s.net s.reader e }

def machine [DecidableEq κ] (b : Branches κ) (start : Chain κ) :
    Machine (Stream κ) (NetEvent Node (Choice κ)) where
  init s := s = { net := .fresh start, reader := .empty }
  step := step b

/-- Requests without `have_positions`, to nodes that are not of the legacy
family. -/
def plain (_ : Stream κ) : NetEvent Node (Choice κ) → Prop
  | .clientSend (.request r) => r.havePositions = []
  | .connect _ x => x.legacy = false
  | _ => True

end Stream

/-! ## What is in flight -/

/-- The block a result of an honest node stands for. -/
def Packet.num (packet : Packet) : Nat := packet.block.elim 0 Fin.val

/-- A result as a node that is not of the legacy family sends it for the link's
request: only archives leave out the id. -/
structure Packet.Plain (role : Role) (lr : LinkReq) (packet : Packet) : Prop where
  counted : packet.block.isSome
  below : packet.num < lr.end.val
  gated : packet.num ≤ (frameGate packet.h lr).val
  block : ∀ p ∈ packet.h.thisBlock, p.num.val = packet.num
  named : packet.h.thisBlock = none → role = .frozen

/-- The blocks in flight, and the one the node sends next. -/
def Socket.path (l : Socket Node) : List Nat :=
  l.inn.map Packet.num ++ [l.node.cursor.val]

/-- From one block to the next: a live node goes on or goes back, an archive goes
on. -/
def goesOn (role : Role) (m n : Nat) : Prop :=
  match role with
  | .live => n ≤ m + 1
  | .frozen => n = m + 1

theorem goesOn.le {role : Role} {m n : Nat} (on : goesOn role m n) : n ≤ m + 1 := by
  cases role with
  | live => exact on
  | frozen => exact Nat.le_of_eq on

theorem goesOn_succ (role : Role) (m : Nat) : goesOn role m (m + 1) := by
  cases role with
  | live => exact le_rfl
  | frozen => rfl

/-- The node has the link's request, and sends from the client's next block
`k`. -/
structure Socket.Streaming (k : Nat) (lr : LinkReq) (l : Socket Node) : Prop where
  request : ∃ r ∈ l.node.req, r.end = lr.end ∧ r.irreversibleOnly = lr.irreversibleOnly
  known : l.node.role = .live → l.node.first ≤ l.node.cursor
  sent : ∀ packet ∈ l.inn, packet.Plain l.node.role lr
  path : l.path.IsChain (goesOn l.node.role)
  /-- A live node may start above the client's next block, at its first one. -/
  start : ∀ n ∈ l.path.head?, n ≤ k ∨
    l.node.role = .live ∧ l.st.firstResultPending = true ∧ n ≤ l.node.first.val
  archive : l.node.role = .frozen →
    l.path.head? = some k ∧ ∃ e, l.st.upCursor = .exact e ∧ e.val = k

/-- The last request on its way asks for the stream from the client's next
block. -/
structure Socket.Asks (k : Nat) (lr : LinkReq) (r : BlocksRequest) (l : Socket Node) : Prop where
  start : r.start.val = k
  «end» : r.end = lr.end
  irreversibleOnly : r.irreversibleOnly = lr.irreversibleOnly
  pending : l.st.firstResultPending = true
  archive : l.node.role = .frozen → r.havePositions = [] ∧ l.st.upCursor = .exact r.start

/-- A link that serves the client's current request. -/
structure Socket.Steady (k : Nat) (l : Socket Node) : Prop where
  waits : ∀ lr ∈ l.st.req, ∀ front r back, l.out = front ++ .request r :: back →
    requests back = 0 → l.Asks k lr r
  arrived : ∀ lr ∈ l.st.req, requests l.out = 0 → l.Streaming k lr

namespace Socket

variable {k : Nat} {lr : LinkReq} {l : Socket Node}

theorem path_of_inn {packet : Packet} {inn : List Packet} (first : l.inn = packet :: inn)
    (st : LinkState) : l.path = packet.num :: path { l with st, inn } := by
  simp [path, first]

theorem path_send (l : Socket Node) (f : Packet) (node : Node) (num : f.num = l.node.cursor.val) :
    path { l with node, inn := l.inn ++ [f] } = l.path ++ [node.cursor.val] := by
  simp [path, num]

/-- The router has read the first result, which stood for block `n`, and goes on
at `k'`. -/
theorem Streaming.read (streaming : l.Streaming k lr) {packet : Packet} {inn : List Packet}
    (first : l.inn = packet :: inn) {st : LinkState} {k' : Nat} (le : packet.num + 1 ≤ k')
    (archive : l.node.role = .frozen →
      packet.num + 1 = k' ∧ ∃ e, st.upCursor = .exact e ∧ e.val = k') :
    Streaming k' lr { l with st, inn } := by
  have path := streaming.path
  rw [path_of_inn first st, List.isChain_cons] at path
  refine ⟨streaming.request, streaming.known, ?_, path.2, ?_, ?_⟩
  · intro other member
    exact streaming.sent other (by simp [first, member])
  · intro n isFirst
    exact .inl ((path.1 n isFirst).le.trans le)
  · intro frozen
    obtain ⟨same, cursor⟩ := archive frozen
    refine ⟨?_, cursor⟩
    obtain ⟨n, isFirst⟩ : ∃ n, (Socket.path { l with st, inn }).head? = some n := by
      simp [Socket.path, List.head?_append]
    have on := path.1 n isFirst
    rw [frozen] at on
    rw [isFirst, ← same]
    exact congrArg some on

/-- A result of a node that is not of the legacy family. -/
theorem Streaming.plain (streaming : l.Streaming k lr) {b : Branches κ} {w : Chain κ}
    {r : BlocksRequest} (request : r ∈ l.node.req) (due : l.node.due r = true) :
    Packet.Plain l.node.role lr
      { l.node.result b w r l.node.cursor with gen := l.taken } := by
  obtain ⟨r', isRequest, sameEnd, sameKind⟩ := streaming.request
  cases Option.mem_unique request isRequest
  simp only [Node.due, Bool.and_eq_true, decide_eq_true_eq] at due
  refine ⟨rfl, by rw [← sameEnd]; exact due.2, ?_, ?_, ?_⟩
  · have same : frameGate (l.node.result b w r l.node.cursor).h lr = l.node.gate r := by
      simp [frameGate, Node.result, Node.gate, Chain.pos, sameKind]
    rw [same]
    exact due.1
  · intro p this
    simp only [Node.result, Option.mem_def, Option.ite_none_right_eq_some,
      Option.some.injEq] at this
    rw [← this.2]
    rfl
  · intro idless
    cases role : l.node.role with
    | frozen => rfl
    | live =>
        have knows : l.node.knows l.node.cursor = true := by
          simp only [Node.knows, Bool.and_eq_true, decide_eq_true_eq]
          exact ⟨streaming.known role, due.1.trans (l.node.gate_le r)⟩
        simp [Node.result, knows] at idless

/-- The next result continues the path. -/
theorem Streaming.send {b : Branches κ} (streaming : l.Streaming k lr)
    (modern : l.node.legacy = false) {w : Chain κ} {choice : Choice κ} {node : Node} {f : Frame}
    (sent : l.node.send b w choice = some (node, f)) :
    Streaming k lr { l with node, inn := l.inn ++ [{ f with gen := l.taken }] } := by
  obtain ⟨_, -, role, -, sameFirst, -, -, req, -⟩ := Node.send_cases b sent
  obtain ⟨r, request, due, cursor, rfl⟩ := Node.send_modern b sent (by simp [modern])
  have path := path_send l
    { l.node.result b w r l.node.cursor with gen := l.taken } node rfl
  have same : (l.path ++ [node.cursor.val]).head? = l.path.head? :=
    List.head?_append_of_ne_nil _ (by simp [Socket.path])
  refine ⟨?_, ?_, ?_, ?_, ?_, ?_⟩
  · simpa only [req] using streaming.request
  · intro live
    simp only at live ⊢
    rw [role] at live
    have := streaming.known live
    rw [sameFirst]
    omega
  · intro packet member
    simp only [role]
    rcases List.mem_append.mp member with old | new
    · exact streaming.sent packet old
    · rw [List.mem_singleton.mp new]
      exact streaming.plain request due
  · rw [path, List.isChain_append]
    refine ⟨by simpa only [role] using streaming.path, List.isChain_singleton _, ?_⟩
    intro m isLast n isNext
    simp only [Socket.path, List.getLast?_append, List.getLast?_singleton, Option.some_or,
      Option.mem_def, Option.some.injEq] at isLast
    cases isLast
    cases isNext
    rw [cursor]
    exact goesOn_succ _ _
  · simpa only [path, same, role, sameFirst] using streaming.start
  · simpa only [path, same, role] using streaming.archive

/-- A live node may go back to a block it knows. -/
theorem Streaming.rewind (streaming : l.Streaming k lr) {node : Node}
    (role : node.role = l.node.role) (first : node.first = l.node.first)
    (req : node.req = l.node.req) (live : l.node.role = .live) (known : node.first ≤ node.cursor)
    (le : node.cursor ≤ l.node.cursor) : Streaming k lr { l with node } := by
  have path := streaming.path
  rw [Socket.path, List.isChain_append] at path
  refine ⟨by simpa only [req] using streaming.request, fun _ => known,
    by simpa only [role] using streaming.sent, ?_, ?_, ?_⟩
  · rw [Socket.path, List.isChain_append]
    refine ⟨by simpa only [role] using path.1, List.isChain_singleton _, ?_⟩
    intro m isLast n isNext
    cases isNext
    have on := path.2.2 m isLast l.node.cursor.val rfl
    simp only [role, live] at on ⊢
    exact le_trans le on
  · intro n isFirst
    simp only [role, first]
    cases inn : l.inn with
    | nil =>
        simp only [Socket.path, inn, List.map_nil, List.nil_append, List.head?_cons,
          Option.mem_def, Option.some.injEq] at isFirst
        have old := streaming.start l.node.cursor.val (by simp [Socket.path, inn])
        rw [← isFirst]
        exact old.imp (le_trans le) fun leap => ⟨leap.1, leap.2.1, le_trans le leap.2.2⟩
    | cons packet inn' =>
        refine streaming.start n ?_
        simpa [Socket.path, inn] using isFirst
  · intro frozen
    simp only [role, live] at frozen
    cases frozen

theorem Streaming.follow (streaming : l.Streaming k lr) (w : Chain κ) (a : Choice κ) :
    Streaming k lr { l with node := l.node.follow w a } := by
  obtain ⟨role, -, first, req, -, same | ⟨live, above, -, -, back⟩⟩ := Node.follow_cases w a l.node
  · have path : Socket.path { l with node := l.node.follow w a } = l.path := by
      simp [Socket.path, same]
    refine ⟨by simpa only [req] using streaming.request, ?_,
      by simpa only [role] using streaming.sent, ?_, ?_, ?_⟩
    · simpa only [role, first, same] using streaming.known
    · simpa only [path, role] using streaming.path
    · simpa only [path, role, first] using streaming.start
    · simpa only [path, role] using streaming.archive
  · refine streaming.rewind role first req live ?_ back.le
    have := l.node.rooted
    rw [first]
    omega

/-- The node takes the request for the stream. -/
theorem Asks.arrive {b : Branches κ} {r : BlocksRequest} (asks : l.Asks k lr r)
    (empty : l.inn = []) (w : Chain κ) (out : List Ask) (taken : Nat) :
    Streaming k lr { l with node := l.node.onRequest b w r, out, taken } := by
  have path : Socket.path { l with node := l.node.onRequest b w r, out, taken } =
      [(l.node.startFor b w r).val] := by
    simp [Socket.path, empty, Node.onRequest]
  refine ⟨⟨r, rfl, asks.end, asks.irreversibleOnly⟩, ?_, by simp [empty], ?_, ?_, ?_⟩
  · intro live
    exact Node.first_le_startFor b live
  · rw [path]
    exact List.isChain_singleton _
  · rw [path]
    rintro n ⟨⟩
    rcases Node.startFor_le b w l.node r with low | ⟨live, low⟩
    · exact .inl (asks.start ▸ low)
    · exact .inr ⟨live, asks.pending, low⟩
  · intro frozen
    have frozen : l.node.role = .frozen := frozen
    obtain ⟨noPositions, cursor⟩ := asks.archive frozen
    rw [path, Node.startFor_frozen b frozen noPositions, asks.start]
    exact ⟨rfl, r.start, cursor, asks.start⟩

/-- A request built from the mirror asks for the stream from its cursor. -/
theorem Steady.sendRequest (role : l.st.role = l.node.role) {c : ClientSide}
    {creq : BlocksRequest} (start : requestStart c creq = c.cursor) (pre «end» : Fin (2 ^ 32))
    (purpose : Purpose) (target : Target) :
    (l.sendRequest c creq pre «end» purpose target).Steady c.cursor.val := by
  constructor
  · rintro lr ⟨⟩ front r back split last
    obtain rfl := eq_of_last_request split last
    refine ⟨congrArg Fin.val start, rfl, rfl, rfl, ?_⟩
    intro frozen
    have frozen : l.st.role = .frozen := role.trans frozen
    simp [Socket.sendRequest, buildRequest, positionsFor, frozen]
  · intro lr _ none
    simp [Socket.sendRequest] at none

theorem Steady.sendAck (steady : l.Steady k) (n : Fin (2 ^ 32)) : (l.sendAck n).Steady k := by
  unfold Socket.sendAck
  split
  · constructor
    · intro lr request front r back split last
      obtain ⟨rest, inside, same⟩ := split_concat_ack split
      obtain ⟨start, sameEnd, kind, pending, archive⟩ :=
        steady.waits lr request front r rest inside (same.symm.trans last)
      exact ⟨start, sameEnd, kind, pending, archive⟩
    · intro lr request none
      obtain ⟨request, known, sent, path, start, archive⟩ :=
        steady.arrived lr request (by simpa using none)
      exact ⟨request, known, sent, path, start, archive⟩
  · exact steady

theorem Steady.nodeTake {b : Branches κ} [DecidableEq κ] (steady : l.Steady k)
    (empty : requests l.out ≠ 0 → l.inn = []) {w : Chain κ} {l' : Socket Node}
    (taken : l.nodeTake (Node.upstream b) w = some l') : l'.Steady k := by
  rcases Socket.nodeTake_cases taken with ⟨r, out, split, rfl⟩ | ⟨n, out, split, rfl⟩
  · constructor
    · intro lr request front q back inside last
      obtain ⟨start, sameEnd, kind, pending, archive⟩ :=
        steady.waits lr request (.request r :: front) q back
          (split.trans (congrArg _ inside)) last
      exact ⟨start, sameEnd, kind, pending, archive⟩
    · intro lr request last
      exact (steady.waits lr request [] r out split last).arrive (empty (by simp [split])) w _ _
  · constructor
    · intro lr request front q back inside last
      obtain ⟨start, sameEnd, kind, pending, archive⟩ :=
        steady.waits lr request (.ack n :: front) q back (split.trans (congrArg _ inside)) last
      exact ⟨start, sameEnd, kind, pending, archive⟩
    · intro lr request last
      obtain ⟨request, known, sent, path, start, archive⟩ :=
        steady.arrived lr request (by simpa [split] using last)
      exact ⟨request, known, sent, path, start, archive⟩

theorem Steady.nodeSend {b : Branches κ} [DecidableEq κ] (steady : l.Steady k)
    (none : requests l.out = 0) (modern : l.node.legacy = false) {w : Chain κ}
    {choice : Choice κ} {l' : Socket Node}
    (sent : l.nodeSend (Node.upstream b) w choice = some l') : l'.Steady k := by
  obtain ⟨⟨node, f⟩, sends, rfl⟩ := Option.map_eq_some_iff.mp sent
  constructor
  · intro lr _ front r back split
    simp only at split
    simp [split] at none
  · intro lr request _
    exact (steady.arrived lr request none).send modern sends

theorem Steady.follow (steady : l.Steady k) (w : Chain κ) (a : Choice κ) :
    Steady k { l with node := l.node.follow w a } := by
  have role := (Node.follow_cases w a l.node).1
  constructor
  · intro lr request front r back split last
    obtain ⟨start, sameEnd, kind, pending, archive⟩ :=
      steady.waits lr request front r back split last
    exact ⟨start, sameEnd, kind, pending, by simpa only [role] using archive⟩
  · intro lr request none
    exact (steady.arrived lr request none).follow w a

end Socket

end FleetRouter.Net
