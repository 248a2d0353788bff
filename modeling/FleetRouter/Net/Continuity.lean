import FleetRouter.Net.Stream

/-!
# Stream continuity

Across requests, forks, handoffs and failovers the router's cursor is the
client's next block, every request upstream starts there, and no forwarded block
is above it, unless a live node starts a leg at its first block.
-/

namespace FleetRouter.Net

open Ship Session Transition

variable {κ : Type}

/-- The router can place every result of a stream. -/
theorem Socket.Streaming.classified {k : Nat} {lr : LinkReq} {l : Socket Node}
    (streaming : l.Streaming k lr) {packet : Packet} {inn : List Packet}
    (first : l.inn = packet :: inn) :
    ∃ n, packet.block = some n ∧ n.val = packet.num ∧
      (classifyResult packet.h l.st.upCursor lr).n = some n := by
  have plain := streaming.sent packet (by simp [first])
  obtain ⟨n, isBlock⟩ := Option.isSome_iff_exists.mp plain.counted
  have num : n.val = packet.num := by simp [Packet.num, isBlock]
  refine ⟨n, isBlock, num, ?_⟩
  cases this : packet.h.thisBlock with
  | some p =>
      rw [classifyResult_some this]
      exact congrArg some (Fin.ext ((plain.block p this).trans num.symm))
  | none =>
      obtain ⟨isFirst, e, cursor, isNext⟩ := streaming.archive (plain.named this)
      have same : e = n := by
        rw [path_of_inn first l.st] at isFirst
        simp only [List.head?_cons, Option.some.injEq] at isFirst
        exact Fin.ext (by omega)
      have rule : n ≤ frameGate packet.h lr ∧ n < lr.end :=
        ⟨num.le.trans plain.gated, num.trans_lt plain.below⟩
      subst same
      simp only [frameGate] at rule
      simp [classifyResult, this, cursor, rule.1, rule.2]

theorem Reader.deliver_next {role : Role} {lr : LinkReq} {packet : Packet}
    (plain : packet.Plain role lr) (x : Reader) :
    (x.deliver packet.toFrame).next = packet.num + 1 := by
  unfold deliver
  split
  · rename_i p this
    simp only [plain.block p this]
  · split
    · rename_i n isBlock
      simp [Packet.num, isBlock]
    · rename_i noBlock
      have := plain.counted
      simp [noBlock] at this

/-- The link after the router has read its first result. -/
theorem Socket.Steady.read {k k' : Nat} {lr : LinkReq} {l : Socket Node} (steady : l.Steady k)
    (none : requests l.out = 0) (request : l.st.req = some lr) {packet : Packet}
    {inn : List Packet} (first : l.inn = packet :: inn) (st : LinkState)
    (sameRequest : st.req = l.st.req) (le : packet.num + 1 ≤ k')
    (archive : l.node.role = .frozen →
      packet.num + 1 = k' ∧ ∃ e, st.upCursor = .exact e ∧ e.val = k') :
    Socket.Steady k' { l with st, inn } := by
  constructor
  · intro lr _ front r back split
    simp only at split
    simp [split] at none
  · intro lr' isRequest _
    cases (sameRequest.trans request).symm.trans isRequest
    exact (steady.arrived lr request none).read first le archive

namespace Stream

/-- The mirror, the client's books and the link agree. -/
structure Steady (s : Stream κ) : Prop where
  asked : ∀ r, .request r ∈ s.net.toRouter → r.havePositions = []
  unhinted : ∀ r ∈ s.net.c.req, r.havePositions = []
  fresh : ∀ r ∈ s.net.c.req, s.net.c.deliveredForRequest = 0 → s.net.c.cursor = r.start
  cursor : s.net.c.cursor.val = s.reader.next
  modern : ∀ l ∈ s.net.link, l.node.legacy = false
  link : ∀ l ∈ s.net.link, l.serving = true → l.Steady s.net.c.cursor.val

namespace Steady

variable {s s' : Stream κ}

theorem requestStart (inv : s.Steady) {creq : BlocksRequest} (request : creq ∈ s.net.c.req) :
    Session.requestStart s.net.c creq = s.net.c.cursor := by
  unfold Session.requestStart ClientSide.fresh
  split
  · rename_i fresh
    exact (inv.fresh creq request (by simpa using fresh)).symm
  · rfl

/-- A step that leaves the cursor and the request alone. -/
theorem kept (inv : s.Steady) {net : System (Chain κ) Node} {reader : Reader}
    (asked : ∀ r, .request r ∈ net.toRouter → r.havePositions = [])
    (request : net.c.req = s.net.c.req) (cursor : net.c.cursor = s.net.c.cursor)
    (delivered : net.c.deliveredForRequest = s.net.c.deliveredForRequest)
    (next : reader.next = s.reader.next)
    (modern : ∀ l ∈ net.link, l.node.legacy = false)
    (link : ∀ l ∈ net.link, l.serving = true → l.Steady s.net.c.cursor.val) :
    Steady { net, reader } where
  asked := asked
  unhinted := by rw [request]; exact inv.unhinted
  fresh := by rw [request, cursor, delivered]; exact inv.fresh
  cursor := by rw [cursor, next]; exact inv.cursor
  modern := modern
  link := by rw [cursor]; exact link

theorem observe_read {net : System (Chain κ) Node} {answers : FleetAnswers} {l : Socket Node}
    {packet : Packet} {inn : List Packet} (before : net.link = some l)
    (first : l.inn = packet :: inn) (x : Reader) :
    observe net x (.read answers) =
      match onBlockResult net.c l.st answers packet.h with
      | .forwarded _ _ _ => x.deliver packet.toFrame
      | _ => x := by
  cases handled : onBlockResult net.c l.st answers packet.h <;>
    simp [observe, before, first, handled]

/-- The router reads a result from a link that serves the client: it stands for block
`n`. -/
structure Reads (s : Stream κ) (l : Socket Node) (packet : Packet) (lr : LinkReq)
    (n : Fin (2 ^ 32)) : Prop where
  none : requests l.out = 0
  served : l.serving = true
  current : s.net.c.req.isSome
  request : l.st.req = some lr
  streaming : l.Streaming s.net.c.cursor.val lr
  plain : packet.Plain l.node.role lr
  block : packet.block = some n
  num : n.val = packet.num
  counted : (classifyResult packet.h l.st.upCursor lr).n = some n
  next : (nextBlock n).val = packet.num + 1

theorem reads [DecidableEq κ] {b : Branches κ} (inv : s.Steady)
    (balanced : s.net.Balanced (Node.upstream b)) {l : Socket Node} {packet : Packet}
    {inn : List Packet} (before : s.net.link = some l) (first : l.inn = packet :: inn) :
    ∃ lr n, Reads s l packet lr n := by
  have ledger := balanced.link l before
  have some : l.inn ≠ [] := by simp [first]
  have none := ledger.no_requests some
  have served := ledger.serving some
  obtain ⟨current, linkSome, -⟩ := ledger.serves served
  obtain ⟨lr, request⟩ := Option.isSome_iff_exists.mp linkSome
  have streaming := (inv.link l before served).arrived lr request none
  have plain := streaming.sent packet (by simp [first])
  obtain ⟨n, block, num, counted⟩ := streaming.classified first
  have next : (nextBlock n).val = packet.num + 1 := by
    have := plain.below
    have := nextBlock_val n
    simp only [u32Max] at this
    omega
  exact ⟨lr, n, none, served, current, request, streaming, plain, block, num, counted, next⟩

namespace Reads

variable {l : Socket Node} {packet : Packet} {lr : LinkReq} {n : Fin (2 ^ 32)}
  {answers : FleetAnswers}

theorem not_ignored (reads : Reads s l packet lr n) :
    onBlockResult s.net.c l.st answers packet.h ≠ .ignored := by
  intro handled
  rcases onBlockResult_ignored handled with none | none
  · simpa [none] using reads.current
  · cases reads.request.symm.trans none

/-- A forwarded result moves the mirror behind its block. -/
theorem forwarded (reads : Reads s l packet lr n) {c : ClientSide} {st : LinkState} {fw : Forward}
    (handled : onBlockResult s.net.c l.st answers packet.h = .forwarded c st fw) :
    (∃ creq, judge s.net.c l.st creq lr packet.h answers.lacks answers.alternative = .forward fw) ∧
      fw.cls.n = some n ∧ fw.next = some (nextBlock n) ∧ c.cursor.val = packet.num + 1 ∧
      c = commitClient (headLibFor s.net.c.charge.1 l.st.role packet.h.head packet.h.lib
        answers.tip answers.patch).1 packet.h fw ∧
      st = commitLink l.st packet.h fw := by
  obtain ⟨creq, lr', -, linkRequest, judged, rfl, rfl⟩ := onBlockResult_forwarded handled
  cases reads.request.symm.trans linkRequest
  have cls := (judge_eq_forward judged).1
  have found : fw.cls.n = some n := cls ▸ reads.counted
  have moves : fw.next = some (nextBlock n) := by
    rw [forward_next cls, found]
    rfl
  exact ⟨⟨creq, judged⟩, found, moves, by simp [moves, reads.next], rfl, rfl⟩

end Reads

theorem onRead [DecidableEq κ] {b : Branches κ} (inv : s.Steady)
    (balanced : s.net.Balanced (Node.upstream b)) {answers : FleetAnswers}
    {net : System (Chain κ) Node} (read : s.net.onRead answers = some net) :
    Steady { net, reader := observe s.net s.reader (.read answers) } := by
  obtain ⟨l, packet, inn, before, first, outcome⟩ := System.onRead_cases read
  rw [observe_read before first]
  obtain ⟨lr, n, reads⟩ := inv.reads balanced before first
  have steady := inv.link l before reads.served
  rcases outcome with ⟨c, st, fw, handled, rfl⟩ | ⟨st, handled, rfl⟩ | ⟨reason, handled, rfl⟩ |
    ⟨handled, -⟩
  · simp only [handled]
    obtain ⟨-, -, moves, cursor, rfl, rfl⟩ := reads.forwarded handled
    refine ⟨inv.asked, ?_, ?_, ?_, ?_, ?_⟩
    · simpa [headLibFor, ClientSide.charge] using inv.unhinted
    · simp [headLibFor, ClientSide.charge]
    · rw [cursor, Reader.deliver_next reads.plain]
    · rintro _ ⟨⟩
      exact inv.modern l before
    · rintro _ ⟨⟩ _
      refine steady.read reads.none reads.request first _ rfl cursor.ge ?_
      intro _
      refine ⟨cursor.symm, nextBlock n, ?_, reads.next.trans cursor.symm⟩
      simp [commitLink, moves]
  · simp only [handled]
    obtain ⟨creq, lr', n', -, linkRequest, found, below, -, -, rfl⟩ :=
      onBlockResult_dropped handled
    cases reads.request.symm.trans linkRequest
    cases reads.counted.symm.trans found
    have num := reads.num
    have next := reads.next
    refine inv.kept inv.asked rfl rfl rfl rfl ?_ ?_
    · rintro _ ⟨⟩
      simpa [Socket.sendAck_node] using inv.modern l before
    · rintro _ ⟨⟩ _
      refine (steady.read reads.none reads.request first (dropDuplicate l.st _) rfl ?_ ?_).sendAck 1
      · omega
      · intro frozen
        have isFirst := (reads.streaming.archive frozen).1
        rw [Socket.path_of_inn first l.st] at isFirst
        simp only [List.head?_cons, Option.some.injEq] at isFirst
        omega
  · simp only [handled]
    exact inv.kept inv.asked rfl rfl rfl rfl (by simp) (by simp)
  · exact absurd handled reads.not_ignored

section
variable [DecidableEq κ] {b : Branches κ}

/-- The router knows the nodes of a plain stream. -/
theorem told (inv : s.Steady) (e : NetEvent Node (Choice κ)) : (Node.honest b).told s.net e := by
  have tells (l : Socket Node) (before : l ∈ s.net.link) (legacy : Bool) :
      (Node.honest b).tells l legacy := by
    intro old
    simp [Node.honest, inv.modern l before] at old
  cases e with
  | takeRequest placement =>
      cases placement with
      | drop => trivial
      | keep legacy => exact fun l before => tells l before legacy
      | reuse «end» target legacy => exact fun l before => tells l before legacy
  | sendRequest «end» purpose target legacy => exact fun l before => tells l before legacy
  | _ => trivial

theorem onTakeRequest (inv : s.Steady) (tracked : s.net.Tracked (Node.honest b))
    {placement : Placement} {net : System (Chain κ) Node}
    (taken : s.net.onTakeRequest placement = some net) :
    Steady { net, reader := observe s.net s.reader (.takeRequest placement) } := by
  obtain ⟨r, toRouter, link, split, placed, rfl⟩ := System.onTakeRequest_cases taken
  have links : (∀ l ∈ link, l.node.legacy = false) ∧
      ∀ l ∈ link, l.serving = true → l.Steady r.start.val := by
    rcases System.place_cases placed with ⟨rfl, rfl⟩ | ⟨l, legacy, before, rfl, -, rfl⟩ |
      ⟨l, «end», target, legacy, before, rfl, -, rfl⟩
    · exact ⟨by simp, by simp⟩
    · constructor
      · rintro _ ⟨⟩
        exact inv.modern l before
      · rintro _ ⟨⟩
        exact nofun
    · constructor
      · rintro _ ⟨⟩
        exact inv.modern l before
      · rintro _ ⟨⟩ _
        exact Socket.Steady.sendRequest
          (l := { l with st := { l.st with resumeFloor := none } }) (tracked l before).role
          (rfl : Session.requestStart (s.net.c.newRequest r).1 r = _) _ _ _ _
  simp only [observe, split]
  refine ⟨?_, ?_, ?_, rfl, links.1, links.2⟩
  · intro q member
    exact inv.asked q (by simp [split, member])
  · rintro _ ⟨⟩
    exact inv.asked r (by simp [split])
  · rintro _ ⟨⟩ _
    rfl

theorem onSendRequest (inv : s.Steady) (tracked : s.net.Tracked (Node.honest b))
    {«end» : Fin (2 ^ 32)} {purpose : Purpose} {target : Target} {legacy : Bool}
    {net : System (Chain κ) Node}
    (sent : s.net.onSendRequest «end» purpose target legacy = some net) :
    Steady { net, reader := s.reader } := by
  obtain ⟨creq, l, request, before, -, rfl⟩ := System.onSendRequest_cases sent
  refine inv.kept inv.asked rfl rfl rfl rfl ?_ ?_
  · rintro _ ⟨⟩
    exact inv.modern l before
  · rintro _ ⟨⟩ _
    exact Socket.Steady.sendRequest (tracked l before).role (inv.requestStart request) _ _ _ _

theorem step (inv : s.Steady) (balanced : s.net.Balanced (Node.upstream b))
    (tracked : s.net.Tracked (Node.honest b)) {e : NetEvent Node (Choice κ)}
    (isPlain : s.plain e) (steps : s.step b e = some s') : s'.Steady := by
  obtain ⟨net, step, rfl⟩ := Option.map_eq_some_iff.mp steps
  cases System.step_moves step with
  | clientSend m =>
      refine inv.kept ?_ rfl rfl rfl rfl inv.modern inv.link
      intro r member
      rcases List.mem_append.mp member with old | new
      · exact inv.asked r old
      · cases List.mem_singleton.mp new
        exact isPlain
  | clientReceive front => exact inv.kept inv.asked rfl rfl rfl rfl inv.modern inv.link
  | takeAck front =>
      refine inv.kept ?_ rfl rfl rfl rfl ?_ ?_
      · intro r member
        exact inv.asked r (by simp [front, member])
      · intro l placed
        obtain ⟨old, before, rfl⟩ := Option.map_eq_some_iff.mp placed
        simpa using inv.modern old before
      · intro l placed served
        obtain ⟨old, before, rfl⟩ := Option.map_eq_some_iff.mp placed
        exact (inv.link old before (by simpa using served)).sendAck _
  | takeRequest taken => exact inv.onTakeRequest tracked taken
  | connect up free joined =>
      refine inv.kept inv.asked rfl rfl rfl rfl ?_ ?_
      · rintro _ ⟨⟩
        exact isPlain
      · rintro _ ⟨⟩ ⟨⟩
  | sendRequest sent => exact inv.onSendRequest tracked sent
  | read read => exact inv.onRead balanced read
  | linkEnd => exact inv.kept inv.asked rfl rfl rfl rfl (by simp) (by simp)
  | marks head lib => exact inv.kept inv.asked rfl rfl rfl rfl inv.modern inv.link
  | nodeTake held taken =>
      have modern := inv.modern _ held
      refine inv.kept inv.asked rfl rfl rfl rfl ?_ ?_
      · rintro _ ⟨⟩
        rcases Socket.nodeTake_cases taken with ⟨r, out, -, rfl⟩ | ⟨n, out, -, rfl⟩
        · exact modern
        · exact modern
      · rintro _ ⟨⟩ served
        have served := (Socket.nodeTake_keeps taken).2.symm.trans served
        exact (inv.link _ held served).nodeTake (balanced.link _ held).inn_eq_nil taken
  | nodeSend held sent =>
      have modern := inv.modern _ held
      refine inv.kept inv.asked rfl rfl rfl rfl ?_ ?_
      · rintro _ ⟨⟩
        obtain ⟨⟨node, f⟩, sends, rfl⟩ := Option.map_eq_some_iff.mp sent
        obtain ⟨-, -, -, legacy, -⟩ := Node.send_cases b sends
        exact legacy.trans modern
      · rintro _ ⟨⟩ served
        have served := (Socket.nodeSend_keeps sent).2.symm.trans served
        exact (inv.link _ held served).nodeSend ((tracked _ held).no_requests sent) modern sent
  | @evolve choice world evolves =>
      refine inv.kept inv.asked rfl rfl rfl ?_ ?_ ?_
      · cases choice <;> rfl
      · intro l' moved
        obtain ⟨l, before, rfl⟩ := Option.map_eq_some_iff.mp moved
        exact (Node.follow_cases s.net.world choice l.node).2.1.trans (inv.modern l before)
      · intro l' moved served
        obtain ⟨l, before, rfl⟩ := Option.map_eq_some_iff.mp moved
        exact (inv.link l before served).follow s.net.world choice

/-- Every plain stream is a run of the session with honest upstreams, and stays
steady. -/
theorem of_reachable {allowed : Stream κ → NetEvent Node (Choice κ) → Prop}
    (isPlain : ∀ s e, allowed s e → s.plain e) {start : Chain κ}
    (reachable : Reachable (Stream.machine b start) allowed s) :
    Reachable (System.machine (Node.upstream b) start) (Node.honest b).told s.net ∧
      s.Steady := by
  refine Reachable.invariant
    (P := fun s => Reachable (System.machine (Node.upstream b) start) (Node.honest b).told s.net ∧
      s.Steady) ?_ ?_ reachable
  · rintro _ rfl
    refine ⟨.start rfl, ?_⟩
    refine ⟨?_, ?_, ?_, rfl, ?_, ?_⟩ <;> simp [System.fresh, ClientSide.default]
  · rintro s e s' - ⟨before, inv⟩ isAllowed steps
    obtain ⟨silent, tracked⟩ := System.tracked_of_reachable before
    have step : s.net.step (Node.upstream b) e = some s'.net := by
      obtain ⟨net, step, rfl⟩ := Option.map_eq_some_iff.mp steps
      exact step
    exact ⟨.next before (inv.told e) step,
      inv.step (.of_reachable silent) tracked (isPlain s e isAllowed) steps⟩

end

end Steady

/-- In every run over one chain, with requests without `have_positions`: the
router's cursor is the client's next block; every request sent upstream starts
there; and a forwarded result stands for a block that is not above it, except for
the first result of a leg from a live node whose first block is above it. -/
theorem stream_continuity [DecidableEq κ] (b : Branches κ) (start : Chain κ) {s : Stream κ}
    (reachable : Reachable (machine b start) plain s) :
    s.net.c.cursor.val = s.reader.next ∧
    (∀ e s', s.plain e → s.step b e = some s' →
      ∀ l ∈ s.net.link, ∀ l' ∈ s'.net.link, ∀ r, l'.out = l.out ++ [.request r] →
        r.start.val = s'.reader.next) ∧
    ∀ l ∈ s.net.link, ∀ packet ∈ l.inn.head?, ∀ answers c st fw,
      onBlockResult s.net.c l.st answers packet.h = .forwarded c st fw →
      ∃ n, packet.block = some n ∧ (∀ p ∈ packet.h.thisBlock, p.num = n) ∧
        (n.val ≤ s.reader.next ∨
          l.node.role = .live ∧ l.st.firstResultPending = true ∧
            s.reader.next < l.node.first.val) := by
  obtain ⟨run, inv⟩ := Steady.of_reachable (fun _ _ => id) reachable
  refine ⟨inv.cursor, ?_, ?_⟩
  · intro e s' isPlain step l before l' after r more
    obtain ⟨-, inv'⟩ := Steady.of_reachable (fun _ _ => id) (.next reachable isPlain step)
    obtain ⟨net, netStep, rfl⟩ := Option.map_eq_some_iff.mp step
    obtain ⟨served, isSome⟩ := System.step_request _ netStep before after more
    obtain ⟨lr, request⟩ := Option.isSome_iff_exists.mp isSome
    rw [← inv'.cursor]
    exact ((inv'.link l' after served).waits lr request l.out r [] more rfl).start
  · intro l before packet isFirst answers c st fw handled
    obtain ⟨inn, first⟩ := List.head?_eq_some_iff.mp isFirst
    obtain ⟨silent, -⟩ := System.tracked_of_reachable run
    obtain ⟨lr, n, reads⟩ := inv.reads (.of_reachable silent) before first
    have num := reads.num
    refine ⟨n, reads.block, fun p this => Fin.ext ((reads.plain.block p this).trans num.symm), ?_⟩
    rw [← inv.cursor]
    rcases reads.streaming.start packet.num (by simp [Socket.path, first]) with
      low | ⟨live, pending, low⟩
    · exact .inl (num.le.trans low)
    · by_cases above : n.val ≤ s.net.c.cursor.val
      · exact .inl above
      · exact .inr ⟨live, pending, by omega⟩

/-! ## A fork and a failover -/

instance (s : Stream κ) : (e : NetEvent Node (Choice κ)) → Decidable (s.plain e)
  | .clientSend (.request r) => inferInstanceAs (Decidable (r.havePositions = []))
  | .connect _ x => inferInstanceAs (Decidable (x.legacy = false))
  | .clientSend (.ack _) | .clientReceive | .takeAck | .takeRequest _ | .sendRequest _ _ _ _
  | .read _ | .linkEnd | .marks _ _ | .nodeTake | .nodeSend _ | .evolve _ => .isTrue trivial

def leadingNode : Node := sampleNode false 110 100 (by decide) (by decide)

/-- Blocks 101 to 104 are delivered and a fork replaces them from block 103 on;
the new block 103 is in flight when the stream is resumed on another node. -/
def forkedRun : List (NetEvent Node (Choice UInt8)) :=
  [.clientSend (.request streamRequest), .takeRequest .drop,
    .connect 0 leadingNode,
    .sendRequest 1000 .initial ⟨.pool, none⟩ false, .nodeTake] ++
    List.replicate 4 (.nodeSend .result) ++ List.replicate 4 (.read quietFleet) ++
  [.evolve (.fork 103 1), .nodeSend .result, .linkEnd,
    .connect 1 (sampleNode false 107 100 (by decide) (by decide)),
    .sendRequest 1000 .failover ⟨.pool, none⟩ false, .nodeTake, .nodeSend .result,
    .read quietFleet]

/-- The resumed stream goes back to block 103, and the client with it. -/
theorem stream_continuity_sample :
    ∃ s, Reachable (machine sampleBranches (sampleChain 110 100 (by decide) (by decide))) plain s ∧
      s.reader.delivered.map BlockPos.num = [101, 102, 103] ∧ s.net.c.cursor.val = 104 ∧
      s.reader.next = 104 := by
  have found : ∃ s, Reachable
        (machine sampleBranches (sampleChain 110 100 (by decide) (by decide))) plain s ∧
      s.reader.delivered.map BlockPos.num = [101, 102, 103] ∧ s.net.c.cursor.val = 104 :=
    exists_reachable_of_run forkedRun rfl (by decide +kernel)
  obtain ⟨s, reachable, delivered, cursor⟩ := found
  exact ⟨s, reachable, delivered, cursor,
    (stream_continuity sampleBranches _ reachable).1.symm.trans cursor⟩

end Stream

end FleetRouter.Net
