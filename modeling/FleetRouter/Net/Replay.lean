import FleetRouter.Session.Ring
import FleetRouter.Session.Dedup
import FleetRouter.Net.Continuity

/-!
# No block twice

A result below the client's next block is forwarded only after a fork at or below
it, and it is never a block the client holds, as long as the reversible blocks the
router still remembers when a request arrives lead up to it on the chain.  Blocks
of an earlier request stay in the delivered ring; a resumed request carries them
as positions, and one that a fork has replaced can take the stream back below the
start of the current request.
-/

namespace FleetRouter.Net

open Ship Session Transition

variable {κ : Type}

/-! ## Blocks of the chain -/

namespace Chain

variable (b : Branches κ)

/-- The block is on a branch the chain has taken. -/
def Has (w : Chain κ) (p : BlockPos) : Prop :=
  ∃ branch ∈ w.genesis :: w.forks.map Prod.snd, p.id = b.id branch p.num

theorem has_pos (w : Chain κ) (n : Fin (2 ^ 32)) : w.Has b (w.pos b n) := by
  refine ⟨w.branch n, ?_, rfl⟩
  unfold branch
  cases found : w.forks.find? fun f => decide (f.1 ≤ n) with
  | none => simp
  | some f => exact List.mem_cons_of_mem _ (List.mem_map_of_mem (List.mem_of_find?_eq_some found))

variable {b} [DecidableEq κ] {w w' : Chain κ} {a : Choice κ}

theorem Has.evolve {p : BlockPos} (has : w.Has b p) (evolves : w.evolve a = some w') :
    w'.Has b p := by
  cases a with
  | advance head lib =>
      simp only [Chain.evolve] at evolves
      split at evolves <;> cases evolves
      exact has
  | fork start branch =>
      simp only [Chain.evolve] at evolves
      split at evolves <;> cases evolves
      obtain ⟨other, taken, same⟩ := has
      refine ⟨other, ?_, same⟩
      rcases List.mem_cons.mp taken with first | later
      · simp [first]
      · simp only [List.map_cons, List.mem_cons]
        exact .inr (.inr later)
  | tip head lib =>
      cases evolves
      exact has
  | result => cases evolves
  | keepAlive => cases evolves

/-- A block stays on the chain until a fork at or below it replaces it by one
that is on no branch taken before. -/
theorem pos_evolve (evolves : w.evolve a = some w') (n : Fin (2 ^ 32)) :
    ((∀ start branch, a = .fork start branch → n < start) ∧ w'.pos b n = w.pos b n) ∨
      (∃ start branch, a = .fork start branch ∧ start ≤ n) ∧ ¬w.Has b (w'.pos b n) := by
  cases a with
  | advance head lib =>
      simp only [Chain.evolve] at evolves
      split at evolves <;> cases evolves
      exact .inl ⟨by simp, rfl⟩
  | fork start branch =>
      simp only [Chain.evolve] at evolves
      split at evolves
      · rename_i new
        cases evolves
        by_cases low : start ≤ n
        · refine .inr ⟨⟨start, branch, rfl, low⟩, ?_⟩
          rintro ⟨other, taken, same⟩
          have isNew : branch = other := b.distinct n (by
            simpa [pos, Chain.branch, List.find?_cons, low] using same)
          subst isNew
          rcases List.mem_cons.mp taken with first | later
          · exact new.2.1 first
          · exact new.2.2 later
        · refine .inl ⟨?_, ?_⟩
          · rintro _ _ ⟨⟩
            exact not_le.mp low
          · simp [pos, Chain.branch, low]
      · cases evolves
  | tip head lib =>
      cases evolves
      exact .inl ⟨by simp, rfl⟩
  | result => cases evolves
  | keepAlive => cases evolves

/-- A block a fork has replaced does not come back. -/
theorem ne_pos_evolve {p : BlockPos} (has : w.Has b p) (replaced : p ≠ w.pos b p.num)
    (evolves : w.evolve a = some w') : p ≠ w'.pos b p.num := by
  rcases pos_evolve evolves p.num with ⟨-, same⟩ | ⟨-, new⟩
  · rwa [same]
  · rintro same
    exact new (same ▸ has)

end Chain

/-! ## What the client holds -/

namespace Reader

/-- A fork at or below the block happened since the request arrived, and the
client does not hold it. -/
def Unseen (x : Reader) (p : BlockPos) : Prop := x.forked p.num.val ∧ p ∉ x.delivered

/-- Block `q` may be sent after `p`: it is above it, or a fork has replaced `p`
since. -/
def After (b : Branches κ) (w : Chain κ) (x : Reader) (p q : BlockPos) : Prop :=
  p.num < q.num ∨ x.Unseen q ∧ p ≠ q ∧ p ≠ w.pos b p.num

/-- The client's books after a step of the chain. -/
def follow (x : Reader) : Choice κ → Reader
  | .fork start _ => x.fork start
  | .advance _ _ | .tip _ _ | .result | .keepAlive => x

variable {x : Reader} {p q : BlockPos}

@[simp] theorem follow_delivered (a : Choice κ) : (x.follow a).delivered = x.delivered := by
  cases a <;> rfl

theorem Unseen.follow (unseen : x.Unseen p) (a : Choice κ) : (x.follow a).Unseen p := by
  refine ⟨?_, by simpa using unseen.2⟩
  cases a with
  | fork start branch => exact forked_fork.mpr (.inr unseen.1)
  | _ => exact unseen.1

theorem After.ne {b : Branches κ} {w : Chain κ} (after : After b w x p q) : q ≠ p := by
  rintro rfl
  rcases after with below | ⟨-, differs, -⟩
  · exact below.false
  · exact differs rfl

theorem mem_deliver {f : Frame} (this : f.h.thisBlock = some p) :
    q ∈ (x.deliver f).delivered ↔ q ∈ x.delivered ∧ q.num < p.num ∨ q = p := by
  simp [deliver, this]

theorem deliver_idless {f : Frame} (this : f.h.thisBlock = none) :
    (x.deliver f).delivered = x.delivered := by
  unfold deliver
  split
  · rename_i p isBlock
    simp [this] at isBlock
  · split <;> rfl

theorem Unseen.deliver {f : Frame} (unseen : x.Unseen q) (differs : ∀ p ∈ f.h.thisBlock, q ≠ p) :
    (x.deliver f).Unseen q := by
  refine ⟨by simpa [forked] using unseen.1, ?_⟩
  cases this : f.h.thisBlock with
  | none =>
      rw [deliver_idless this]
      exact unseen.2
  | some p =>
      rw [mem_deliver this]
      rintro (⟨held, -⟩ | same)
      · exact unseen.2 held
      · exact differs p this same

theorem After.deliver {b : Branches κ} {w : Chain κ} {f : Frame} (after : After b w x p q)
    (differs : ∀ p ∈ f.h.thisBlock, q ≠ p) : After b w (x.deliver f) p q :=
  after.imp_right fun unseen => ⟨unseen.1.deliver differs, unseen.2⟩

section
variable [DecidableEq κ] {b : Branches κ} {w w' : Chain κ} {a : Choice κ}

/-- After a step of the chain a block is the same as before, or the client has
never been given it. -/
theorem follow_pos (known : ∀ q ∈ x.delivered, w.Has b q) (evolves : w.evolve a = some w')
    (n : Fin (2 ^ 32)) :
    ((∀ start branch, a = .fork start branch → n < start) ∧ w'.pos b n = w.pos b n) ∨
      (∃ start branch, a = .fork start branch ∧ start ≤ n) ∧ ¬w.Has b (w'.pos b n) ∧
        (x.follow a).Unseen (w'.pos b n) := by
  refine (Chain.pos_evolve evolves n).imp_right ?_
  rintro ⟨⟨start, branch, rfl, low⟩, new⟩
  refine ⟨⟨start, branch, rfl, low⟩, new, forked_fork.mpr (.inl low), ?_⟩
  intro held
  exact new (known _ held)

theorem After.evolve (after : After b w x p q) (has : w.Has b p)
    (evolves : w.evolve a = some w') : After b w' (x.follow a) p q :=
  after.imp_right fun ⟨unseen, differs, replaced⟩ =>
    ⟨unseen.follow a, differs, Chain.ne_pos_evolve has replaced evolves⟩

end

end Reader

/-- The router drops the block, or the client may be given it. -/
def Excused (x : Reader) (ring : DeliveredRing) (floor : Option (Fin (2 ^ 32)))
    (p : BlockPos) : Prop :=
  x.Unseen p ∨ floor.isSome = true ∧ p ∈ ring.buf

theorem Excused.follow {x : Reader} {ring : DeliveredRing} {floor : Option (Fin (2 ^ 32))}
    {p : BlockPos} (excused : Excused x ring floor p) (a : Choice κ) :
    Excused (x.follow a) ring floor p :=
  excused.imp_left fun unseen => unseen.follow a

/-- The number of the LIB the client has been sent. -/
def libMark (c : ClientSide) : Fin (2 ^ 32) := c.libSent.elim 0 BlockPos.num

/-- The blocks above the LIB that the router remembers, against the chain.  Each is
on it or the client may be given the one that is, and they reach up to the
client's next block. -/
structure Tail (b : Branches κ) (w : Chain κ) (c : ClientSide) (x : Reader) : Prop where
  behind : ∀ q ∈ c.delivered.buf, libMark c < q.num → q.num < c.cursor
  current : ∀ q ∈ c.delivered.buf, libMark c < q.num →
    q = w.pos b q.num ∨ x.Unseen (w.pos b q.num)
  unbroken : ∀ e ∈ c.delivered.buf, libMark c < e.num → ∀ m, e.num ≤ m → m < c.cursor →
    ∃ q ∈ c.delivered.buf, q.num = m

/-- The blocks above the LIB that the router remembers below the start of a new
request are still on the chain, and each is followed by the next one up to the
start.  For `irreversible_only` they do not matter. -/
def Connected (b : Branches κ) (w : Chain κ) (c : ClientSide) (r : BlocksRequest) : Prop :=
  r.irreversibleOnly = false → ∀ q ∈ c.delivered.buf, libMark c < q.num → q.num < r.start →
    q = w.pos b q.num ∧
      (q.num.val + 1 = r.start.val ∨ ∃ next ∈ c.delivered.buf, next.num.val = q.num.val + 1)

/-- What the client holds and the router remembers, against the chain. -/
structure Held (b : Branches κ) (w : Chain κ) (c : ClientSide) (x : Reader) : Prop where
  marks : c.marksOrdered
  known : ∀ q ∈ x.delivered, w.Has b q
  tail : ∀ creq ∈ c.req, creq.irreversibleOnly = false → Tail b w c x

theorem Connected.exists_next {b : Branches κ} {w : Chain κ} {c : ClientSide} {r : BlocksRequest}
    (connected : Connected b w c r) (reversible : r.irreversibleOnly = false) {e : BlockPos}
    (member : e ∈ c.delivered.buf) (above : libMark c < e.num) (k : Nat)
    (low : e.num.val + k < r.start.val) : ∃ q ∈ c.delivered.buf, q.num.val = e.num.val + k := by
  induction k with
  | zero => exact ⟨e, member, rfl⟩
  | succ k ih =>
      obtain ⟨q, inRing, num⟩ := ih (by omega)
      rcases (connected reversible q inRing (by omega) (by omega)).2 with
        top | ⟨next, inRing, isNext⟩
      · omega
      · exact ⟨next, inRing, by omega⟩

namespace Tail

variable {b : Branches κ} {w : Chain κ} {c : ClientSide} {x : Reader}

/-- A request for which nothing was given yet. -/
theorem newRequest {r : BlocksRequest} (connected : Connected b w c r)
    (reversible : r.irreversibleOnly = false) (x : Reader) : Tail b w (c.newRequest r).1 x := by
  have ring {q : BlockPos} :
      q ∈ (c.newRequest r).1.delivered.buf ↔ q ∈ c.delivered.buf ∧ q.num < r.start := by
    change q ∈ (c.delivered.truncateFrom r.start).buf ↔ _
    rw [DeliveredRing.truncateFrom_buf, List.mem_filter, decide_eq_true_eq]
  constructor
  case behind =>
    intro q member _
    exact (ring.mp member).2
  case current =>
    intro q member above
    obtain ⟨inRing, low⟩ := ring.mp member
    exact .inl (connected reversible q inRing above low).1
  case unbroken =>
    intro e member above m from' below
    have below : m < r.start := below
    obtain ⟨inRing, -⟩ := ring.mp member
    obtain ⟨q, inRing, num⟩ :=
      connected.exists_next reversible inRing above (m.val - e.num.val) (by omega)
    have num : q.num = m := Fin.ext (by omega)
    exact ⟨q, ring.mpr ⟨inRing, num ▸ below⟩, num⟩

/-- Of a LIB that has moved on less is asked. -/
theorem mono (tail : Tail b w c x) {c' : ClientSide} (ring : c'.delivered = c.delivered)
    (cursor : c'.cursor = c.cursor) (later : libMark c ≤ libMark c') : Tail b w c' x where
  behind := by
    intro q member above
    rw [ring] at member
    rw [cursor]
    exact tail.behind q member (later.trans_lt above)
  current := by
    intro q member above
    rw [ring] at member
    exact tail.current q member (later.trans_lt above)
  unbroken := by
    intro e member above m from' below
    rw [ring] at member ⊢
    exact tail.unbroken e member (later.trans_lt above) m from' (cursor ▸ below)

/-- Every block from a remembered one above the LIB on is remembered as it is on
the chain, or the client has never been given it. -/
theorem excused (tail : Tail b w c x) {floor : Option (Fin (2 ^ 32))} (isOpen : floor.isSome)
    {p : BlockPos} (remembered : p ∈ c.delivered.buf) (above : libMark c < p.num)
    {m : Fin (2 ^ 32)} (from' : p.num ≤ m) (below : m < c.cursor) :
    Excused x c.delivered floor (w.pos b m) := by
  obtain ⟨q, inRing, rfl⟩ := tail.unbroken p remembered above m from' below
  rcases tail.current q inRing (above.trans_le from') with same | unseen
  · exact .inr ⟨isOpen, same ▸ inRing⟩
  · exact .inl unseen

/-- The client is given a block.  Above its next block this is the first one of a
node, and then no block before it is above the LIB. -/
theorem block (tail : Tail b w c x) {f : Frame} {fw : Forward} {p l : BlockPos}
    (this : f.h.thisBlock = some p) (found : fw.cls.n = some p.num)
    (next : fw.next = some (nextBlock p.num)) (small : (nextBlock p.num).val = p.num.val + 1)
    (sent : c.libSent = some l) (reaches : p.num ≤ c.cursor ∨ p.num.val ≤ l.num.val + 1)
    (current : p = w.pos b p.num ∨ x.Unseen (w.pos b p.num)) :
    Tail b w (commitClient c f.h fw) (x.deliver f) := by
  have ring : (commitClient c f.h fw).delivered = (fw.rewound c.delivered).push p (some l) := by
    simp [commitClient, this, ClientSide.record, sent]
  have cursor : (commitClient c f.h fw).cursor.val = p.num.val + 1 := by
    rw [commitClient_cursor, next]
    exact small
  have mark : libMark (commitClient c f.h fw) = libMark c := by simp [libMark]
  have isMark : libMark c = l.num := by simp [libMark, sent]
  have old {q : BlockPos} (member : q ∈ ((fw.rewound c.delivered).push p (some l)).buf)
      (differs : q ≠ p) : q ∈ c.delivered.buf ∧ q.num < p.num := by
    obtain ⟨inRing, below, -⟩ := (DeliveredRing.of_mem_push member).resolve_left differs
    exact ⟨Forward.mem_rewound inRing, below⟩
  constructor
  case behind =>
    intro q member _
    rw [ring] at member
    by_cases same : q = p
    · subst same
      omega
    · have := (old member same).2
      omega
  case current =>
    intro q member above
    rw [ring] at member
    rw [mark] at above
    by_cases same : q = p
    · subst same
      by_cases onChain : q = w.pos b q.num
      · exact .inl onChain
      · refine .inr ((current.resolve_left onChain).deliver fun other isThis => ?_)
        cases this.symm.trans isThis
        exact Ne.symm onChain
    · obtain ⟨inRing, below⟩ := old member same
      refine (tail.current q inRing above).imp_right fun unseen =>
        unseen.deliver fun other isThis => ?_
      cases this.symm.trans isThis
      intro replaced
      have num : (w.pos b q.num).num = p.num := congrArg BlockPos.num replaced
      exact below.ne num
  case unbroken =>
    intro e member above m low high
    rw [mark] at above
    rw [ring] at member ⊢
    by_cases top : m = p.num
    · exact ⟨p, DeliveredRing.mem_push_self _ _ _, top.symm⟩
    · have high : m < p.num := by omega
      have differs : e ≠ p := by
        rintro rfl
        omega
      obtain ⟨q, inOld, rfl⟩ := tail.unbroken e (old member differs).1 above m low (by omega)
      exact ⟨q, DeliveredRing.mem_push_of_le member
        (Forward.mem_rewound_of_lt found inOld high) low high, rfl⟩

/-- The client is given a block without an id, which is at or below the LIB: no
remembered block is above it. -/
theorem idless (tail : Tail b w c x) {c' : ClientSide} (ring : c'.delivered = c.delivered)
    (lib : c'.libSent = c.libSent) (irreversible : c.cursor ≤ libMark c) (x' : Reader) :
    Tail b w c' x' := by
  have none {q : BlockPos} (member : q ∈ c'.delivered.buf) (above : libMark c' < q.num) :
      False := by
    have above : libMark c < q.num := by simpa [libMark, lib] using above
    have := tail.behind q (ring ▸ member) above
    omega
  exact ⟨fun q member above => (none member above).elim,
    fun q member above => (none member above).elim,
    fun e member above => (none member above).elim⟩

end Tail

namespace Held

variable {b : Branches κ} {w : Chain κ} {c : ClientSide} {x : Reader}

/-- A new request starts with nothing held. -/
theorem newRequest (marks : c.marksOrdered) {r : BlocksRequest} (connected : Connected b w c r) :
    Held b w (c.newRequest r).1 (.request r) where
  marks := marks
  known := by simp [Reader.request]
  tail := by
    rintro _ ⟨⟩ reversible
    exact .newRequest connected reversible _

theorem libMark_le (held : Held b w c x) (role : Role) (head lib : BlockPos)
    (fleet : Option (BlockPos × BlockPos)) :
    libMark c ≤ (headLibMarks c role head lib fleet).2.num := by
  unfold libMark
  cases sent : c.libSent with
  | none => exact Fin.zero_le _
  | some l => exact libSent_le_headLibMarks held.marks sent role head lib fleet

theorem headLib (held : Held b w c x) (role : Role) (head lib : BlockPos)
    (fleet : Option (BlockPos × BlockPos)) (patch : Bool) :
    Held b w (headLibFor c role head lib fleet patch).1 x :=
  { held with
    marks := headLibFor_marksOrdered c role head lib fleet patch
    tail := fun creq request reversible =>
      (held.tail creq request reversible).mono rfl rfl (held.libMark_le role head lib fleet) }

/-- The client is given a block. -/
theorem block (held : Held b w c x) {f : Frame} {fw : Forward} {p l : BlockPos}
    (this : f.h.thisBlock = some p) (found : fw.cls.n = some p.num)
    (next : fw.next = some (nextBlock p.num)) (small : (nextBlock p.num).val = p.num.val + 1)
    (sent : c.libSent = some l) (reaches : p.num ≤ c.cursor ∨ p.num.val ≤ l.num.val + 1)
    (known : w.Has b p) (current : p = w.pos b p.num ∨ x.Unseen (w.pos b p.num)) :
    Held b w (commitClient c f.h fw) (x.deliver f) where
  marks := by simpa [ClientSide.marksOrdered] using held.marks
  known := by
    intro q given
    rcases (Reader.mem_deliver this).mp given with ⟨old, -⟩ | rfl
    · exact held.known q old
    · exact known
  tail := by
    intro creq request reversible
    rw [commitClient_req] at request
    exact (held.tail creq request reversible).block this found next small sent reaches current

/-- The client is given a block without an id, which is at or below the LIB. -/
theorem idless (held : Held b w c x) {f : Frame} {fw : Forward} {n : Fin (2 ^ 32)}
    (this : f.h.thisBlock = none) (next : fw.next = some (nextBlock n))
    (noFork : fw.fork = false) (at' : n = c.cursor)
    (irreversible : n ≤ libMark c) : Held b w (commitClient c f.h fw) (x.deliver f) := by
  have same : commitClient c f.h fw =
      { c with cursor := nextBlock n, deliveredForRequest := c.deliveredForRequest + 1 } := by
    simp [commitClient, this, next, Forward.rewound, noFork]
  rw [same]
  constructor
  case marks => exact held.marks
  case known => simpa only [Reader.deliver_idless this] using held.known
  case tail =>
    intro creq request reversible
    apply (held.tail creq request reversible).idless
    · rfl
    · rfl
    · exact at' ▸ irreversible

/-- The credit does not matter. -/
theorem credit (held : Held b w c x) (n : Fin (2 ^ 32)) : Held b w { c with credit := n } x :=
  { held with
    tail := fun creq request reversible =>
      (held.tail creq request reversible).mono rfl rfl le_rfl }

/-- The chain moves. -/
theorem evolve [DecidableEq κ] (held : Held b w c x) {w' : Chain κ} {a : Choice κ}
    (evolves : w.evolve a = some w') : Held b w' c (x.follow a) where
  marks := held.marks
  known := by
    intro q given
    exact (held.known q (by simpa using given)).evolve evolves
  tail := by
    intro creq request reversible
    have tail := held.tail creq request reversible
    refine { tail with current := ?_ }
    intro q member above
    rcases Reader.follow_pos held.known evolves q.num with ⟨-, same⟩ | ⟨-, -, unseen⟩
    · rw [same]
      exact (tail.current q member above).imp_right fun unseen => unseen.follow a
    · exact .inr unseen

end Held

/-! ## What is in flight -/

/-- A result in flight from a node whose first block is `first`. -/
structure Packet.Sound (b : Branches κ) (w : Chain κ) (x : Reader) (first : Fin (2 ^ 32))
    (packet : Packet) : Prop where
  known : ∀ p ∈ packet.h.thisBlock, w.Has b p
  current : ∀ p ∈ packet.h.thisBlock, p = w.pos b p.num ∨ x.Unseen (w.pos b p.num)
  ordered : packet.h.lib.num ≤ packet.h.head.num
  rooted : first.val ≤ packet.h.lib.num.val + 1

/-- The blocks in flight. -/
def Socket.blocks (l : Socket Node) : List BlockPos :=
  l.inn.filterMap fun packet => packet.h.thisBlock

/-- What the node has sent and will send below the client's next block is
dropped, or the client may be given it. -/
structure Socket.Replay (b : Branches κ) (w : Chain κ) (c : ClientSide) (x : Reader)
    (l : Socket Node) : Prop where
  excused : ∀ p ∈ l.blocks, p.num < c.cursor → Excused x c.delivered l.st.resumeFloor p
  ahead : ∀ m, l.node.cursor ≤ m → m < c.cursor →
    Excused x c.delivered l.st.resumeFloor (w.pos b m)
  order : l.blocks.Pairwise (Reader.After b w x)
  later : ∀ p ∈ l.blocks, ∀ m, l.node.cursor ≤ m → Reader.After b w x p (w.pos b m)
  sound : ∀ packet ∈ l.inn, packet.Sound b w x l.node.first

/-- A link that serves the client's current request. -/
structure Socket.Fair (b : Branches κ) (w : Chain κ) (c : ClientSide) (x : Reader)
    (l : Socket Node) : Prop where
  waits : ∀ front r back, l.out = front ++ .request r :: back → requests back = 0 →
    ∀ p ∈ r.havePositions, ∀ m, p.num ≤ m → m < c.cursor →
      Excused x c.delivered l.st.resumeFloor (w.pos b m)
  arrived : requests l.out = 0 → l.Replay b w c x

namespace Socket

variable {b : Branches κ} {w : Chain κ} {c c' : ClientSide} {x : Reader} {l : Socket Node}

theorem mem_blocks {p : BlockPos} :
    p ∈ l.blocks ↔ ∃ packet ∈ l.inn, packet.h.thisBlock = some p := by
  simp [blocks]

theorem blocks_of_inn {packet : Packet} {inn : List Packet} (first : l.inn = packet :: inn)
    (st : LinkState) : l.blocks = packet.h.thisBlock.toList ++ blocks { l with st, inn } := by
  cases this : packet.h.thisBlock <;> simp [blocks, first, this]

/-- The client is given the first block in flight. -/
theorem Replay.block (replay : l.Replay b w c x) {packet : Packet} {inn : List Packet}
    (first : l.inn = packet :: inn) {p : BlockPos} (this : packet.h.thisBlock = some p)
    (cursor : c'.cursor.val = p.num.val + 1) (st : LinkState) :
    Replay b w c' (x.deliver packet.toFrame) { l with st, inn } := by
  have blocks : l.blocks = p :: Socket.blocks { l with st, inn } := by
    rw [blocks_of_inn first st, this]
    rfl
  obtain ⟨behind, order⟩ := List.pairwise_cons.mp (blocks ▸ replay.order)
  have later (m : Fin (2 ^ 32)) (onward : l.node.cursor ≤ m) :=
    replay.later p (by simp [blocks]) m onward
  have isThis {q : BlockPos} (after : Reader.After b w x p q) :
      ∀ other ∈ packet.toFrame.h.thisBlock, q ≠ other := by
    intro other isOther
    cases this.symm.trans isOther
    exact after.ne
  refine ⟨?_, ?_, ?_, ?_, ?_⟩
  · intro q member low
    have after := behind q member
    exact .inl ((after.resolve_left (by omega)).1.deliver (isThis after))
  · intro m onward low
    have after := later m onward
    have notAbove : ¬p.num < (w.pos b m).num := by
      change ¬p.num < m
      omega
    exact .inl ((after.resolve_left notAbove).1.deliver (isThis after))
  · exact order.imp_of_mem fun _ member after => after.deliver (isThis (behind _ member))
  · intro q member m onward
    exact (replay.later q (by simp [blocks, member]) m onward).deliver (isThis (later m onward))
  · intro other member
    have sound := replay.sound other (by simp [first, member])
    refine { sound with current := ?_ }
    intro q isBlock
    by_cases same : q = w.pos b q.num
    · exact .inl same
    · refine .inr (((sound.current q isBlock).resolve_left same).deliver fun q' isOther => ?_)
      cases this.symm.trans isOther
      rintro rfl
      rcases behind q (mem_blocks.mpr ⟨other, member, isBlock⟩) with below | ⟨-, -, replaced⟩
      · exact lt_irrefl q.num below
      · exact replaced rfl

theorem Streaming.ascends {k : Nat} {lr : LinkReq} (streaming : l.Streaming k lr)
    (frozen : l.node.role = .frozen) : l.path.Pairwise (· < ·) := by
  refine List.IsChain.pairwise (streaming.path.imp fun m n on => ?_)
  rw [frozen] at on
  exact Nat.lt_of_succ_le on.ge

/-- The client is given a block without an id, from an archive. -/
theorem Replay.idless (replay : l.Replay b w c x) {k : Nat} {lr : LinkReq}
    (streaming : l.Streaming k lr) {packet : Packet} {inn : List Packet}
    (first : l.inn = packet :: inn) (this : packet.h.thisBlock = none)
    (cursor : c'.cursor.val = packet.num + 1) (st : LinkState) :
    Replay b w c' (x.deliver packet.toFrame) { l with st, inn } := by
  have blocks : l.blocks = Socket.blocks { l with st, inn } := by
    rw [blocks_of_inn first st, this]
    rfl
  have frozen := (streaming.sent packet (by simp [first])).named this
  have path := streaming.ascends frozen
  rw [path_of_inn first st, List.pairwise_cons] at path
  have noBlock {q : BlockPos} : ∀ p ∈ packet.toFrame.h.thisBlock, q ≠ p := by simp [this]
  refine ⟨?_, ?_, ?_, ?_, ?_⟩
  · intro q member low
    obtain ⟨other, inside, isBlock⟩ := mem_blocks.mp member
    have num := (streaming.sent other (by simp [first, inside])).block q isBlock
    have above := path.1 other.num (by simpa [Socket.path] using .inl ⟨other, inside, rfl⟩)
    omega
  · intro m onward low
    have above := path.1 l.node.cursor.val (by simp [Socket.path])
    have onward : l.node.cursor ≤ m := onward
    omega
  · rw [← blocks]
    exact replay.order.imp fun after => after.deliver noBlock
  · intro q member m onward
    exact (replay.later q (blocks ▸ member) m onward).deliver noBlock
  · intro other member
    have sound := replay.sound other (by simp [first, member])
    exact { sound with
      current := fun q isBlock =>
        (sound.current q isBlock).imp_right fun unseen => unseen.deliver noBlock }

/-- The router drops the first result in flight. -/
theorem Replay.drop (replay : l.Replay b w c x) {packet : Packet} {inn : List Packet}
    (first : l.inn = packet :: inn) {st : LinkState} (floor : st.resumeFloor = l.st.resumeFloor) :
    Replay b w c x { l with st, inn } := by
  have sublist : (Socket.blocks { l with st, inn }).Sublist l.blocks := by
    rw [blocks_of_inn first st]
    exact List.sublist_append_right _ _
  refine ⟨?_, ?_, replay.order.sublist sublist, ?_, ?_⟩
  · intro p member low
    rw [floor]
    exact replay.excused p (sublist.subset member) low
  · simpa only [floor] using replay.ahead
  · intro p member m onward
    exact replay.later p (sublist.subset member) m onward
  · intro other member
    exact replay.sound other (by simp [first, member])

/-- The node sends its next block. -/
theorem Replay.send (replay : l.Replay b w c x) (modern : l.node.legacy = false)
    {choice : Choice κ} {node : Node} {f : Frame}
    (sent : l.node.send b w choice = some (node, f)) :
    Replay b w c x { l with node, inn := l.inn ++ [{ f with gen := l.taken }] } := by
  obtain ⟨_, -, -, -, sameFirst, -⟩ := Node.send_cases b sent
  obtain ⟨r, -, -, cursor, rfl⟩ := Node.send_modern b sent (by simp [modern])
  have isNext {p : BlockPos} (this : (l.node.result b w r l.node.cursor).h.thisBlock = some p) :
      p = w.pos b l.node.cursor := by
    simp only [Node.result, Option.ite_none_right_eq_some, Option.some.injEq] at this
    exact this.2.symm
  have blocks : Socket.blocks
      { l with node, inn := l.inn ++ [{ l.node.result b w r l.node.cursor with gen := l.taken }] } =
      l.blocks ++ (l.node.result b w r l.node.cursor).h.thisBlock.toList := by
    cases this : (l.node.result b w r l.node.cursor).h.thisBlock <;> simp [Socket.blocks, this]
  have split {p : BlockPos}
      (member : p ∈ l.blocks ++ (l.node.result b w r l.node.cursor).h.thisBlock.toList) :
      p ∈ l.blocks ∨ p = w.pos b l.node.cursor :=
    (List.mem_append.mp member).imp_right fun isNew => isNext (by simpa using isNew)
  have onward {m : Fin (2 ^ 32)} (above : node.cursor ≤ m) : l.node.cursor < m := by omega
  refine ⟨?_, ?_, ?_, ?_, ?_⟩
  · intro p member low
    rw [blocks] at member
    rcases split member with old | rfl
    · exact replay.excused p old low
    · exact replay.ahead l.node.cursor le_rfl low
  · intro m above low
    exact replay.ahead m (onward above).le low
  · rw [blocks, List.pairwise_append]
    refine ⟨replay.order, ?_, ?_⟩
    · cases (l.node.result b w r l.node.cursor).h.thisBlock <;> simp
    · intro p old q isNew
      rw [isNext (p := q) (by simpa using isNew)]
      exact replay.later p old l.node.cursor le_rfl
  · intro p member m above
    rw [blocks] at member
    rcases split member with old | rfl
    · exact replay.later p old m (onward above).le
    · exact .inl (onward above)
  · intro packet member
    simp only [sameFirst]
    rcases List.mem_append.mp member with old | new
    · exact replay.sound packet old
    · rw [List.mem_singleton.mp new]
      refine ⟨?_, ?_, l.node.ordered, l.node.rooted⟩
      · intro p this
        rw [isNext this]
        exact w.has_pos b _
      · intro p this
        rw [isNext this]
        exact .inl rfl

/-- Below a fork the node goes on where it was. -/
theorem onward_of_follow {a : Choice κ} {m : Fin (2 ^ 32)} (onward : (l.node.follow w a).cursor ≤ m)
    (low : ∀ start branch, a = .fork start branch → m < start) : l.node.cursor ≤ m := by
  obtain ⟨-, -, -, -, -, same | ⟨-, -, branch, isFork, -⟩⟩ := Node.follow_cases w a l.node
  · rwa [same] at onward
  · exact absurd (low _ branch isFork) (not_lt.mpr onward)

theorem Replay.evolve [DecidableEq κ] (replay : l.Replay b w c x)
    (known : ∀ q ∈ x.delivered, w.Has b q) {w' : Chain κ} {a : Choice κ}
    (evolves : w.evolve a = some w') :
    Replay b w' c (x.follow a) { l with node := l.node.follow w a } := by
  have has {p : BlockPos} (member : p ∈ l.blocks) : w.Has b p := by
    obtain ⟨packet, inside, isBlock⟩ := mem_blocks.mp member
    exact (replay.sound packet inside).known p isBlock
  refine ⟨?_, ?_, ?_, ?_, ?_⟩
  · intro p member low
    exact (replay.excused p member low).follow a
  · intro m onward low
    rcases Reader.follow_pos known evolves m with ⟨below, same⟩ | ⟨-, -, unseen⟩
    · rw [same]
      exact (replay.ahead m (onward_of_follow onward below) low).follow a
    · exact .inl unseen
  · exact replay.order.imp_of_mem fun member _ after => after.evolve (has member) evolves
  · intro p member m onward
    rcases Reader.follow_pos known evolves m with ⟨below, same⟩ |
      ⟨⟨start, branch, isFork, from'⟩, new, unseen⟩
    · rw [same]
      exact (replay.later p member m (onward_of_follow onward below)).evolve (has member) evolves
    · by_cases above : p.num < m
      · exact .inl above
      · refine .inr ⟨unseen, ?_, ?_⟩
        · rintro rfl
          exact new (has member)
        · intro same
          rcases Chain.pos_evolve evolves p.num with ⟨low, -⟩ | ⟨-, isNew⟩
          · have := low start branch isFork
            omega
          · exact isNew (same ▸ has member)
  · intro packet member
    have sound := replay.sound packet member
    obtain ⟨-, -, sameFirst, -⟩ := Node.follow_cases w a l.node
    refine ⟨?_, ?_, sound.ordered, by simpa only [sameFirst] using sound.rooted⟩
    · intro p isBlock
      exact (sound.known p isBlock).evolve evolves
    · intro p isBlock
      rcases Reader.follow_pos known evolves p.num with ⟨-, same⟩ | ⟨-, -, unseen⟩
      · rw [same]
        exact (sound.current p isBlock).imp_right fun unseen => unseen.follow a
      · exact .inr unseen

/-! ## The link -/

/-- A resumed request carries remembered blocks above the LIB. -/
theorem positionsFor_resumed {creq : BlocksRequest} (unhinted : creq.havePositions = [])
    {role : Role} {start : Fin (2 ^ 32)} {target : Target} {p : BlockPos}
    (member : p ∈ positionsFor c creq role c.fresh start target) :
    c.fresh = false ∧ creq.irreversibleOnly = false ∧ p ∈ c.delivered.buf ∧
      libMark c < p.num := by
  cases role with
  | frozen => simp [positionsFor] at member
  | live =>
      cases fresh : c.fresh with
      | true => cases topology : target.topology <;>
          simp [positionsFor, fresh, topology, unhinted] at member
      | false =>
          simp only [positionsFor, fresh] at member
          split at member
          · simp at member
          · rename_i reversible
            obtain ⟨remembered, above, -⟩ := DeliveredRing.mem_reversibleTail member
            exact ⟨rfl, Bool.eq_false_of_not_eq_true reversible, remembered, above⟩

theorem Fair.sendRequest (held : Held b w c x) {creq : BlocksRequest}
    (request : creq ∈ c.req) (unhinted : creq.havePositions = []) (pre «end» : Fin (2 ^ 32))
    (purpose : Purpose) (target : Target) :
    (l.sendRequest c creq pre «end» purpose target).Fair b w c x := by
  constructor
  · intro front r back split last p member m onward low
    obtain rfl := eq_of_last_request split last
    obtain ⟨resumed, reversible, remembered, above⟩ := positionsFor_resumed unhinted member
    refine (held.tail creq request reversible).excused ?_ remembered above onward low
    have some : (positionsFor c creq l.st.role c.fresh (requestStart c creq) target).isEmpty =
        false := by
      simpa using List.ne_nil_of_mem member
    simp [Socket.sendRequest, buildRequest, resumed, resumed ▸ some]
  · intro none
    simp [Socket.sendRequest] at none

theorem Fair.sendAck (fair : l.Fair b w c x) (n : Fin (2 ^ 32)) :
    (l.sendAck n).Fair b w c x := by
  unfold Socket.sendAck
  split
  · constructor
    · intro front r back split last
      obtain ⟨rest, inside, same⟩ := split_concat_ack split
      exact fair.waits front r rest inside (same.symm.trans last)
    · intro none
      obtain ⟨excused, ahead, order, later, sound⟩ := fair.arrived (by simpa using none)
      exact ⟨excused, ahead, order, later, sound⟩
  · exact fair

/-- The node takes the request, and goes back no further than to one of its
positions. -/
theorem Fair.nodeTake [DecidableEq κ] (fair : l.Fair b w c x) {lr : LinkReq}
    (request : lr ∈ l.st.req) (steady : l.Steady c.cursor.val)
    (empty : requests l.out ≠ 0 → l.inn = []) {l' : Socket Node}
    (taken : l.nodeTake (Node.upstream b) w = some l') : l'.Fair b w c x := by
  rcases Socket.nodeTake_cases taken with ⟨r, out, split, rfl⟩ | ⟨n, out, split, rfl⟩
  · constructor
    · intro front q back inside last
      exact fair.waits (.request r :: front) q back (split.trans (congrArg _ inside)) last
    · intro last
      have noResult := empty (by simp [split])
      have start := (steady.waits lr request [] r out split last).start
      refine ⟨by simp [Socket.blocks, noResult], ?_, by simp [Socket.blocks, noResult],
        by simp [Socket.blocks, noResult], by simp [noResult]⟩
      intro m onward low
      have onward : l.node.startFor b w r ≤ m := onward
      obtain ⟨p, member, below⟩ := Node.exists_position b w (x := l.node) (r := r) (by omega)
      exact fair.waits [] r out split last p member m (below.trans onward) low
  · constructor
    · intro front q back inside last
      exact fair.waits (.ack n :: front) q back (split.trans (congrArg _ inside)) last
    · intro last
      obtain ⟨excused, ahead, order, later, sound⟩ := fair.arrived (by simpa [split] using last)
      exact ⟨excused, ahead, order, later, sound⟩

theorem Fair.nodeSend [DecidableEq κ] (fair : l.Fair b w c x) (none : requests l.out = 0)
    (modern : l.node.legacy = false) {choice : Choice κ} {l' : Socket Node}
    (sent : l.nodeSend (Node.upstream b) w choice = some l') : l'.Fair b w c x := by
  obtain ⟨⟨node, f⟩, sends, rfl⟩ := Option.map_eq_some_iff.mp sent
  refine ⟨?_, fun _ => (fair.arrived none).send modern sends⟩
  intro front r back split
  simp only at split
  simp [split] at none

theorem Fair.evolve [DecidableEq κ] (fair : l.Fair b w c x)
    (known : ∀ q ∈ x.delivered, w.Has b q) {w' : Chain κ} {a : Choice κ}
    (evolves : w.evolve a = some w') :
    Fair b w' c (x.follow a) { l with node := l.node.follow w a } := by
  refine ⟨?_, fun none => (fair.arrived none).evolve known evolves⟩
  intro front r back split last p member m onward low
  rcases Reader.follow_pos known evolves m with ⟨-, same⟩ | ⟨-, -, unseen⟩
  · rw [same]
    exact (fair.waits front r back split last p member m onward low).follow a
  · exact .inl unseen

end Socket

/-! ## Runs -/

namespace Stream

/-- The request of the client that is taken next. -/
def nextRequest (s : Stream κ) : Option BlocksRequest :=
  match s.net.toRouter with
  | .request r :: _ => some r
  | _ => none

/-- When a request arrives, the reversible blocks remembered from earlier requests
lead up to it; and a block without an id is not above the LIB it is sent with. -/
def continues (b : Branches κ) (s : Stream κ) : NetEvent Node (Choice κ) → Prop
  | .takeRequest _ => ∀ r ∈ s.nextRequest, Connected b s.net.world s.net.c r
  | .read answers => ∀ l ∈ s.net.link, ∀ packet ∈ l.inn.head?, packet.h.thisBlock = none →
      packet.num ≤
        (headLibMarks s.net.c l.st.role packet.h.head packet.h.lib answers.tip).2.num.val
  | _ => True

structure Fair (b : Branches κ) (s : Stream κ) : Prop where
  held : Held b s.net.world s.net.c s.reader
  link : ∀ l ∈ s.net.link, l.serving = true → l.Fair b s.net.world s.net.c s.reader

namespace Fair

variable {b : Branches κ} {s s' : Stream κ}

theorem onTakeRequest (fair : s.Fair b) (inv : s.Steady) {placement : Placement}
    (onward : s.continues b (.takeRequest placement)) {net : System (Chain κ) Node}
    (taken : s.net.onTakeRequest placement = some net) :
    Fair b { net, reader := observe s.net s.reader (.takeRequest placement) } := by
  obtain ⟨r, toRouter, link, split, placed, rfl⟩ := System.onTakeRequest_cases taken
  simp only [observe, split]
  have held : Held b s.net.world (s.net.c.newRequest r).1 (.request r) := by
    refine .newRequest fair.held.marks (onward r ?_)
    simp [nextRequest, split]
  refine ⟨held, ?_⟩
  rcases System.place_cases placed with ⟨-, rfl⟩ | ⟨l, legacy, -, -, -, rfl⟩ |
    ⟨l, «end», target, legacy, -, -, -, rfl⟩
  · simp
  · rintro _ ⟨⟩ ⟨⟩
  · rintro _ ⟨⟩ _
    exact Socket.Fair.sendRequest held rfl (inv.asked r (by simp [split])) _ _ _ _

theorem onSendRequest (fair : s.Fair b) (inv : s.Steady) {«end» : Fin (2 ^ 32)}
    {purpose : Purpose} {target : Target} {legacy : Bool} {net : System (Chain κ) Node}
    (sent : s.net.onSendRequest «end» purpose target legacy = some net) :
    Fair b { net, reader := s.reader } := by
  obtain ⟨creq, l, request, before, -, rfl⟩ := System.onSendRequest_cases sent
  refine ⟨fair.held, ?_⟩
  rintro _ ⟨⟩ _
  exact Socket.Fair.sendRequest fair.held request (inv.unhinted creq request) _ _ _ _

theorem observe_evolve (net : System (Chain κ) Node) (x : Reader) (a : Choice κ) :
    observe net x (.evolve a) = x.follow a := by
  cases a <;> rfl

variable [DecidableEq κ]

theorem onRead (fair : s.Fair b) (inv : s.Steady)
    (balanced : s.net.Balanced (Node.upstream b)) (tracked : s.net.Tracked (Node.honest b))
    {answers : FleetAnswers} (onward : s.continues b (.read answers)) {net : System (Chain κ) Node}
    (read : s.net.onRead answers = some net) :
    Fair b { net, reader := observe s.net s.reader (.read answers) } := by
  obtain ⟨l, packet, inn, before, first, outcome⟩ := System.onRead_cases read
  rw [Steady.observe_read before first]
  obtain ⟨lr, n, reads⟩ := inv.reads balanced before first
  have streaming := reads.streaming
  have num := reads.num
  have replay := (fair.link l before reads.served).arrived reads.none
  have sound := replay.sound packet (by simp [first])
  have arrives {c : ClientSide} {x : Reader} {st : LinkState}
      (after : Socket.Replay b s.net.world c x { l with st, inn }) :
      Socket.Fair b s.net.world c x { l with st, inn } := by
    refine ⟨?_, fun _ => after⟩
    intro front r back split
    simp only at split
    simpa [split] using reads.none
  rcases outcome with ⟨c, st, fw, handled, rfl⟩ | ⟨st, handled, rfl⟩ | ⟨reason, handled, rfl⟩ |
    ⟨handled, -⟩
  · simp only [handled]
    obtain ⟨⟨creq, judged⟩, found, moves, cursor, rfl, rfl⟩ := reads.forwarded handled
    obtain ⟨-, -, placed, -, -⟩ := judge_eq_forward judged
    rw [← num] at cursor
    have next : (nextBlock n).val = n.val + 1 := reads.next.trans (by rw [num])
    have charged : Held b s.net.world s.net.c.charge.1 s.reader := fair.held.credit _
    have marked := charged.headLib l.st.role packet.h.head packet.h.lib answers.tip answers.patch
    cases this : packet.h.thisBlock with
    | some p =>
        obtain rfl : p.num = n := Fin.ext ((reads.plain.block p this).trans num.symm)
        constructor
        · refine marked.block (f := packet.toFrame)
            (l := (headLibMarks s.net.c.charge.1 l.st.role packet.h.head packet.h.lib
              answers.tip).2) this found moves next rfl ?_ (sound.known p this)
            (sound.current p this)
          rcases streaming.start packet.num (by simp [Socket.path, first]) with low | ⟨live, -, low⟩
          · exact .inl (num.le.trans low)
          · have role : l.st.role = .live := (tracked l before).role.trans live
            have tip : reportedTip l.st.role packet.h.head packet.h.lib answers.tip =
                (packet.h.head, packet.h.lib) := by
              simp [reportedTip, role]
            have reported := reported_le_headLibMarks s.net.c.charge.1 l.st.role packet.h.head
              packet.h.lib answers.tip (tip ▸ sound.ordered)
            simp only [tip] at reported
            have rooted := sound.rooted
            exact .inr (by omega)
        · rintro _ ⟨⟩ _
          exact arrives (replay.block first this cursor _)
    | none =>
        have frozen := reads.plain.named this
        obtain ⟨isFirst, -⟩ := streaming.archive frozen
        have atCursor : n = s.net.c.cursor := by
          rw [Socket.path_of_inn first l.st] at isFirst
          simp only [List.head?_cons, Option.some.injEq] at isFirst
          exact Fin.ext (num.trans isFirst)
        constructor
        · refine marked.idless (f := packet.toFrame) this moves
            (placeResult_at placed (atCursor ▸ found)) atCursor ?_
          exact num.le.trans (onward l before packet (by simp [first]) this)
        · rintro _ ⟨⟩ _
          exact arrives (replay.idless streaming first this (num ▸ cursor) _)
  · simp only [handled]
    obtain ⟨creq, lr', n', -, -, -, -, -, -, rfl⟩ := onBlockResult_dropped handled
    refine ⟨fair.held, ?_⟩
    rintro _ ⟨⟩ _
    have floor : (dropDuplicate l.st (.some (nextBlock n'))).resumeFloor = l.st.resumeFloor := rfl
    exact (arrives (replay.drop first floor)).sendAck 1
  · simp only [handled]
    exact ⟨fair.held, by simp⟩
  · exact absurd handled reads.not_ignored

theorem step (fair : s.Fair b) (inv : s.Steady) (balanced : s.net.Balanced (Node.upstream b))
    (tracked : s.net.Tracked (Node.honest b)) {e : NetEvent Node (Choice κ)}
    (onward : s.continues b e) (steps : s.step b e = some s') : s'.Fair b := by
  obtain ⟨net, step, rfl⟩ := Option.map_eq_some_iff.mp steps
  cases System.step_moves step with
  | clientSend | clientReceive => exact ⟨fair.held, fair.link⟩
  | @takeAck n toRouter front =>
      refine ⟨fair.held.credit _, ?_⟩
      intro l placed served
      obtain ⟨old, before, rfl⟩ := Option.map_eq_some_iff.mp placed
      have acked := (fair.link old before (by simpa using served)).sendAck (s.net.c.ack n).2
      exact ⟨acked.waits, fun none => { acked.arrived none with }⟩
  | takeRequest taken => exact fair.onTakeRequest inv onward taken
  | connect up free joined =>
      refine ⟨fair.held, ?_⟩
      rintro _ ⟨⟩ ⟨⟩
  | sendRequest sent => exact fair.onSendRequest inv sent
  | read read => exact fair.onRead inv balanced tracked onward read
  | linkEnd => exact ⟨fair.held, by simp⟩
  | marks head lib =>
      refine ⟨fair.held.headLib .live head lib none true, ?_⟩
      intro l before served
      have link := fair.link l before served
      exact ⟨link.waits, fun none => { link.arrived none with }⟩
  | nodeTake held taken =>
      refine ⟨fair.held, ?_⟩
      rintro _ ⟨⟩ served
      have served := (Socket.nodeTake_keeps taken).2.symm.trans served
      have ledger := balanced.link _ held
      obtain ⟨lr, request⟩ := Option.isSome_iff_exists.mp (ledger.serves served).2.1
      exact (fair.link _ held served).nodeTake request (inv.link _ held served)
        ledger.inn_eq_nil taken
  | nodeSend held sent =>
      refine ⟨fair.held, ?_⟩
      rintro _ ⟨⟩ served
      have served := (Socket.nodeSend_keeps sent).2.symm.trans served
      exact (fair.link _ held served).nodeSend ((tracked _ held).no_requests sent)
        (inv.modern _ held) sent
  | evolve evolves =>
      rw [observe_evolve]
      refine ⟨fair.held.evolve evolves, ?_⟩
      intro l' moved served
      obtain ⟨l, before, rfl⟩ := Option.map_eq_some_iff.mp moved
      exact (fair.link l before served).evolve fair.held.known evolves

theorem of_reachable {start : Chain κ}
    (reachable : Reachable (Stream.machine b start) (fun s e => s.plain e ∧ s.continues b e) s) :
    s.Fair b := by
  refine Reachable.invariant (P := Fair b) ?_ ?_ reachable
  · rintro _ rfl
    refine ⟨⟨trivial, by simp [Reader.empty], ?_⟩, by simp [System.fresh]⟩
    simp [System.fresh, ClientSide.default]
  · intro s e s' before fair isAllowed steps
    obtain ⟨run, inv⟩ := Steady.of_reachable (fun _ _ => And.left) before
    obtain ⟨silent, tracked⟩ := System.tracked_of_reachable run
    exact fair.step inv (.of_reachable silent) tracked isAllowed.2 steps

end Fair

/-- In every run over one chain, with requests without `have_positions`, each of
which the reversible blocks remembered before lead up to: a block forwarded below
the client's next one follows a fork at or below it since that request arrived,
and is not one the client holds. -/
theorem no_redelivery [DecidableEq κ] (b : Branches κ) (start : Chain κ) {s : Stream κ}
    (reachable : Reachable (machine b start) (fun s e => s.plain e ∧ s.continues b e) s)
    {l : Socket Node} (before : l ∈ s.net.link) {packet : Packet} (isFirst : packet ∈ l.inn.head?)
    {answers : FleetAnswers} {c : ClientSide} {st : LinkState} {fw : Forward}
    (handled : onBlockResult s.net.c l.st answers packet.h = .forwarded c st fw) {p : BlockPos}
    (this : p ∈ packet.h.thisBlock) (below : p.num.val < s.reader.next) :
    s.reader.forked p.num.val ∧ p ∉ s.reader.delivered := by
  obtain ⟨run, inv⟩ := Steady.of_reachable (fun _ _ => And.left) reachable
  have fair := Fair.of_reachable reachable
  obtain ⟨silent, -⟩ := System.tracked_of_reachable run
  obtain ⟨inn, first⟩ := List.head?_eq_some_iff.mp isFirst
  obtain ⟨lr, n, reads⟩ := inv.reads (.of_reachable silent) before first
  have replay := (fair.link l before reads.served).arrived reads.none
  have low : p.num < s.net.c.cursor := by
    have := inv.cursor
    omega
  rcases replay.excused p (Socket.mem_blocks.mpr ⟨packet, by simp [first], this⟩) low with
    unseen | ⟨isOpen, remembered⟩
  · exact unseen
  · obtain ⟨creq, lr, -, -, judged, -⟩ := onBlockResult_forwarded handled
    obtain ⟨cls, -, placed, -, -⟩ := judge_eq_forward judged
    have found : fw.cls.n = Option.some p.num := by rw [cls, classifyResult_some this]
    obtain ⟨-, -, notReplay⟩ := placeResult_below placed found low
    refine absurd ⟨isOpen, ?_⟩ notReplay
    have id := DeliveredRing.get_eq_some.mpr remembered
    simp [ClientSide.isDup, Option.mem_def.mp this, id]

/-! ## A position of an earlier request -/

instance (b : Branches κ) (w : Chain κ) (c : ClientSide) (r : BlocksRequest) :
    Decidable (Connected b w c r) :=
  inferInstanceAs (Decidable (r.irreversibleOnly = false → ∀ q ∈ c.delivered.buf,
    libMark c < q.num → q.num < r.start → q = w.pos b q.num ∧
      (q.num.val + 1 = r.start.val ∨ ∃ next ∈ c.delivered.buf, next.num.val = q.num.val + 1)))

instance (b : Branches κ) (s : Stream κ) :
    (e : NetEvent Node (Choice κ)) → Decidable (s.continues b e)
  | .takeRequest _ => inferInstanceAs (Decidable
      (∀ r ∈ s.nextRequest, Connected b s.net.world s.net.c r))
  | .read answers => inferInstanceAs (Decidable
      (∀ l ∈ s.net.link, ∀ packet ∈ l.inn.head?, packet.h.thisBlock = none →
        packet.num ≤
          (headLibMarks s.net.c l.st.role packet.h.head packet.h.lib answers.tip).2.num.val))
  | .clientSend _ | .clientReceive | .takeAck | .connect _ _ | .sendRequest _ _ _ _ | .linkEnd
  | .marks _ _ | .nodeTake | .nodeSend _ | .evolve _ => .isTrue trivial

/-- Blocks 101 to 107 are delivered and a fork replaces them from block 105 on.
The client asks again, from block 108, gets the new block 108, and the stream is
resumed on another node. -/
def leftoverRun : List (NetEvent Node (Choice UInt8)) :=
  [.clientSend (.request streamRequest), .takeRequest .drop,
    .connect 0 leadingNode,
    .sendRequest 1000 .initial ⟨.pool, none⟩ false, .nodeTake] ++
    List.replicate 7 (.nodeSend .result) ++ List.replicate 7 (.read quietFleet) ++
  [.evolve (.fork 105 1), .clientSend (.request { streamRequest with start := 108 }),
    .takeRequest .drop, .connect 1 leadingNode,
    .sendRequest 1000 .initial ⟨.pool, none⟩ false, .nodeTake, .nodeSend .result,
    .read quietFleet, .linkEnd, .connect 2 leadingNode,
    .sendRequest 1000 .failover ⟨.pool, none⟩ false, .nodeTake, .nodeSend .result]

/-- The ring still holds the blocks 105 to 107 the fork has replaced.  They were
not given for the current request, but the resumed request carries them, the node
goes back to them, and the new block 105 is forwarded: it is below the start of
the request, and no fork happened since. -/
theorem leftover_position_redelivers :
    ∃ s, Reachable (machine sampleBranches (sampleChain 110 100 (by decide) (by decide))) plain s ∧
      s.net.c.req.map BlocksRequest.start = some 108 ∧ s.reader.forkLow = none ∧
      s.reader.delivered.map BlockPos.num = [108] ∧ s.reader.next = 109 ∧
      ∃ l ∈ s.net.link, ∃ packet ∈ l.inn.head?, ∃ p ∈ packet.h.thisBlock, p.num = 105 ∧
        ∃ c st fw, onBlockResult s.net.c l.st quietFleet packet.h = .forwarded c st fw := by
  have found : ∃ s, Reachable
        (machine sampleBranches (sampleChain 110 100 (by decide) (by decide))) plain s ∧
      s.net.c.req.map BlocksRequest.start = some 108 ∧ s.reader.forkLow = none ∧
      s.reader.delivered.map BlockPos.num = [108] ∧ s.reader.next = 109 ∧
      ∃ l ∈ s.net.link, ∃ packet ∈ l.inn.head?, ∃ p ∈ packet.h.thisBlock, p.num = 105 ∧
        (onBlockResult s.net.c l.st quietFleet packet.h).isForwarded = true :=
    exists_reachable_of_run leftoverRun rfl (by decide +kernel)
  obtain ⟨s, reachable, start, low, delivered, next, l, before, packet, isFirst, p, this, num,
    forwarded⟩ := found
  exact ⟨s, reachable, start, low, delivered, next, l, before, packet, isFirst, p, this, num,
    Handled.exists_of_isForwarded forwarded⟩

/-- A resumed stream with the new block 103 in flight, and the old ones given for
the current request. -/
theorem no_redelivery_sample :
    ∃ s, Reachable (machine sampleBranches (sampleChain 110 100 (by decide) (by decide)))
        (fun s e => s.plain e ∧ s.continues sampleBranches e) s ∧
      s.reader.next = 105 ∧ s.reader.forked 103 := by
  have found : ∃ s, Reachable
        (machine sampleBranches (sampleChain 110 100 (by decide) (by decide)))
        (fun s e => s.plain e ∧ s.continues sampleBranches e) s ∧
      s.reader.next = 105 ∧
      ∃ l ∈ s.net.link, ∃ packet ∈ l.inn.head?, ∃ p ∈ packet.h.thisBlock, p.num = 103 ∧
        (onBlockResult s.net.c l.st quietFleet packet.h).isForwarded = true :=
    exists_reachable_of_run forkedRun.dropLast rfl (by decide +kernel)
  obtain ⟨s, reachable, next, l, before, packet, isFirst, p, this, num, forwarded⟩ := found
  obtain ⟨c, st, fw, handled⟩ := Handled.exists_of_isForwarded forwarded
  refine ⟨s, reachable, next, ?_⟩
  have below : p.num.val < s.reader.next := by
    rw [num, next]
    decide
  have forked := (no_redelivery sampleBranches _ reachable before isFirst handled this below).1
  rwa [num] at forked

end Stream

end FleetRouter.Net
