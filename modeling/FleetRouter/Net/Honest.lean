import FleetRouter.Net.Ledger

/-!
# Honest upstreams

Upstreams that stop at the end of their request: a live node sends only below
it, its LIB never goes back, and a fork rewinds it only above its LIB; an archive
is never rewound.  What the router remembers of a link, the last result it read,
then tells when the node has nothing left to send.
-/

namespace FleetRouter.Net

open Ship Session Transition

variable {γ ν α : Type}

/-! ## Honest upstreams -/

/-- What never changes on a connection. -/
structure Kind where
  role : Role
  legacy : Bool
  /-- Blocks below this one are sent without an id. -/
  first : Nat
  deriving DecidableEq, Repr

/-- Where a connection stands. -/
structure View where
  cursor : Nat
  limit : Nat
  lib : Nat
  deriving DecidableEq, Repr

/-- The rules of honest upstreams.  Nodes of the legacy family may send whenever
they have credit. -/
structure Honest (u : Upstream γ ν α) where
  kind : ν → Kind
  view : ν → View
  role_kind : ∀ x, (kind x).role = u.role x
  legacy_live : ∀ x, (kind x).legacy = true → (kind x).role = .live
  rooted : ∀ x, (kind x).first ≤ (view x).lib + 1
  kind_follow : ∀ w a x, kind (u.follow w a x) = kind x
  kind_onRequest : ∀ w x r, kind (u.onRequest w x r) = kind x
  kind_onAck : ∀ x n, kind (u.onAck x n) = kind x
  kind_send : ∀ w x a x' f, u.send w x a = some (x', f) → kind x' = kind x
  limit_follow : ∀ w a x, (view (u.follow w a x)).limit = (view x).limit
  lib_follow : ∀ w a x, (view x).lib ≤ (view (u.follow w a x)).lib
  /-- Only a live node is rewound, and only above its LIB. -/
  cursor_follow : ∀ w a x, (view x).cursor ≤ (view (u.follow w a x)).cursor ∨
    (kind x).role = .live ∧ (view x).lib < (view (u.follow w a x)).cursor
  view_onAck : ∀ x n, view (u.onAck x n) = view x
  limit_onRequest : ∀ w x r, (view (u.onRequest w x r)).limit = r.end.val
  lib_onRequest : ∀ w x r, (view (u.onRequest w x r)).lib = (view x).lib
  /-- Only a position below it moves the start down. -/
  cursor_onRequest : ∀ w x r, (∀ p ∈ r.havePositions, r.start ≤ p.num) →
    r.start.val ≤ (view (u.onRequest w x r)).cursor
  below_limit : ∀ w x a x' f, u.send w x a = some (x', f) → (kind x).legacy = false →
    (view x).cursor < (view x).limit
  view_send : ∀ w x a x' f, u.send w x a = some (x', f) → (kind x).legacy = false →
    view x' = { view x with cursor := (view x).cursor + 1 }
  lib_send : ∀ w x a x' f, u.send w x a = some (x', f) → (kind x).legacy = false →
    f.h.lib.num.val = (view x).lib
  block_send : ∀ w x a x' f, u.send w x a = some (x', f) → (kind x).legacy = false →
    ∀ p ∈ f.h.thisBlock, p.num.val = (view x).cursor
  idless_send : ∀ w x a x' f, u.send w x a = some (x', f) → (kind x).legacy = false →
    f.h.thisBlock = none → (kind x).role = .live → (view x).cursor < (kind x).first

/-- The connection has nothing left to send for its request, and no fork can
change that. -/
structure View.Done (k : Kind) (v : View) : Prop where
  modern : k.legacy = false
  reached : v.limit ≤ v.cursor
  final : k.role = .live → v.limit ≤ v.lib + 1

/-- A request that leaves such a connection behind. -/
structure Inert (k : Kind) (lib : Nat) (r : BlocksRequest) : Prop where
  modern : k.legacy = false
  empty : r.end ≤ r.start
  unmoved : ∀ p ∈ r.havePositions, r.start ≤ p.num
  final : k.role = .live → r.end.val ≤ lib + 1

theorem Inert.mono {k : Kind} {lib lib' : Nat} {r : BlocksRequest} (inert : Inert k lib r)
    (grows : lib ≤ lib') : Inert k lib' r where
  modern := inert.modern
  empty := inert.empty
  unmoved := inert.unmoved
  final := fun live => (inert.final live).trans (Nat.succ_le_succ grows)

namespace Honest

variable {u : Upstream γ ν α} (hon : Honest u)

def Done (x : ν) : Prop := (hon.view x).Done (hon.kind x)

variable {hon}

theorem Done.follow {x : ν} (done : hon.Done x) (w : γ) (a : α) : hon.Done (u.follow w a x) where
  modern := by rw [hon.kind_follow]; exact done.modern
  reached := by
    rw [hon.limit_follow]
    rcases hon.cursor_follow w a x with forth | ⟨live, above⟩
    · exact done.reached.trans forth
    · exact (done.final live).trans above
  final := by
    rw [hon.limit_follow, hon.kind_follow]
    exact fun live => (done.final live).trans (Nat.succ_le_succ (hon.lib_follow w a x))

theorem Done.onAck {x : ν} (done : hon.Done x) (n : Fin (2 ^ 32)) : hon.Done (u.onAck x n) := by
  rw [Done, hon.view_onAck, hon.kind_onAck]
  exact done

theorem Done.of_inert {x : ν} {r : BlocksRequest}
    (inert : Inert (hon.kind x) (hon.view x).lib r) (w : γ) : hon.Done (u.onRequest w x r) where
  modern := by rw [hon.kind_onRequest]; exact inert.modern
  reached := by
    rw [hon.limit_onRequest]
    exact le_trans inert.empty (hon.cursor_onRequest w x r inert.unmoved)
  final := by
    rw [hon.limit_onRequest, hon.lib_onRequest, hon.kind_onRequest]
    exact inert.final

/-- A connection that is done sends nothing. -/
theorem Done.silent {x : ν} (done : hon.Done x) (w : γ) (a : α) : u.send w x a = none := by
  cases sent : u.send w x a with
  | none => rfl
  | some pair =>
      have below := hon.below_limit w x a pair.1 pair.2 sent done.modern
      exact absurd done.reached (not_le.mpr below)

end Honest

/-! ## What is on its way -/

/-- Whether the last request on the channel is inert, or without one whether the
connection is done. -/
def doneAfter (inert : BlocksRequest → Prop) (done : Prop) : List Ask → Prop
  | [] => done
  | .request r :: asks => doneAfter inert (inert r) asks
  | .ack _ :: asks => doneAfter inert done asks

section
variable {inert inert' : BlocksRequest → Prop} {done done' : Prop}

theorem doneAfter_append (front back : List Ask) :
    doneAfter inert done (front ++ back) = doneAfter inert (doneAfter inert done front) back := by
  induction front generalizing done with
  | nil => rfl
  | cons ask front ih => cases ask <;> exact ih

@[simp] theorem doneAfter_nil : doneAfter inert done [] = done := rfl

@[simp] theorem doneAfter_request (r : BlocksRequest) (asks : List Ask) :
    doneAfter inert done (.request r :: asks) = doneAfter inert (inert r) asks := rfl

@[simp] theorem doneAfter_ack (n : Fin (2 ^ 32)) (asks : List Ask) :
    doneAfter inert done (.ack n :: asks) = doneAfter inert done asks := rfl

theorem doneAfter_mono (weaker : ∀ r, inert r → inert' r) (now : done → done') {asks : List Ask}
    (holds : doneAfter inert done asks) : doneAfter inert' done' asks := by
  induction asks generalizing done done' with
  | nil => exact now holds
  | cons ask asks ih =>
      cases ask with
      | request r => exact ih (weaker r) holds
      | ack n => exact ih now holds

theorem exists_last_request {asks : List Ask} (some : requests asks ≠ 0) :
    ∃ front r back, asks = front ++ .request r :: back ∧ requests back = 0 := by
  induction asks with
  | nil => simp at some
  | cons ask asks ih =>
      by_cases later : requests asks = 0
      · cases ask with
        | request r => exact ⟨[], r, asks, rfl, later⟩
        | ack n => simp [later] at some
      · obtain ⟨front, r, back, rfl, none⟩ := ih later
        exact ⟨ask :: front, r, back, rfl, none⟩

theorem doneAfter_of_requests {asks : List Ask} (none : requests asks = 0) :
    doneAfter inert done asks = done := by
  induction asks with
  | nil => rfl
  | cons ask asks ih =>
      cases ask with
      | request r => simp at none
      | ack n => exact ih (by simpa using none)

end

/-- The two ends of a channel that has got one more message. -/
theorem split_concat {β : Type} {asks front back : List β} {ask : β}
    (split : asks ++ [ask] = front ++ back) :
    back = [] ∨ ∃ rest, back = rest ++ [ask] ∧ asks = front ++ rest := by
  rcases List.eq_nil_or_concat back with rfl | ⟨rest, last, rfl⟩
  · exact .inl rfl
  · rw [List.concat_eq_append, ← List.append_assoc] at split
    have same : ask = last := by simpa using List.append_inj_right' split rfl
    exact .inr ⟨rest, by rw [same, List.concat_eq_append], List.append_inj_left' split rfl⟩

/-! ## The router's view of a link -/

/-- Where the router takes the upstream's cursor to be after one more result. -/
def expect (lr : LinkReq) (cursor : UpCursor) (h : ResultHead) : UpCursor :=
  match (classifyResult h cursor lr).n with
  | some n => .exact (nextBlock n)
  | none => cursor

/-- The same after all results in flight. -/
def expects (lr : LinkReq) (cursor : UpCursor) (inn : List Packet) : UpCursor :=
  inn.foldl (fun cursor packet => expect lr cursor packet.h) cursor

@[simp] theorem expects_cons (lr : LinkReq) (cursor : UpCursor) (packet : Packet)
    (inn : List Packet) :
    expects lr cursor (packet :: inn) = expects lr (expect lr cursor packet.h) inn := rfl

@[simp] theorem expects_concat (lr : LinkReq) (cursor : UpCursor) (inn : List Packet)
    (packet : Packet) :
    expects lr cursor (inn ++ [packet]) = expect lr (expects lr cursor inn) packet.h := by
  simp [expects]

/-- A result sent at block `k` takes the router at most to `k + 1`. -/
theorem expect_le {lr : LinkReq} {cursor : UpCursor} {h : ResultHead} {e : Fin (2 ^ 32)} {k : Nat}
    (after : expect lr cursor h = .exact e) (block : ∀ p ∈ h.thisBlock, p.num.val = k)
    (idless : h.thisBlock = none → ∀ n, cursor = .exact n → n.val ≤ k) : e.val ≤ k + 1 := by
  unfold expect at after
  cases this : h.thisBlock with
  | some p =>
      simp only [classifyResult_some this, UpCursor.exact.injEq] at after
      have next := nextBlock_val p.num
      have sent := block p this
      rw [← after]
      omega
  | none =>
      cases found : (classifyResult h cursor lr).n with
      | none =>
          rw [found] at after
          exact (idless this e after).trans (Nat.le_succ k)
      | some n =>
          simp only [found, UpCursor.exact.injEq] at after
          have := idless this n (classifyResult_idless this found).1
          have := nextBlock_val n
          rw [← after]
          omega

theorem commitLink_upCursor {st : LinkState} {lr : LinkReq} {h : ResultHead} {fw : Forward}
    (cls : fw.cls = classifyResult h st.upCursor lr) :
    (commitLink st h fw).upCursor = expect lr st.upCursor h := by
  simp only [commitLink, forward_next cls, expect, cls]
  cases (classifyResult h st.upCursor lr).n <;> rfl

/-- After a request the router knows the cursor only if no position can move
it. -/
theorem buildRequest_exact {c : ClientSide} {creq : BlocksRequest} {st : LinkState}
    {«end» k : Fin (2 ^ 32)} {purpose : Purpose} {target : Target}
    (known : (buildRequest c creq st «end» purpose target).2.upCursor = .exact k) :
    k = (buildRequest c creq st «end» purpose target).1.start ∧
      ∀ p ∈ (buildRequest c creq st «end» purpose target).1.havePositions,
        (buildRequest c creq st «end» purpose target).1.start ≤ p.num := by
  simp only [buildRequest] at known ⊢
  split at known
  · cases known
  · rename_i lowest
    cases known
    refine ⟨rfl, fun p member => ?_⟩
    simp only [List.min?_eq_none_iff, List.filter_eq_nil_iff, List.mem_map,
      decide_eq_true_eq, not_lt] at lowest
    exact lowest _ ⟨p, member, rfl⟩

section
variable {u : Upstream γ ν α} (hon : Honest u)

/-- Everything up to `front` is taken, and the connection is done. -/
def Socket.doneAfter (l : Socket ν) (front : List Ask) : Prop :=
  Net.doneAfter (Inert (hon.kind l.node) (hon.view l.node).lib) (hon.Done l.node) front

/-- The LIBs the router got and will get from a link, in order. -/
def Socket.libs (l : Socket ν) : List Nat :=
  (l.st.lastLib.toList ++ l.inn.map fun packet => packet.h.lib).map fun lib => lib.num.val

/-- The node has the link's request, and the router keeps up with it. -/
structure Socket.Arrived (l : Socket ν) (lr : LinkReq) : Prop where
  limit : (hon.kind l.node).legacy = false → (hon.view l.node).limit = lr.end.val
  /-- The router is not ahead of the node, unless a fork rewound the node to
  blocks it sends with their ids. -/
  tracks : (hon.kind l.node).legacy = false → ∀ e, expects lr l.st.upCursor l.inn = .exact e →
    e.val ≤ (hon.view l.node).cursor ∨
      (hon.kind l.node).role = .live ∧ (hon.kind l.node).first ≤ (hon.view l.node).cursor
  /-- A result that ends the request is the last one. -/
  ends : (hon.kind l.node).legacy = false → ∀ front q back e, l.inn = front ++ q :: back →
    expects lr l.st.upCursor (front ++ [q]) = .exact e → lr.end ≤ e →
    ((hon.kind l.node).role = .live → lr.end.val ≤ q.h.lib.num.val + 1) →
    back = [] ∧ hon.Done l.node
  ended : (hon.kind l.node).legacy = false → ∀ e, l.st.upCursor = .exact e → lr.end ≤ e →
    ((hon.kind l.node).role = .live →
      ∃ lib ∈ l.st.lastLib, lr.end.val ≤ lib.num.val + 1) →
    l.inn = [] ∧ hon.Done l.node

/-- What the router's memory of a link says about its node. -/
structure Socket.Tracked (l : Socket ν) : Prop where
  role : l.st.role = u.role l.node
  unasked : l.st.req = none → u.credit l.node = 0 ∧ l.out = [] ∧ l.inn = []
  /-- Nothing is sent while a request is on its way. -/
  quiet : ∀ front back, l.out = front ++ back → requests back ≠ 0 →
    l.doneAfter hon front ∨ balance (u.credit l.node).val front = 0
  kept : l.mutedUntil = l.sent + 1 → l.doneAfter hon l.out ∨ l.st.req = none
  gens : ∀ packet ∈ l.inn, packet.gen = l.sent
  libs : (hon.kind l.node).legacy = false →
    (l.libs ++ [(hon.view l.node).lib]).Pairwise (· ≤ ·)
  waits : ∀ lr ∈ l.st.req, ∀ front r back, l.out = front ++ .request r :: back →
    requests back = 0 → r.end = lr.end ∧
      ∀ k, l.st.upCursor = .exact k → k = r.start ∧ ∀ p ∈ r.havePositions, r.start ≤ p.num
  arrived : ∀ lr ∈ l.st.req, requests l.out = 0 → l.Arrived hon lr

end

namespace Socket.Arrived

variable {u : Upstream γ ν α} {hon : Honest u} {l : Socket ν} {lr : LinkReq}

/-- A new result is the last in flight, and where the router will be after it the
node already is. -/
theorem send (arrived : l.Arrived hon lr)
    {w : γ} {choice : α} {node : ν} {f : Frame}
    (sent : u.send w l.node choice = some (node, f)) :
    Socket.Arrived hon { l with node, inn := l.inn ++ [{ f with gen := l.taken }] } lr := by
  have kind := hon.kind_send w l.node choice node f sent
  have active : ¬hon.Done l.node := fun done => by
    rw [done.silent] at sent
    cases sent
  have view (modern : (hon.kind l.node).legacy = false) :=
    hon.view_send w l.node choice node f sent modern
  have next (modern : (hon.kind l.node).legacy = false) {e : Fin (2 ^ 32)}
      (known : expects lr l.st.upCursor (l.inn ++ [{ f with gen := l.taken }]) = .exact e) :
      e.val ≤ (hon.view l.node).cursor + 1 := by
    rw [expects_concat] at known
    refine expect_le known (hon.block_send w l.node choice node f sent modern) ?_
    intro idless n before
    rcases arrived.tracks modern n before with behind | ⟨live, named⟩
    · exact behind
    · have := hon.idless_send w l.node choice node f sent modern idless live
      omega
  refine ⟨?_, ?_, ?_, ?_⟩
  · intro modern
    rw [kind] at modern
    rw [view modern]
    exact arrived.limit modern
  · intro modern e known
    rw [kind] at modern
    simp only [view modern]
    exact .inl (next modern known)
  · intro modern front q back e split known reached final
    rw [kind] at modern final
    rcases split_concat split with wrong | ⟨rest, more, inside⟩
    · cases wrong
    · cases rest with
      | nil =>
          simp only [List.nil_append, List.cons.injEq] at more
          obtain ⟨rfl, rfl⟩ := more
          rw [List.append_nil] at inside
          rw [← inside] at known
          have at_end := next modern known
          have limit := arrived.limit modern
          refine ⟨rfl, by rw [kind]; exact modern, ?_, ?_⟩
          · simp only [view modern, limit]
            omega
          · intro live
            rw [kind] at live
            have := final live
            simp only [hon.lib_send w l.node choice node f sent modern] at this
            simp only [view modern, limit]
            exact this
      | cons _ rest =>
          simp only [List.cons_append, List.cons.injEq] at more
          obtain ⟨rfl, rfl⟩ := more
          exact absurd (arrived.ends modern front q rest e inside known reached final).2 active
  · intro modern e known reached final
    rw [kind] at modern final
    exact absurd (arrived.ended modern e known reached final).2 active

/-- The router reads the first result in flight. -/
theorem read (arrived : l.Arrived hon lr) {packet : Packet} {inn : List Packet}
    (first : l.inn = packet :: inn) {st : LinkState}
    (cursor : st.upCursor = expect lr l.st.upCursor packet.h)
    (recent : (hon.kind l.node).legacy = false →
      ∀ lib ∈ st.lastLib, lib.num ≤ packet.h.lib.num) :
    Socket.Arrived hon { l with st, inn } lr where
  limit := arrived.limit
  tracks := by simpa only [first, expects_cons, cursor] using arrived.tracks
  ends := by
    intro modern front q back e split known
    refine arrived.ends modern (packet :: front) q back e (first.trans (congrArg _ split)) ?_
    simpa only [List.cons_append, expects_cons, cursor] using known
  ended := by
    intro modern e known reached final
    refine arrived.ends modern [] packet inn e first (cursor.symm.trans known) reached ?_
    intro live
    obtain ⟨lib, isLast, high⟩ := final live
    exact high.trans (Nat.succ_le_succ (recent modern lib isLast))

end Socket.Arrived

namespace Socket.Tracked

variable {u : Upstream γ ν α} {hon : Honest u} {c : ClientSide} {l : Socket ν}

/-- The last LIB the router read is not above the node's. -/
theorem lastLib_le (tracked : l.Tracked hon) (modern : (hon.kind l.node).legacy = false)
    {lib : BlockPos} (last : lib ∈ l.st.lastLib) : lib.num.val ≤ (hon.view l.node).lib := by
  have sorted := (List.pairwise_append.mp (tracked.libs modern)).2.2
  refine sorted _ ?_ _ (List.mem_singleton_self _)
  simp only [Socket.libs, List.map_append, List.mem_append, List.mem_map, Option.mem_toList]
  exact .inl ⟨lib, last, rfl⟩

/-- What `settled` says about a node that is not of the legacy family. -/
theorem of_settled (tracked : l.Tracked hon) (ledger : l.Ledger u c) {legacy : Bool}
    (told : (hon.kind l.node).legacy = true → l.st.req.isSome →
      legacy = true ∨ 0 < l.st.keepalivesSeen)
    (isSettled : settled l.st legacy = true) :
    l.inn = [] ∧ (l.doneAfter hon l.out ∨ l.st.req = none) := by
  unfold settled at isSettled
  cases request : l.st.req with
  | none => exact ⟨(tracked.unasked request).2.2, .inr rfl⟩
  | some lr =>
      simp only [request] at isSettled
      cases cursor : l.st.upCursor with
      | uncertain lo hi => simp [cursor] at isSettled
      | exact e =>
          simp only [cursor, Bool.if_false_right, Bool.and_eq_true, decide_eq_true_eq] at isSettled
          obtain ⟨reached, final⟩ := isSettled
          have role : l.st.role = (hon.kind l.node).role := by
            rw [tracked.role, hon.role_kind]
          rw [role] at final
          have modern : (hon.kind l.node).legacy = false := by
            by_contra old
            have old : (hon.kind l.node).legacy = true := by simpa using old
            rw [hon.legacy_live _ old] at final
            simp only [Bool.and_eq_true, beq_iff_eq, Bool.not_eq_true'] at final
            rcases told old (by simp [request]) with flag | seen
            · simp [flag] at final
            · omega
          have lastLib : (hon.kind l.node).role = .live →
              ∃ lib ∈ l.st.lastLib, lr.end.val ≤ lib.num.val + 1 := by
            intro live
            simp only [live, Bool.and_eq_true, Option.any_eq_true, decide_eq_true_eq] at final
            exact final.1.1
          by_cases arrived : requests l.out = 0
          · obtain ⟨empty, done⟩ :=
              (tracked.arrived lr request arrived).ended modern e cursor reached lastLib
            refine ⟨empty, .inl ?_⟩
            rwa [Socket.doneAfter, doneAfter_of_requests arrived]
          · obtain ⟨front, r, back, split, last⟩ := exists_last_request arrived
            obtain ⟨sameEnd, start⟩ := tracked.waits lr request front r back split last
            obtain ⟨rfl, unmoved⟩ := start e cursor
            have inert : Inert (hon.kind l.node) (hon.view l.node).lib r := by
              refine ⟨modern, by rwa [sameEnd], unmoved, fun live => ?_⟩
              obtain ⟨lib, known, high⟩ := lastLib live
              have := tracked.lastLib_le modern known
              rw [sameEnd]
              omega
            refine ⟨ledger.inn_eq_nil arrived, .inl ?_⟩
            rwa [Socket.doneAfter, split, doneAfter_append, doneAfter_request,
              doneAfter_of_requests last]

/-- A link that is done with everything before its next request, or out of
credit until then, sends nothing. -/
theorem silent (tracked : l.Tracked hon) (pending : requests l.out ≠ 0) (w : γ) (a : α) :
    u.send w l.node a = none := by
  rcases tracked.quiet [] l.out rfl pending with done | dry
  · exact Honest.Done.silent done w a
  · cases sent : u.send w l.node a with
    | none => rfl
    | some pair =>
        have paid := u.credit_send w l.node a pair.1 pair.2 sent
        simp only [balance_nil] at dry
        omega

/-- A node that sends has taken every request on its way. -/
theorem no_requests (tracked : l.Tracked hon) {w : γ} {choice : α} {l' : Socket ν}
    (sent : l.nodeSend u w choice = some l') : requests l.out = 0 := by
  by_contra pending
  simp [Socket.nodeSend, tracked.silent pending] at sent

theorem new (st : LinkState) (noRequest : st.req = none) (noLib : st.lastLib = none) {node : ν}
    (role : st.role = u.role node) (dry : u.credit node = 0) :
    (Socket.new st node).Tracked hon where
  role := role
  unasked := fun _ => ⟨dry, rfl, rfl⟩
  quiet := by
    intro front back split
    simp [(List.append_eq_nil_iff.mp split.symm).2]
  kept := fun _ => .inr noRequest
  gens := by simp [Socket.new]
  libs := fun _ => by simp [Socket.libs, Socket.new, noLib]
  waits := by simp [Socket.new, noRequest]
  arrived := by simp [Socket.new, noRequest]

theorem sendAck (tracked : l.Tracked hon) (n : Fin (2 ^ 32)) : (l.sendAck n).Tracked hon := by
  unfold Socket.sendAck
  split
  · rename_i passed
    refine ⟨tracked.role, ?_, ?_, ?_, tracked.gens, tracked.libs, ?_, ?_⟩
    · intro none
      simp only at none
      simp [none] at passed
    · intro front back split some
      rcases split_concat split with rfl | ⟨rest, rfl, before⟩
      · simp at some
      · exact tracked.quiet front rest before (by simpa using some)
    · intro muted
      refine (tracked.kept muted).imp_left fun done => ?_
      simpa [Socket.doneAfter, doneAfter_append] using done
    · intro lr request front r back split last
      obtain ⟨rest, inside, same⟩ := split_concat_ack split
      exact tracked.waits lr request front r rest inside (same.symm.trans last)
    · intro lr request none
      have arrived := tracked.arrived lr request (by simpa using none)
      exact ⟨arrived.limit, arrived.tracks, arrived.ends, arrived.ended⟩
  · exact tracked

/-- A request goes to a link that is done, or out of credit. -/
theorem sendRequest (tracked : l.Tracked hon) (empty : l.inn = []) {pre : Fin (2 ^ 32)}
    (spent : l.doneAfter hon l.out ∨ balance (u.credit l.node).val l.out = 0)
    (c : ClientSide) (creq : BlocksRequest) («end» : Fin (2 ^ 32)) (purpose : Purpose)
    (target : Target) (bounded : l.mutedUntil ≤ l.sent + 1) :
    (l.sendRequest c creq pre «end» purpose target).Tracked hon := by
  refine ⟨tracked.role, nofun, ?_, ?_, ?_, tracked.libs, ?_, ?_⟩
  · intro front back split some
    rcases split_concat split with rfl | ⟨rest, rfl, before⟩
    · simp at some
    · by_cases later : requests rest = 0
      · rw [before] at spent
        rw [Socket.doneAfter, doneAfter_append, doneAfter_of_requests later,
          balance_append, balance_of_requests later] at spent
        exact spent.imp_right fun dry => by
          simp only [Socket.sendRequest]
          omega
      · exact tracked.quiet front rest before later
  · intro muted
    simp only [Socket.sendRequest] at muted
    split at muted <;> omega
  · intro packet member
    simp [Socket.sendRequest, empty] at member
  · rintro lr ⟨⟩ front r back split last
    obtain rfl := eq_of_last_request split last
    exact ⟨rfl, fun k known => buildRequest_exact known⟩
  · intro lr _ none
    simp [Socket.sendRequest] at none

/-- A settled socket may be kept. -/
theorem keep (tracked : l.Tracked hon) (spent : l.doneAfter hon l.out ∨ l.st.req = none) :
    Tracked hon
      { l with
        st := { l.st with resumeFloor := none }
        serving := false
        mutedUntil := l.sent + 1 } where
  role := tracked.role
  unasked := tracked.unasked
  quiet := tracked.quiet
  kept := fun _ => spent
  gens := tracked.gens
  libs := tracked.libs
  waits := tracked.waits
  arrived := fun lr request none =>
    let arrived := tracked.arrived lr request none
    ⟨arrived.limit, arrived.tracks, arrived.ends, arrived.ended⟩

/-- The chain moves and the node follows. -/
theorem follow (tracked : l.Tracked hon) (w : γ) (a : α) :
    Tracked hon { l with node := u.follow w a l.node } := by
  have kind := hon.kind_follow w a l.node
  have after {front : List Ask} (done : l.doneAfter hon front) :
      Socket.doneAfter hon { l with node := u.follow w a l.node } front := by
    refine doneAfter_mono (fun r inert => ?_) (fun now => now.follow w a) done
    rw [kind]
    exact inert.mono (hon.lib_follow w a l.node)
  refine ⟨?_, ?_, ?_, ?_, tracked.gens, ?_, tracked.waits, ?_⟩
  · rw [tracked.role, ← hon.role_kind, ← hon.role_kind, kind]
  · simpa only [u.credit_follow] using tracked.unasked
  · intro front back split some
    simp only [u.credit_follow]
    exact (tracked.quiet front back split some).imp_left after
  · exact fun muted => (tracked.kept muted).imp_left after
  · intro modern
    rw [kind] at modern
    have sorted := List.pairwise_append.mp (tracked.libs modern)
    refine List.pairwise_append.mpr ⟨sorted.1, List.pairwise_singleton _ _, ?_⟩
    intro lib member own isOwn
    rw [List.mem_singleton.mp isOwn]
    exact (sorted.2.2 lib member _ (List.mem_singleton_self _)).trans (hon.lib_follow w a l.node)
  · intro lr request none
    have arrived := tracked.arrived lr request none
    refine ⟨?_, ?_, ?_, ?_⟩
    · simpa only [kind, hon.limit_follow] using arrived.limit
    · intro modern e known
      simp only [kind] at modern ⊢
      have rooted := hon.rooted l.node
      rcases arrived.tracks modern e known with behind | ⟨live, named⟩
      · rcases hon.cursor_follow w a l.node with forth | ⟨live, above⟩
        · exact .inl (behind.trans forth)
        · exact .inr ⟨live, by omega⟩
      · rcases hon.cursor_follow w a l.node with forth | ⟨-, above⟩
        · exact .inr ⟨live, named.trans forth⟩
        · exact .inr ⟨live, by omega⟩
    · intro modern front q back e split known reached final
      simp only [kind] at modern final
      obtain ⟨empty, done⟩ := arrived.ends modern front q back e split known reached final
      exact ⟨empty, done.follow w a⟩
    · intro modern e known reached final
      simp only [kind] at modern final
      obtain ⟨empty, done⟩ := arrived.ended modern e known reached final
      exact ⟨empty, done.follow w a⟩

/-- The node takes the request the router has sent last. -/
theorem arrive (tracked : l.Tracked hon) (empty : l.inn = []) {r : BlocksRequest}
    {out : List Ask} (split : l.out = .request r :: out) (last : requests out = 0)
    {lr : LinkReq} (request : lr ∈ l.st.req) (w : γ) :
    Socket.Arrived hon
      { l with node := u.onRequest w l.node r, out, taken := l.taken + 1 } lr := by
  obtain ⟨sameEnd, start⟩ := tracked.waits lr request [] r out split last
  have kind := hon.kind_onRequest w l.node r
  refine ⟨?_, ?_, ?_, ?_⟩
  · intro _
    rw [hon.limit_onRequest, sameEnd]
  · intro _ e known
    simp only [empty, expects, List.foldl_nil] at known
    obtain ⟨rfl, unmoved⟩ := start e known
    exact .inl (hon.cursor_onRequest w l.node r unmoved)
  · intro _ front q back e inside
    simp only [empty] at inside
    simp at inside
  · intro modern e known reached final
    simp only [kind] at modern final
    obtain ⟨rfl, unmoved⟩ := start e known
    refine ⟨empty, Honest.Done.of_inert ⟨modern, by rwa [sameEnd], unmoved, fun live => ?_⟩ w⟩
    obtain ⟨lib, isLast, high⟩ := final live
    have := tracked.lastLib_le modern isLast
    rw [sameEnd]
    omega

theorem nodeTake (tracked : l.Tracked hon) (ledger : l.Ledger u c) {w : γ} {l' : Socket ν}
    (taken : l.nodeTake u w = some l') : l'.Tracked hon := by
  rcases Socket.nodeTake_cases taken with ⟨r, out, split, rfl⟩ | ⟨n, out, split, rfl⟩
  · have kind := hon.kind_onRequest w l.node r
    have lib := hon.lib_onRequest w l.node r
    have empty : l.inn = [] := ledger.inn_eq_nil (by simp [split])
    have after {front : List Ask} (done : l.doneAfter hon (.request r :: front)) :
        Socket.doneAfter hon
          { l with node := u.onRequest w l.node r, out, taken := l.taken + 1 } front := by
      refine doneAfter_mono (fun q inert => ?_) (fun now => Honest.Done.of_inert now w) done
      rwa [kind, lib]
    refine ⟨?_, ?_, ?_, ?_, tracked.gens, ?_, ?_, ?_⟩
    · rw [tracked.role, ← hon.role_kind, ← hon.role_kind, kind]
    · intro none
      simp [(tracked.unasked none).2.1] at split
    · intro front back inside some
      rw [u.credit_onRequest]
      exact (tracked.quiet (.request r :: front) back
        (split.trans (congrArg _ inside)) some).imp_left
        after
    · intro muted
      refine (tracked.kept muted).imp_left fun done => ?_
      rw [split] at done
      exact after done
    · simpa only [kind, lib, Socket.libs] using tracked.libs
    · intro lr request front q back inside
      exact tracked.waits lr request (.request r :: front) q back (split.trans (congrArg _ inside))
    · intro lr request last
      exact tracked.arrive empty split last request w
  · have kind := hon.kind_onAck l.node n
    have view := hon.view_onAck l.node n
    have after {front : List Ask} (done : l.doneAfter hon (.ack n :: front)) :
        Socket.doneAfter hon { l with node := u.onAck l.node n, out } front := by
      refine doneAfter_mono (fun q inert => ?_) (fun now => now.onAck n) done
      rwa [kind, view]
    refine ⟨?_, ?_, ?_, ?_, tracked.gens, ?_, ?_, ?_⟩
    · rw [tracked.role, ← hon.role_kind, ← hon.role_kind, kind]
    · intro none
      simp [(tracked.unasked none).2.1] at split
    · intro front back inside some
      refine (tracked.quiet (.ack n :: front) back (split.trans (congrArg _ inside)) some).imp
        after fun dry => ?_
      have le : (u.credit (u.onAck l.node n)).val ≤ (u.credit l.node).val + n.val := by
        rw [u.credit_onAck, Fin.val_add]
        exact Nat.mod_le _ _
      exact Nat.le_zero.mp (dry ▸ balance_mono le front)
    · intro muted
      refine (tracked.kept muted).imp_left fun done => ?_
      rw [split] at done
      exact after done
    · simpa only [kind, view, Socket.libs] using tracked.libs
    · intro lr request front q back inside
      exact tracked.waits lr request (.ack n :: front) q back (split.trans (congrArg _ inside))
    · intro lr request last
      have arrived := tracked.arrived lr request (by simpa [split] using last)
      refine ⟨?_, ?_, ?_, ?_⟩
      · simpa only [kind, view] using arrived.limit
      · simpa only [kind, view] using arrived.tracks
      · simpa only [kind, view, Honest.Done] using arrived.ends
      · simpa only [kind, view, Honest.Done] using arrived.ended

theorem nodeSend (tracked : l.Tracked hon) (ledger : l.Ledger u c) {w : γ} {choice : α}
    {l' : Socket ν} (sent : l.nodeSend u w choice = some l') : l'.Tracked hon := by
  simp only [Socket.nodeSend, Option.map_eq_some_iff] at sent
  obtain ⟨⟨node, f⟩, sends, rfl⟩ := sent
  have kind := hon.kind_send _ _ _ _ _ sends
  have none : requests l.out = 0 := by
    by_contra pending
    rw [tracked.silent pending] at sends
    cases sends
  refine ⟨?_, ?_, ?_, ?_, ?_, ?_, ?_, ?_⟩
  · rw [tracked.role, ← hon.role_kind, ← hon.role_kind, kind]
  · intro unasked
    have paid := u.credit_send _ _ _ _ _ sends
    simp [(tracked.unasked unasked).1] at paid
  · intro front back split some
    simp only at split
    simp [split, some] at none
  · intro muted
    refine (tracked.kept muted).imp_left fun done => ?_
    rw [Socket.doneAfter, doneAfter_of_requests none] at done
    rw [done.silent] at sends
    cases sends
  · intro packet member
    rcases List.mem_append.mp member with old | new
    · exact tracked.gens packet old
    · rw [List.mem_singleton.mp new]
      have := ledger.counted
      simp only
      omega
  · intro modern
    rw [kind] at modern
    have sorted := tracked.libs modern
    have lib := hon.lib_send _ _ _ _ _ sends modern
    have libs : Socket.libs { l with node, inn := l.inn ++ [{ f with gen := l.taken }] } =
        l.libs ++ [(hon.view l.node).lib] := by
      simp [Socket.libs, lib]
    rw [libs, hon.view_send _ _ _ _ _ sends modern]
    refine List.pairwise_append.mpr ⟨sorted, List.pairwise_singleton _ _, ?_⟩
    intro low member own isOwn
    rw [List.mem_singleton.mp isOwn]
    rcases List.mem_append.mp member with old | new
    · exact (List.pairwise_append.mp sorted).2.2 low old _ (List.mem_singleton_self _)
    · exact (List.mem_singleton.mp new).le
  · intro lr _ front r back split
    simp only at split
    simp [split] at none
  · intro lr request _
    exact (tracked.arrived lr request none).send sends

/-- The router does not count on silence while the node sends. -/
theorem heard (tracked : l.Tracked hon) (ledger : l.Ledger u c) {w : γ} {choice : α}
    {l' : Socket ν} (sent : l.nodeSend u w choice = some l') : l.muted = false := by
  obtain ⟨⟨node, f⟩, sends, -⟩ := Option.map_eq_some_iff.mp sent
  by_contra muted
  have muted : l.taken < l.mutedUntil := by simpa [Socket.muted] using muted
  have counted := ledger.counted
  have bounded := ledger.bounded
  by_cases pending : requests l.out = 0
  · rcases tracked.kept (by omega) with done | unasked
    · rw [Socket.doneAfter, doneAfter_of_requests pending] at done
      rw [done.silent] at sends
      cases sends
    · have paid := u.credit_send _ _ _ _ _ sends
      simp [(tracked.unasked unasked).1] at paid
  · rw [tracked.silent pending] at sends
    cases sends

theorem read (tracked : l.Tracked hon) (ledger : l.Ledger u c) {packet : Packet}
    {inn : List Packet} (first : l.inn = packet :: inn) (st : LinkState)
    (role : st.role = l.st.role) (request : st.req = l.st.req)
    (cursor : ∀ lr ∈ l.st.req, st.upCursor = expect lr l.st.upCursor packet.h)
    (lastLib : st.lastLib = some packet.h.lib ∨ st.lastLib = l.st.lastLib) :
    Tracked hon { l with st, inn } := by
  have none : requests l.out = 0 := ledger.no_requests (by simp [first])
  have sorted (modern : (hon.kind l.node).legacy = false) := tracked.libs modern
  simp only [Socket.libs, first, List.map_append, List.map_cons] at sorted
  refine ⟨role.trans tracked.role, ?_, tracked.quiet, ?_, ?_, ?_, ?_, ?_⟩
  · intro unasked
    simp [(tracked.unasked (request.symm.trans unasked)).2.2] at first
  · intro muted
    exact (tracked.kept muted).imp_right request.trans
  · intro other member
    exact tracked.gens other (by simp [first, member])
  · intro modern
    refine (sorted modern).sublist ?_
    simp only [Socket.libs, List.map_append]
    rcases lastLib with new | old
    · simp [new]
    · simp [old]
  · intro lr _ front r back split
    simp only at split
    simp [split] at none
  · intro lr isRequest _
    rw [request] at isRequest
    refine (tracked.arrived lr isRequest none).read first (cursor lr isRequest) ?_
    intro modern lib isLast
    rcases lastLib with new | old
    · rw [new] at isLast
      cases isLast
      exact le_rfl
    · rw [old] at isLast
      have := (List.pairwise_append.mp (List.pairwise_append.mp (sorted modern)).1).2.2
      exact this lib.num.val (List.mem_map.mpr ⟨lib, by simpa using isLast, rfl⟩)
        packet.h.lib.num.val (by simp)

end Socket.Tracked

end FleetRouter.Net
