import FleetRouter.Net.Chain

/-!
# Empty requests

The router does not forward a request that ends at or below its start and names no
block below its end, since no node would ever answer it.  A fork takes a node's
cursor back to any block above the LIB, though: such a request is never answered
exactly if it ends at or below the block after the LIB.
-/

namespace FleetRouter.Net

open Ship Session Transition

variable {κ : Type} {w : Chain κ} {x : Node} {r : BlocksRequest}

/-! ## Where a node goes -/

/-- The node of an empty request starts at or above its end. -/
theorem Node.end_le_startFor {b : Branches κ}
    (empty : requestIsEmpty r = true) : r.end ≤ x.startFor b w r := by
  simp only [requestIsEmpty, Bool.and_eq_true, decide_eq_true_eq, Bool.not_eq_true',
    List.any_eq_false] at empty
  obtain ⟨ends, high⟩ := empty
  rw [min_eq_right ends] at high
  rcases lt_or_ge (x.startFor b w r) r.start with below | above
  · obtain ⟨p, member, low⟩ := Node.exists_position b w below
    exact (not_lt.mp (high p member)).trans low
  · exact ends.trans above

/-- A live node that has caught up with the chain. -/
theorem Node.follow_tip (live : x.role = .live) (head : x.head ≤ w.head) (lib : x.lib ≤ w.lib) :
    (x.follow w (.tip w.head w.lib)).head = w.head ∧ (x.follow w (.tip w.head w.lib)).lib = w.lib ∧
      (x.follow w (.tip w.head w.lib)).cursor = x.cursor ∧
      (x.follow w (.tip w.head w.lib)).req = x.req ∧
      (x.follow w (.tip w.head w.lib)).credit = x.credit := by
  have grows : x.role = .live ∧ x.head ≤ w.head ∧ w.head ≤ w.head ∧ x.lib ≤ w.lib ∧
      w.lib ≤ w.lib ∧ w.lib ≤ w.head ∧ w.head.val ≤ w.lib.val + maxReversible :=
    ⟨live, head, le_rfl, lib, le_rfl, w.ordered, w.shallow⟩
  rw [follow, dif_pos grows]
  exact ⟨rfl, rfl, rfl, rfl, rfl⟩

/-- A node with credit whose cursor is at its LIB, below the end, sends. -/
theorem Node.exists_send {b : Branches κ} (request : x.req = some r)
    (credit : x.credit ≠ 0) (gated : x.cursor ≤ x.lib) (below : x.cursor < r.end) :
    ∃ x' f, x.send b w .result = some (x', f) := by
  have gate : x.cursor ≤ x.gate r := by
    unfold Node.gate
    split
    · exact gated
    · exact gated.trans x.ordered
  have due : x.credit.val ≠ 0 ∧ x.due r = true := by
    refine ⟨fun zero => credit (Fin.ext zero), ?_⟩
    simp [Node.due, gate, below]
  have sends : (x.send b w .result).isSome = true := by simp [Node.send, request, due]
  obtain ⟨⟨x', f⟩, sends⟩ := Option.isSome_iff_exists.mp sends
  exact ⟨x', f, sends⟩

variable [DecidableEq κ]

/-! ## One node and its client -/

/-- A node that serves one connection, and the results it has sent. -/
structure Solo (κ : Type) where
  world : Chain κ
  node : Node
  sent : List Frame

inductive SoloEvent (κ : Type) where
  | evolve (choice : Choice κ)
  | ack (n : Fin (2 ^ 32))
  | send

namespace Solo

variable (b : Branches κ)

def step (s : Solo κ) : SoloEvent κ → Option (Solo κ)
  | .evolve choice => (s.world.evolve choice).map fun world =>
      { s with world, node := s.node.follow s.world choice }
  | .ack n => some { s with node := s.node.onAck n }
  | .send => (s.node.send b s.world .result).map fun (node, f) =>
      { s with node, sent := s.sent ++ [f] }

def machine (start : Solo κ) : Machine (Solo κ) (SoloEvent κ) where
  init := (· = start)
  step := step b

/-- The node has just taken a request. -/
def asked (w : Chain κ) (x : Node) (r : BlocksRequest) : Solo κ where
  world := w
  node := x.onRequest b w r
  sent := []

/-- The node was given nothing. -/
def idle (w : Chain κ) (x : Node) : Solo κ where
  world := w
  node := x
  sent := []

/-- The node never sends a result for the request. -/
def Unanswered (w : Chain κ) (x : Node) (r : BlocksRequest) : Prop :=
  ∀ s, Reachable (machine b (asked b w x r)) (fun _ _ => True) s → s.sent = []

/-- The results the client may have got. -/
def Observes (start : Solo κ) (frames : List Frame) : Prop :=
  ∃ s, Reachable (machine b start) (fun _ _ => True) s ∧ s.sent = frames

/-- The client cannot tell the two nodes apart. -/
def Indistinguishable (start start' : Solo κ) : Prop :=
  ∀ frames, Observes b start frames ↔ Observes b start' frames

end Solo

/-! ## What the router does with an empty request -/

/-- What a pool session does about an empty request. -/
inductive EmptyStep where
  /-- Send it on the link, to stop the link's old request. -/
  | forward
  /-- Retire the link and dial its upstream again; nothing is sent on the new link. -/
  | redial
  /-- Send nothing. -/
  | rest
  deriving DecidableEq, Repr

def emptyStep (link : Option LinkState) (preCredit : Fin (2 ^ 32)) (legacy : Bool) : EmptyStep :=
  match link with
  | some st =>
      if st.req.isSome then if quiescent st preCredit legacy then .forward else .redial else .rest
  | none => .rest

/-- The node behind the router, once an empty request was handled. -/
def Solo.routed (b : Branches κ) (w : Chain κ) (x : Node) (r : BlocksRequest) : EmptyStep → Solo κ
  | .forward => .asked b w x r
  | .redial | .rest => .idle w x

/-! ## A request that is never answered -/

namespace Solo

variable {b : Branches κ}

/-- How the chain moves: the LIB does not go back and forks are above it. -/
theorem evolve_lib {w w' : Chain κ} {a : Choice κ} (evolves : w.evolve a = some w') :
    w.lib ≤ w'.lib ∧ ∀ start branch, a = .fork start branch → w.lib < start := by
  cases a with
  | advance head lib =>
      simp only [Chain.evolve] at evolves
      split at evolves
      · rename_i grows
        cases evolves
        exact ⟨grows.2.1, by simp⟩
      · cases evolves
  | fork start branch =>
      simp only [Chain.evolve] at evolves
      split at evolves
      · rename_i new
        cases evolves
        refine ⟨le_rfl, fun _ _ same => ?_⟩
        cases same
        exact new.1
      · cases evolves
  | tip head lib =>
      cases evolves
      exact ⟨le_rfl, by simp⟩
  | result => cases evolves
  | keepAlive => cases evolves

/-- The node has nothing to send for its request, and no fork brings it back below
the end. -/
structure Spent (r : BlocksRequest) (s : Solo κ) : Prop where
  request : s.node.req = some r
  reached : r.end ≤ s.node.cursor
  final : r.end.val ≤ s.world.lib.val + 1
  silent : s.sent = []

theorem Spent.evolve {s : Solo κ} (spent : Spent r s) {a : Choice κ}
    {world : Chain κ} (evolves : s.world.evolve a = some world) :
    Spent r { s with world, node := s.node.follow s.world a } := by
  obtain ⟨-, -, -, request, -, cursor⟩ := Node.follow_cases s.world a s.node
  obtain ⟨grows, above⟩ := evolve_lib evolves
  refine ⟨request.trans spent.request, ?_, ?_, spent.silent⟩
  · rcases cursor with same | ⟨-, -, branch, fork, -⟩
    · exact same ▸ spent.reached
    · have forked : s.world.lib < (s.node.follow s.world a).cursor := above _ _ fork
      have final := spent.final
      show r.end ≤ (s.node.follow s.world a).cursor
      omega
  · have final := spent.final
    show r.end.val ≤ world.lib.val + 1
    omega

theorem Spent.of_reachable {start s : Solo κ} (spent : Spent r start)
    (reachable : Reachable (machine b start) (fun _ _ => True) s) : Spent r s := by
  induction reachable with
  | start isInitial => exact isInitial ▸ spent
  | @next s s' e _ _ step ih =>
      cases e with
      | evolve a =>
          obtain ⟨world, evolves, rfl⟩ := Option.map_eq_some_iff.mp step
          exact ih.evolve evolves
      | ack n =>
          cases step
          exact { ih with }
      | send =>
          obtain ⟨⟨node, f⟩, sent, -⟩ := Option.map_eq_some_iff.mp step
          obtain ⟨q, request, due⟩ := Option.bind_eq_some_iff.mp sent
          cases ih.request.symm.trans request
          simp only [Option.dite_none_right_eq_some] at due
          obtain ⟨⟨-, due⟩, -⟩ := due
          simp only [Node.due, Bool.and_eq_true, decide_eq_true_eq] at due
          exact absurd ih.reached (not_le.mpr due.2)

/-- A node without a request sends nothing. -/
theorem idle_silent (noRequest : x.req = none) {s : Solo κ}
    (reachable : Reachable (machine b (idle w x)) (fun _ _ => True) s) : s.sent = [] := by
  have kept : s.node.req = none ∧ s.sent = [] := by
    induction reachable with
    | start isInitial =>
        cases isInitial
        exact ⟨noRequest, rfl⟩
    | @next s s' e _ _ step ih =>
        cases e with
        | evolve a =>
            obtain ⟨world, -, rfl⟩ := Option.map_eq_some_iff.mp step
            obtain ⟨-, -, -, request, -⟩ := Node.follow_cases s.world a s.node
            exact ⟨request.trans ih.1, ih.2⟩
        | ack n =>
            cases step
            exact ih
        | send =>
            obtain ⟨pair, sent, -⟩ := Option.map_eq_some_iff.mp step
            obtain ⟨q, request, -⟩ := Option.bind_eq_some_iff.mp sent
            cases ih.1.symm.trans request
  exact kept.2

/-! ## A request that a fork brings back -/

theorem exists_advance (w : Chain κ) (head lib : Fin (2 ^ 32))
    (grows : w.head ≤ head ∧ w.lib ≤ lib ∧ lib ≤ head ∧ head.val ≤ lib.val + maxReversible) :
    ∃ w', w.evolve (.advance head lib) = some w' ∧ w'.head = head ∧ w'.lib = lib ∧
      w'.genesis = w.genesis ∧ w'.forks = w.forks :=
  ⟨_, dif_pos grows, rfl, rfl, rfl, rfl⟩

theorem exists_fork (w : Chain κ) (start : Fin (2 ^ 32)) (branch : κ) (above : w.lib < start)
    (unused : branch ∉ w.genesis :: w.forks.map Prod.snd) :
    ∃ w', w.evolve (.fork start branch) = some w' ∧ w'.head = w.head ∧ w'.lib = w.lib := by
  simp only [List.mem_cons, not_or] at unused
  exact ⟨_, dif_pos ⟨above, unused⟩, rfl, rfl⟩

/-- The chain forks right above its LIB, which takes the node back below the end of
its request. -/
theorem exists_rewound (live : x.role = .live) (lib : x.lib ≤ w.lib)
    (empty : requestIsEmpty r = true) (beyond : w.lib.val + 1 < r.end.val) {branch : κ}
    (unused : branch ∉ w.genesis :: w.forks.map Prod.snd) :
    ∃ world above, Reachable (machine b (asked b w x r)) (fun _ _ => True)
        ⟨world, { x.onRequest b w r with cursor := above }, []⟩ ∧
      above.val = world.lib.val + 1 ∧ world.lib = w.lib ∧ w.head ≤ world.head ∧
      above ≤ world.head := by
  let above : Fin (2 ^ 32) := ⟨w.lib.val + 1, by omega⟩
  have isAbove : w.lib < above := Nat.lt_succ_self _
  have higher : (max w.head above).val ≤ w.lib.val + maxReversible := by
    rcases max_choice w.head above with same | same <;> rw [same]
    · exact w.shallow
    · show w.lib.val + 1 ≤ w.lib.val + maxReversible
      exact Nat.add_le_add_left (by decide) _
  obtain ⟨w₁, grown, head₁, lib₁, genesis₁, forks₁⟩ := exists_advance w (max w.head above) w.lib
    ⟨le_max_left _ _, le_rfl, w.ordered.trans (le_max_left _ _), higher⟩
  obtain ⟨w₂, forked, head₂, lib₂⟩ := exists_fork w₁ above branch (lib₁ ▸ isAbove)
    (by rwa [genesis₁, forks₁])
  have passed : above < (x.onRequest b w r).cursor :=
    lt_of_lt_of_le (show above < r.end from beyond) (Node.end_le_startFor empty)
  have rewound : (x.onRequest b w r).follow w₁ (.fork above branch) =
      { x.onRequest b w r with cursor := above } := by
    apply if_pos
    simp only [Bool.and_eq_true, decide_eq_true_eq]
    exact ⟨⟨live, passed⟩, lib.trans_lt isAbove⟩
  have start : Reachable (machine b (asked b w x r)) (fun _ _ => True)
      ⟨w₁, x.onRequest b w r, []⟩ := by
    apply Reachable.next (e := .evolve (.advance (max w.head above) w.lib)) (.start rfl) trivial
    simp [machine, step, asked, grown, Node.follow]
  refine ⟨w₂, above, ?_, ?_, lib₂.trans lib₁, ?_, ?_⟩
  · apply start.next (e := .evolve (.fork above branch)) trivial
    simp [machine, step, forked, rewound]
  · rw [lib₂, lib₁]
  · exact (le_max_left _ _).trans (head₂.trans head₁).ge
  · exact (le_max_right _ _).trans (head₂.trans head₁).ge

/-- A node whose cursor is right above the LIB sends, once that block is irreversible
and the node has caught up. -/
theorem exists_sent {start : Solo κ}
    (reachable : Reachable (machine b start) (fun _ _ => True) ⟨w, x, []⟩)
    (live : x.role = .live) (lib : x.lib ≤ w.lib) (head : x.head ≤ w.head)
    (request : x.req = some r) (next : x.cursor.val = w.lib.val + 1) (has : x.cursor ≤ w.head)
    (below : x.cursor < r.end) :
    ∃ s, Reachable (machine b start) (fun _ _ => True) s ∧ s.sent ≠ [] := by
  have isAbove : w.lib < x.cursor := Fin.lt_def.mpr (next ▸ Nat.lt_succ_self _)
  obtain ⟨w', settles, head', lib', -⟩ := exists_advance w w.head x.cursor
    ⟨le_rfl, isAbove.le, has, w.shallow.trans (Nat.add_le_add_right isAbove.le _)⟩
  have settled : Reachable (machine b start) (fun _ _ => True) ⟨w', x, []⟩ := by
    apply reachable.next (e := .evolve (.advance w.head x.cursor)) trivial
    simp [machine, step, settles, Node.follow]
  obtain ⟨-, lib'', cursor, request', credit⟩ := Node.follow_tip (w := w') live
    (head.trans head'.ge) (lib.trans (isAbove.le.trans lib'.ge))
  have caughtUp : Reachable (machine b start) (fun _ _ => True)
      ⟨w', x.follow w' (.tip w'.head w'.lib), []⟩ := by
    apply settled.next (e := .evolve (.tip w'.head w'.lib)) trivial
    simp [machine, step, Chain.evolve]
  -- the client adds credit only if the node has none
  let n : Fin (2 ^ 32) := if x.credit = 0 then 1 else 0
  let x' := (x.follow w' (.tip w'.head w'.lib)).onAck n
  have acked : Reachable (machine b start) (fun _ _ => True) ⟨w', x', []⟩ :=
    caughtUp.next (e := .ack n) trivial rfl
  have paid : x'.credit ≠ 0 := by
    show (x.follow w' (.tip w'.head w'.lib)).credit + n ≠ 0
    rw [credit]
    by_cases zero : x.credit = 0
    · simp [n, zero]
    · simp [n, zero]
  have gated : x'.cursor ≤ x'.lib := (cursor.trans (lib''.trans lib').symm).le
  obtain ⟨_, f, sends⟩ := Node.exists_send (b := b) (w := w') (x := x') (request'.trans request)
    paid gated (cursor.trans_lt below)
  refine ⟨_, acked.next (e := .send) trivial (Option.map_eq_some_iff.mpr ⟨_, sends, rfl⟩), ?_⟩
  simp

/-! ## Forwarding an empty request or not -/

theorem emptyStep_idle {st : LinkState} (noRequest : st.req = none) (preCredit : Fin (2 ^ 32))
    (legacy : Bool) : emptyStep (some st) preCredit legacy = .rest := by
  simp [emptyStep, noRequest]

/-- Next to a silent node, a node is told apart exactly if it answers. -/
theorem indistinguishable_iff {start : Solo κ} (fresh : start.sent = [])
    (silent : ∀ s, Reachable (machine b start) (fun _ _ => True) s → s.sent = []) :
    Indistinguishable b (asked b w x r) start ↔ Unanswered b w x r := by
  constructor
  · intro same s reachable
    obtain ⟨s', reachable', sent⟩ := (same s.sent).mp ⟨s, reachable, rfl⟩
    exact sent ▸ silent s' reachable'
  · intro unanswered frames
    constructor
    · rintro ⟨s, reachable, rfl⟩
      exact ⟨start, .start rfl, fresh.trans (unanswered s reachable).symm⟩
    · rintro ⟨s, reachable, rfl⟩
      exact ⟨asked b w x r, .start rfl, (silent s reachable).symm⟩

/-- An empty request is never answered, whatever the chain and the client do, if it
ends at or below the block after the LIB; the client cannot tell then that the
router keeps it from an idle link.  Beyond that block it can be answered, as long
as there is a branch to fork to. -/
theorem empty_request_unanswered_iff (b : Branches κ) {w : Chain κ} {x : Node}
    (live : x.role = .live) (lib : x.lib ≤ w.lib) (head : x.head ≤ w.head) {r : BlocksRequest}
    (empty : requestIsEmpty r = true) :
    (r.end.val ≤ w.lib.val + 1 → Unanswered b w x r ∧
      (x.req = none → ∀ st preCredit legacy, st.req = none →
        Indistinguishable b (asked b w x r)
          (routed b w x r (emptyStep (some st) preCredit legacy)))) ∧
    ∀ branch ∉ w.genesis :: w.forks.map Prod.snd,
      (Unanswered b w x r → r.end.val ≤ w.lib.val + 1) ∧
      (x.req = none → ∀ st preCredit legacy, st.req = none →
        Indistinguishable b (asked b w x r)
          (routed b w x r (emptyStep (some st) preCredit legacy)) →
        r.end.val ≤ w.lib.val + 1) := by
  have apart : x.req = none → ∀ st preCredit legacy, st.req = none →
      (Indistinguishable b (asked b w x r)
        (routed b w x r (emptyStep (some st) preCredit legacy)) ↔ Unanswered b w x r) := by
    intro noRequest st preCredit legacy isIdle
    rw [emptyStep_idle isIdle]
    exact indistinguishable_iff rfl fun s reachable => idle_silent noRequest reachable
  constructor
  · intro final
    have unanswered : Unanswered b w x r := by
      intro s reachable
      have spent : Spent r (asked b w x r) := ⟨rfl, Node.end_le_startFor empty, final, rfl⟩
      exact (spent.of_reachable reachable).silent
    exact ⟨unanswered, fun noRequest st preCredit legacy isIdle =>
      (apart noRequest st preCredit legacy isIdle).mpr unanswered⟩
  · intro branch unused
    have final : Unanswered b w x r → r.end.val ≤ w.lib.val + 1 := by
      intro unanswered
      by_contra beyond
      obtain ⟨world, above, rewound, next, sameLib, grown, has⟩ :=
        exists_rewound (b := b) live lib empty (not_le.mp beyond) unused
      have below : above < r.end := by
        rw [Fin.lt_def, next, sameLib]
        exact not_le.mp beyond
      obtain ⟨s, reachable, sent⟩ := exists_sent rewound live (lib.trans sameLib.ge)
        (head.trans grown) rfl next has below
      exact sent (unanswered s reachable)
    exact ⟨final, fun noRequest st preCredit legacy isIdle same =>
      final ((apart noRequest st preCredit legacy isIdle).mp same)⟩

/-- A client asks for no block at all, from block 105 on. -/
def nothingRequest : BlocksRequest := { streamRequest with start := 105, «end» := 105 }

/-- On a chain whose blocks are irreversible up to 110 the request is never
answered. -/
theorem nothing_request_unanswered :
    Unanswered sampleBranches (sampleChain 110 110 le_rfl (by decide))
      (sampleNode false 110 110 le_rfl (by decide)) nothingRequest :=
  ((empty_request_unanswered_iff sampleBranches rfl le_rfl le_rfl (by decide)).1 (by decide)).1

/-- With head 110 and LIB 80, a fork at block 100 makes the node answer with the new
block 100. -/
theorem fork_answers_empty_request :
    requestIsEmpty nothingRequest = true ∧
      ∃ s, Reachable (machine sampleBranches
          (asked sampleBranches (sampleChain 110 80 (by decide) (by decide))
            (sampleNode false 110 80 (by decide) (by decide)) nothingRequest))
          (fun _ _ => True) s ∧
        ∃ f ∈ s.sent, f.block = some 100 := by
  refine ⟨by decide, ?_⟩
  exact exists_reachable_of_run [.evolve (.fork 100 1), .send] rfl (by decide +kernel)

end Solo

end FleetRouter.Net
