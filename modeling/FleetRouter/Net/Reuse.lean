import FleetRouter.Net.Chain
import FleetRouter.Net.Honest

/-!
# Socket reuse

A link that `quiescent` takes for silent is silent, as long as its upstream is
honest: no result of one request is read as an answer to another.  Nodes of the
legacy family send at any time, so the router has to know them.
-/

namespace FleetRouter.Net

open Ship Session Transition

variable {γ ν α : Type}

section
variable {u : Upstream γ ν α} (hon : Honest u)

/-- If the node is of the legacy family the router knows it: from the fleet view,
or from a keep-alive it could tell from a block. -/
def Honest.tells (l : Socket ν) (legacy : Bool) : Prop :=
  (hon.kind l.node).legacy = true → l.st.req.isSome → legacy = true ∨ 0 < l.st.keepalivesSeen

/-- Whenever the router asks whether a link can be reused, it knows legacy
nodes. -/
def Honest.told (s : System γ ν) : NetEvent ν α → Prop
  | .takeRequest (.reuse _ _ legacy) => ∀ l ∈ s.link, hon.tells l legacy
  | .takeRequest (.keep legacy) => ∀ l ∈ s.link, hon.tells l legacy
  | .sendRequest _ _ _ legacy => ∀ l ∈ s.link, hon.tells l legacy
  | _ => True

end

section
variable {u : Upstream γ ν α} {hon : Honest u} {c : ClientSide} {l : Socket ν}

theorem Socket.Tracked.dry (tracked : l.Tracked hon) (unasked : l.st.req = none) :
    balance (u.credit l.node).val l.out = 0 := by
  obtain ⟨dry, noAsk, -⟩ := tracked.unasked unasked
  simp [dry, noAsk]

/-- A link the router takes for quiescent has nothing in flight, and sends
nothing until the next request. -/
theorem Socket.Tracked.of_quiescent (tracked : l.Tracked hon) (ledger : l.Ledger u c)
    {legacy : Bool} (told : hon.tells l legacy)
    (isQuiescent : quiescent l.st c.credit legacy = true) :
    l.inn = [] ∧ (l.doneAfter hon l.out ∨ balance (u.credit l.node).val l.out = 0) := by
  rw [quiescent, Bool.or_eq_true, decide_eq_true_eq] at isQuiescent
  rcases isQuiescent with dry | isSettled
  · cases served : l.serving with
    | true =>
        have total := (ledger.serves served).2.2
        rw [dry, Fin.val_zero] at total
        exact ⟨List.length_eq_zero_iff.mp (by omega), .inr (by omega)⟩
    | false =>
        obtain ⟨empty, muted | ⟨dryNode, noAsk, -⟩⟩ := ledger.idle served
        · exact ⟨empty, (tracked.kept muted).imp_right tracked.dry⟩
        · exact ⟨empty, .inr (by simp [dryNode, noAsk])⟩
  · obtain ⟨empty, spent⟩ := tracked.of_settled ledger told isSettled
    exact ⟨empty, spent.imp_right tracked.dry⟩

end

namespace System

variable {u : Upstream γ ν α} {hon : Honest u} {s s' : System γ ν}

/-- The router's memory of its link is right. -/
def Tracked (hon : Honest u) (s : System γ ν) : Prop := ∀ l ∈ s.link, l.Tracked hon

theorem Tracked.onTakeRequest (tracked : s.Tracked hon) (inv : s.Balanced u)
    {placement : Placement} (told : hon.told s (.takeRequest placement))
    (taken : s.onTakeRequest placement = some s') :
    hushed s (.takeRequest placement : NetEvent ν α) ∧ s'.Tracked hon := by
  obtain ⟨r, toRouter, link, -, placed, rfl⟩ := onTakeRequest_cases taken
  rcases place_cases placed with ⟨rfl, rfl⟩ | ⟨l, legacy, before, rfl, isSettled, rfl⟩ |
    ⟨l, «end», target, legacy, before, rfl, isQuiescent, rfl⟩
  · exact ⟨trivial, by simp [Tracked]⟩
  · obtain ⟨empty, spent⟩ :=
      (tracked l before).of_settled (inv.link l before) (told l before) isSettled
    constructor
    · intro l' same
      cases before.symm.trans same
      exact empty
    · rintro _ ⟨⟩
      exact (tracked l before).keep spent
  · obtain ⟨empty, spent⟩ :=
      (tracked l before).of_quiescent (inv.link l before) (told l before) isQuiescent
    constructor
    · intro _ l' same
      cases before.symm.trans same
      exact empty
    · rintro _ ⟨⟩
      have opened : Socket.Tracked hon { l with st := { l.st with resumeFloor := none } } :=
        { tracked l before with
          arrived := fun lr request none =>
            let arrived := (tracked l before).arrived lr request none
            ⟨arrived.limit, arrived.tracks, arrived.ends, arrived.ended⟩ }
      exact opened.sendRequest empty spent _ _ _ _ _ (inv.link l before).bounded

theorem Tracked.onSendRequest (tracked : s.Tracked hon) (inv : s.Balanced u)
    {«end» : Fin (2 ^ 32)} {purpose : Purpose} {target : Target} {legacy : Bool}
    (told : hon.told s (.sendRequest «end» purpose target legacy))
    (sent : s.onSendRequest «end» purpose target legacy = some s') :
    hushed s (.sendRequest «end» purpose target legacy : NetEvent ν α) ∧ s'.Tracked hon := by
  obtain ⟨creq, l, request, before, isQuiescent, rfl⟩ := onSendRequest_cases sent
  obtain ⟨empty, spent⟩ :=
    (tracked l before).of_quiescent (inv.link l before) (told l before) isQuiescent
  constructor
  · intro _ l' same
    cases before.symm.trans same
    exact empty
  · rintro _ ⟨⟩
    exact (tracked l before).sendRequest empty spent _ _ _ _ _ (inv.link l before).bounded

theorem Tracked.onRead (tracked : s.Tracked hon) (inv : s.Balanced u) {answers : FleetAnswers}
    (read : s.onRead answers = some s') : s'.Tracked hon := by
  obtain ⟨l, packet, inn, before, first, outcome⟩ := onRead_cases read
  have old := tracked l before
  have ledger := inv.link l before
  rcases outcome with ⟨c, st, fw, handled, rfl⟩ | ⟨st, handled, rfl⟩ | ⟨reason, -, rfl⟩ |
    ⟨handled, -⟩
  · obtain ⟨creq, lr, -, linkRequest, judged, -, rfl⟩ := onBlockResult_forwarded handled
    rintro _ ⟨⟩
    refine old.read ledger first _ rfl rfl ?_ (.inl rfl)
    intro lr' isRequest
    cases linkRequest.symm.trans isRequest
    exact commitLink_upCursor (judge_eq_forward judged).1
  · obtain ⟨creq, lr, n, -, linkRequest, counted, -, -, -, rfl⟩ := onBlockResult_dropped handled
    rintro _ ⟨⟩
    refine (old.read ledger first (dropDuplicate l.st _) rfl rfl ?_ (.inr rfl)).sendAck 1
    intro lr' isRequest
    cases linkRequest.symm.trans isRequest
    simp [dropDuplicate, expect, counted]
  · simp [Tracked]
  · obtain ⟨isSome, linkSome, -⟩ := ledger.serves (ledger.serving (by simp [first]))
    rcases onBlockResult_ignored handled with none | none
    · simp [none] at isSome
    · simp [none] at linkSome

/-- Honest upstreams are silent where the router counts on it, and the router's
memory stays right. -/
theorem Tracked.step (tracked : s.Tracked hon) (inv : s.Balanced u) {e : NetEvent ν α}
    (told : hon.told s e) (step : s.step u e = some s') : hushed s e ∧ s'.Tracked hon := by
  cases step_moves step with
  | clientSend | clientReceive => exact ⟨trivial, tracked⟩
  | takeAck front =>
      refine ⟨trivial, ?_⟩
      intro l placed
      obtain ⟨old, before, rfl⟩ := Option.map_eq_some_iff.mp placed
      exact (tracked old before).sendAck _
  | takeRequest taken => exact tracked.onTakeRequest inv told taken
  | connect up free joined =>
      refine ⟨trivial, ?_⟩
      rintro _ ⟨⟩
      exact .new _ rfl rfl rfl (u.credit_joins _ _ joined)
  | sendRequest sent => exact tracked.onSendRequest inv told sent
  | read read => exact ⟨trivial, tracked.onRead inv read⟩
  | linkEnd => exact ⟨trivial, by simp [Tracked]⟩
  | marks head lib => exact ⟨trivial, tracked⟩
  | nodeTake held taken =>
      refine ⟨trivial, ?_⟩
      rintro _ ⟨⟩
      exact (tracked _ held).nodeTake (inv.link _ held) taken
  | nodeSend held sent =>
      have ledger := inv.link _ held
      constructor
      · intro other same
        cases held.symm.trans same
        exact (tracked _ held).heard ledger sent
      · rintro _ ⟨⟩
        exact (tracked _ held).nodeSend ledger sent
  | @evolve choice world evolves =>
      refine ⟨trivial, ?_⟩
      intro l' moved
      obtain ⟨l, before, rfl⟩ := Option.map_eq_some_iff.mp moved
      exact (tracked l before).follow s.world choice

theorem tracked_of_reachable {start : γ} (reachable : Reachable (machine u start) hon.told s) :
    Reachable (machine u start) hushed s ∧ s.Tracked hon := by
  refine Reachable.invariant
    (P := fun s => Reachable (machine u start) hushed s ∧ s.Tracked hon) ?_ ?_ reachable
  · rintro _ rfl
    exact ⟨.start rfl, by simp [Tracked, fresh]⟩
  · rintro s e s' - ⟨silent, tracked⟩ told step
    obtain ⟨hush, next⟩ := tracked.step (.of_reachable silent) told step
    exact ⟨.next silent hush step, next⟩

/-! ## What can follow -/

/-- The runs that go on from a state. -/
def resume (u : Upstream γ ν α) (s : System γ ν) : Machine (System γ ν) (NetEvent ν α) where
  init s' := s' = s
  step := step u

/-- The upstream takes messages and sends, and the chain moves. -/
def upstreamOnly (_ : System γ ν) : NetEvent ν α → Prop
  | .nodeTake | .nodeSend _ | .evolve _ => True
  | _ => False

/-- Anything but a new request upstream or the end of the link. -/
def requestless (_ : System γ ν) : NetEvent ν α → Prop
  | .takeRequest _ | .sendRequest _ _ _ _ | .connect _ _ | .linkEnd => False
  | _ => True

/-- The link's memory stays as it is as long as nothing is read from it. -/
theorem stays {l : Socket ν} (placed : l ∈ s.link) (empty : l.inn = []) {e : NetEvent ν α}
    (calm : requestless s e) (step : s.step u e = some s') :
    ∃ l' ∈ s'.link, l'.st = l.st ∧ hon.kind l'.node = hon.kind l.node := by
  cases step_moves step with
  | takeRequest | sendRequest | connect | linkEnd => cases calm
  | clientSend | marks | clientReceive => exact ⟨l, placed, rfl, rfl⟩
  | takeAck front =>
      exact ⟨l.sendAck _, Option.mem_map_of_mem _ placed, l.sendAck_st _, by rw [l.sendAck_node]⟩
  | read read =>
      obtain ⟨old, packet, inn, held, first, -⟩ := onRead_cases read
      cases held.symm.trans placed
      simp [empty] at first
  | nodeTake held taken =>
      cases held.symm.trans placed
      rcases Socket.nodeTake_cases taken with ⟨r, out, -, rfl⟩ | ⟨n, out, -, rfl⟩
      · exact ⟨_, rfl, rfl, hon.kind_onRequest _ _ _⟩
      · exact ⟨_, rfl, rfl, hon.kind_onAck _ _⟩
  | nodeSend held sent =>
      cases held.symm.trans placed
      obtain ⟨⟨node, f⟩, sends, rfl⟩ := Option.map_eq_some_iff.mp sent
      exact ⟨_, rfl, rfl, hon.kind_send _ _ _ _ _ sends⟩
  | evolve evolves => exact ⟨_, Option.mem_map_of_mem _ placed, rfl, hon.kind_follow _ _ _⟩

theorem upstreamOnly_credit {e : NetEvent ν α} (only : upstreamOnly s e)
    (step : s.step u e = some s') : s'.c = s.c := by
  cases step_moves step with
  | nodeTake | nodeSend | evolve => rfl
  | _ => cases only

/-- A link stays silent as long as what makes the router take it for silent
stays: its memory of the link and a condition `K` on the mirror. -/
theorem silent_run {start : γ} (reachable : Reachable (machine u start) hon.told s)
    {l : Socket ν} (placed : l ∈ s.link) {calm : System γ ν → NetEvent ν α → Prop}
    {K : ClientSide → Prop} (calm_le : ∀ s e, calm s e → requestless s e)
    (keeps : ∀ s e s', calm s e → step u s e = some s' → K s.c → K s'.c) (now : K s.c)
    (empty : ∀ s, Reachable (machine u start) hon.told s → ∀ l' ∈ s.link, K s.c → l'.st = l.st →
      hon.kind l'.node = hon.kind l.node → l'.inn = [])
    (later : Reachable (resume u s) calm s') : ∀ l' ∈ s'.link, l'.inn = [] := by
  have inv : Reachable (machine u start) hon.told s' ∧ K s'.c ∧
      ∃ l' ∈ s'.link, l'.st = l.st ∧ hon.kind l'.node = hon.kind l.node := by
    refine Reachable.invariant
      (P := fun s => Reachable (machine u start) hon.told s ∧ K s.c ∧
        ∃ l' ∈ s.link, l'.st = l.st ∧ hon.kind l'.node = hon.kind l.node) ?_ ?_ later
    · rintro _ rfl
      exact ⟨reachable, now, l, placed, rfl, rfl⟩
    · rintro s e s' - ⟨reachable, holds, l', placed, st, kind⟩ isCalm step
      have mild := calm_le s e isCalm
      obtain ⟨next, nextPlaced, nextSt, nextKind⟩ :=
        stays placed (empty s reachable l' placed holds st kind) mild step
      refine ⟨.next reachable ?_ step, keeps s e s' isCalm step holds, next, nextPlaced,
        nextSt.trans st, nextKind.trans kind⟩
      cases e <;> trivial
  obtain ⟨reachable, holds, l', placed, st, kind⟩ := inv
  intro other same
  cases Option.mem_unique same placed
  exact empty s' reachable l' placed holds st kind

/-- Socket reuse never mixes two requests.  With honest upstreams, where the
router knows legacy nodes: a link it takes for quiescent has no result in flight,
and its node sends none before the next request reaches it; if the link is
settled that holds whatever the client acks and however the chain moves; while a
request is on its way nothing is sent; and every result in flight answers the
request sent last. -/
theorem reuse_never_mixes (hon : Honest u) (start : γ) {s : System γ ν}
    (reachable : Reachable (machine u start) hon.told s) {l : Socket ν} (placed : l ∈ s.link) :
    (∀ legacy, hon.tells l legacy → quiescent l.st s.c.credit legacy = true →
      ∀ s', Reachable (resume u s) upstreamOnly s' → ∀ l' ∈ s'.link, l'.inn = []) ∧
    (∀ legacy, hon.tells l legacy → settled l.st legacy = true →
      ∀ s', Reachable (resume u s) requestless s' → ∀ l' ∈ s'.link, l'.inn = []) ∧
    (requests l.out ≠ 0 → l.inn = [] ∧ ∀ choice, l.nodeSend u s.world choice = none) ∧
    ∀ packet ∈ l.inn, packet.gen = l.sent := by
  have ledger {s : System γ ν} (reachable : Reachable (machine u start) hon.told s)
      {l : Socket ν} (placed : l ∈ s.link) : l.Tracked hon ∧ l.Ledger u s.c := by
    obtain ⟨hush, tracked⟩ := tracked_of_reachable reachable
    exact ⟨tracked l placed, (Balanced.of_reachable hush).link l placed⟩
  refine ⟨?_, ?_, ?_, (ledger reachable placed).1.gens⟩
  · intro legacy told isQuiescent s' later
    refine silent_run (K := fun c => c = s.c) reachable placed ?_ ?_ rfl ?_ later
    · intro _ e only
      cases e <;> trivial
    · intro s e s' only step same
      exact (upstreamOnly_credit only step).trans same
    · intro s reachable l' placed same st kind
      obtain ⟨tracked, balanced⟩ := ledger reachable placed
      refine (tracked.of_quiescent balanced ?_ (by rw [st, same]; exact isQuiescent)).1
      rw [Honest.tells, st, kind]
      exact told
  · intro legacy told isSettled s' later
    refine silent_run (K := fun _ => True) reachable placed (fun _ _ => id) (fun _ _ _ _ _ => id)
      trivial ?_ later
    intro s reachable l' placed _ st kind
    obtain ⟨tracked, balanced⟩ := ledger reachable placed
    refine (tracked.of_settled balanced ?_ (by rw [st]; exact isSettled)).1
    rw [st, kind]
    exact told
  · intro pending
    obtain ⟨tracked, balanced⟩ := ledger reachable placed
    refine ⟨balanced.inn_eq_nil pending, fun choice => ?_⟩
    simp [Socket.nodeSend, tracked.silent pending]

end System

/-! ## The nodes of one chain -/

namespace Node

variable {κ : Type} [DecidableEq κ] (b : Branches κ)

/-- The nodes of one chain are honest. -/
def honest : Honest (upstream b) where
  kind x := { role := x.role, legacy := x.legacy && x.role = .live, first := x.first.val }
  view x := { cursor := x.cursor.val, limit := x.req.elim 0 fun r => r.end.val, lib := x.lib.val }
  role_kind := fun _ => rfl
  legacy_live := by simp
  rooted := Node.rooted
  kind_follow := by
    intro w a x
    obtain ⟨role, legacy, first, -, -⟩ := follow_cases w a x
    simp [upstream, role, legacy, first]
  kind_onRequest := fun _ _ _ => rfl
  kind_onAck := fun _ _ => rfl
  kind_send := by
    intro w x a x' f sent
    obtain ⟨r, -, role, legacy, first, -⟩ := send_cases b sent
    simp [role, legacy, first]
  limit_follow := by
    intro w a x
    obtain ⟨-, -, -, req, -⟩ := follow_cases w a x
    simp [upstream, req]
  lib_follow := by
    intro w a x
    obtain ⟨-, -, -, -, lib, -⟩ := follow_cases w a x
    exact lib
  cursor_follow := by
    intro w a x
    obtain ⟨-, -, -, -, -, same | ⟨live, above, -⟩⟩ := follow_cases w a x
    · exact .inl same.ge
    · exact .inr ⟨live, above⟩
  view_onAck := fun _ _ => rfl
  limit_onRequest := fun _ _ _ => rfl
  lib_onRequest := fun _ _ _ => rfl
  cursor_onRequest := fun w x r unmoved => startFor_of_le b unmoved
  below_limit := by
    intro w x a x' f sent modern
    obtain ⟨r, request, due, -⟩ := send_modern b sent (by simpa using modern)
    simp only [Node.due, Bool.and_eq_true, decide_eq_true_eq] at due
    simpa [request] using due.2
  view_send := by
    intro w x a x' f sent modern
    obtain ⟨r, -, -, -, -, -, lib, req, -⟩ := send_cases b sent
    obtain ⟨r, -, -, cursor, -⟩ := send_modern b sent (by simpa using modern)
    simp [req, lib, cursor]
  lib_send := by
    intro w x a x' f sent modern
    obtain ⟨r, -, -, -, rfl⟩ := send_modern b sent (by simpa using modern)
    rfl
  block_send := by
    intro w x a x' f sent modern p this
    obtain ⟨r, -, -, -, rfl⟩ := send_modern b sent (by simpa using modern)
    simp only [result, Option.mem_def, Option.ite_none_right_eq_some, Option.some.injEq] at this
    rw [← this.2]
    rfl
  idless_send := by
    intro w x a x' f sent modern idless live
    obtain ⟨r, -, due, -, rfl⟩ := send_modern b sent (by simpa using modern)
    have low := x.gate_le r
    simp only [Node.due, Bool.and_eq_true, decide_eq_true_eq] at due
    simp only [result, knows, Bool.and_eq_true, decide_eq_true_eq, ite_eq_right_iff,
      reduceCtorEq, imp_false, not_and, not_le] at idless
    by_contra named
    exact absurd (idless (not_lt.mp named)) (not_lt.mpr (due.1.trans low))

end Node

/-! ## A settled link -/

section
variable {u : Upstream γ ν α} (hon : Honest u)

instance (l : Socket ν) (legacy : Bool) : Decidable (hon.tells l legacy) :=
  inferInstanceAs (Decidable (_ = true → _ = true → _ = true ∨ _ < _))

instance (s : System γ ν) : (e : NetEvent ν α) → Decidable (hon.told s e)
  | .takeRequest (.reuse _ _ legacy) =>
    inferInstanceAs (Decidable (∀ l ∈ s.link, hon.tells l legacy))
  | .takeRequest (.keep legacy) => inferInstanceAs (Decidable (∀ l ∈ s.link, hon.tells l legacy))
  | .sendRequest _ _ _ legacy => inferInstanceAs (Decidable (∀ l ∈ s.link, hon.tells l legacy))
  | .takeRequest .drop => .isTrue trivial
  | .clientSend _ | .clientReceive | .takeAck | .connect _ _ | .read _ | .linkEnd | .marks _ _
  | .nodeTake | .nodeSend _ | .evolve _ => .isTrue trivial

end

/-- A node at head 110 has sent both blocks of a request, with credit for eight
more results: nothing follows until the next request. -/
theorem reuse_never_mixes_sample :
    ∃ s, Reachable (System.machine (Node.upstream sampleBranches)
        (sampleChain 110 110 le_rfl (by decide))) (Node.honest sampleBranches).told s ∧
      ∃ l ∈ s.link, settled l.st false = true ∧ l.node.credit = 8 ∧
        ∀ s', Reachable (System.resume (Node.upstream sampleBranches) s) System.requestless s' →
          ∀ l' ∈ s'.link, l'.inn = [] := by
  have found : ∃ s, Reachable (System.machine (Node.upstream sampleBranches)
        (sampleChain 110 110 le_rfl (by decide))) (Node.honest sampleBranches).told s ∧
      ∃ l ∈ s.link, settled l.st false = true ∧ l.node.credit = 8 ∧
        (Node.honest sampleBranches).tells l false :=
    exists_reachable_of_run
      [.clientSend (.request { streamRequest with start := 103, «end» := 105, maxInFlight := 10 }),
        .takeRequest .drop, .connect 0 (sampleNode false 110 110 le_rfl (by decide)),
        .sendRequest 105 .initial ⟨.pool, none⟩ false, .nodeTake,
        .nodeSend .result, .nodeSend .result, .read quietFleet, .read quietFleet] rfl
      (by decide +kernel)
  obtain ⟨s, reachable, l, placed, isSettled, credit, told⟩ := found
  exact ⟨s, reachable, l, placed, isSettled, credit,
    (System.reuse_never_mixes (Node.honest sampleBranches) _ reachable placed).2.1 false told
      isSettled⟩

/-! ## A keep-alive that is not counted -/

/-- A legacy node at head 102 is asked for blocks 103 and 104, with a position
the client has.  Its keep-alive is read first, then, once the chain is at 110, the
two blocks; it has credit for seven more results. -/
def uncountedKeepAlive : List (NetEvent Node (Choice UInt8)) :=
  [.clientSend (.request
      { streamRequest with
        start := 103
        «end» := 105
        maxInFlight := 10
        havePositions := [(sampleChain 102 102 le_rfl (by decide)).pos sampleBranches 50] }),
    .takeRequest .drop, .connect 0 (sampleNode true 102 102 le_rfl (by decide)),
    .sendRequest 105 .initial ⟨.pool, none⟩ false, .nodeTake,
    .nodeSend .keepAlive, .read quietFleet, .evolve (.advance 110 110), .evolve (.tip 110 110),
    .nodeSend .result, .nodeSend .result, .read quietFleet, .read quietFleet]

/-- The node has sent a keep-alive, but the router read it while it did not know
the node's cursor and did not count it.  It takes the link for settled while
another keep-alive is in flight, and reads that one as an answer to the client's
next request. -/
theorem uncounted_keepAlive_mixes :
    (∃ s, Reachable (System.machine (Node.upstream sampleBranches)
        (sampleChain 102 102 le_rfl (by decide))) (fun _ _ => True) s ∧
      ∃ l ∈ s.link, l.node.legacy = true ∧ l.st.frames = 3 ∧ l.st.keepalivesSeen = 0 ∧
        settled l.st false = true ∧ l.inn ≠ []) ∧
    ∃ s, Reachable (System.machine (Node.upstream sampleBranches)
        (sampleChain 102 102 le_rfl (by decide))) (fun _ _ => True) s ∧
      ∃ l ∈ s.link, l.sent = 2 ∧ ∃ packet ∈ l.inn.head?, packet.gen = 1 := by
  refine ⟨exists_reachable_of_run (uncountedKeepAlive ++ [.nodeSend .keepAlive]) rfl ?_,
    exists_reachable_of_run
      (uncountedKeepAlive ++ [.nodeSend .keepAlive,
        .clientSend (.request { streamRequest with start := 200, maxInFlight := 5 }),
        .takeRequest (.reuse 1000 ⟨.pool, none⟩ false)]) rfl ?_⟩
  · decide +kernel
  · decide +kernel

end FleetRouter.Net
