import FleetRouter.Net.Chain

/-!
# The client's positions

With `have_positions` a client names blocks it has, and a node goes back to one it
does not share.  Until something was forwarded for the client's request, every
request the router builds for it carries the client's own positions.  A result
that stands for no block ends that as well: a request sent after it carries the
reversible blocks the router remembers, and what the client said is lost.
-/

namespace FleetRouter.Net

open Ship Session Transition

variable {γ ν α : Type}

/-! ## What a step forwards and builds -/

namespace System

/-- The result a step forwards to the client. -/
def forwards (s : System γ ν) : NetEvent ν α → Option Classified
  | .read answers => s.link.bind fun l => l.inn.head?.bind fun packet =>
      match onBlockResult s.c l.st answers packet.h with
      | .forwarded _ _ fw => some fw.cls
      | .dropped _ | .ended _ | .ignored => none
  | _ => none

/-- The request a step builds, after the client's request it is for. -/
def builds (s : System γ ν) : NetEvent ν α → Option (BlocksRequest × BlocksRequest)
  | .takeRequest (.reuse «end» target _) =>
      match s.toRouter, s.link with
      | .request r :: _, some l =>
          some (r, (buildRequest (s.c.newRequest r).1 r { l.st with resumeFloor := none } «end»
            .initial target).1)
      | _, _ => none
  | .sendRequest «end» purpose target _ =>
      match s.c.req, s.link with
      | some creq, some l => some (creq, (buildRequest s.c creq l.st «end» purpose target).1)
      | _, _ => none
  | _ => none

/-- The events of a session whose upstreams are all live. -/
def pooled (u : Upstream γ ν α) : NetEvent ν α → Bool
  | .connect _ node => u.role node = .live
  | .takeRequest (.reuse _ target _) => target.topology = .pool
  | .sendRequest _ _ target _ => target.topology = .pool
  | _ => true

end System

/-- A request the router built. -/
structure Built where
  /-- The client's request it is for. -/
  client : BlocksRequest
  sent : BlocksRequest
  /-- What had been forwarded for the client's request, newest first. -/
  delivered : List Classified

/-- Nothing forwarded has moved the client's cursor. -/
def blockless (delivered : List Classified) : Bool := delivered.all fun cls => !cls.advance

/-- A pool session, with what was forwarded for the current request and every
request built. -/
structure PoolRun (γ ν : Type) where
  net : System γ ν
  delivered : List Classified
  built : List Built

namespace PoolRun

variable (u : Upstream γ ν α)

/-- What has been forwarded for the current request after a step. -/
def deliveredAfter (s : PoolRun γ ν) (e : NetEvent ν α) : List Classified :=
  match e with
  | .takeRequest _ => []
  | e => (s.net.forwards e).toList ++ s.delivered

def step (s : PoolRun γ ν) (e : NetEvent ν α) : Option (PoolRun γ ν) :=
  if System.pooled u e then
    (s.net.step u e).map fun net =>
      { net
        delivered := s.deliveredAfter e
        built := (s.net.builds e).toList.map (fun (client, sent) =>
          { client, sent, delivered := s.deliveredAfter e }) ++ s.built }
  else none

def machine (start : γ) : Machine (PoolRun γ ν) (NetEvent ν α) where
  init s := s = { net := .fresh start, delivered := [], built := [] }
  step := step u

/-- No request is sent while all that was forwarded for the client's request are
results that stand for no block. -/
def Undisturbed (s : PoolRun γ ν) : NetEvent ν α → Prop
  | .sendRequest _ _ _ _ => blockless s.delivered = true → s.delivered = []
  | _ => True

/-! ## What the mirror knows -/

/-- The client's mirror against what was forwarded for its request. -/
structure Mirrors (c : ClientSide) (delivered : List Classified) : Prop where
  counted : c.deliveredForRequest = delivered.length
  waiting : blockless delivered = true → ∀ creq ∈ c.req, c.cursor = creq.start

namespace Mirrors

variable {c : ClientSide} {delivered : List Classified}

theorem newRequest (c : ClientSide) (r : BlocksRequest) : Mirrors (c.newRequest r).1 [] where
  counted := rfl
  waiting := by
    intro _ creq current
    cases current
    rfl

/-- A forwarded result is counted whether or not it stands for a block. -/
theorem forward (mirrors : Mirrors c delivered) (h : ResultHead) (fw : Forward) :
    Mirrors (commitClient c h fw) (fw.cls :: delivered) where
  counted := by simp [mirrors.counted]
  waiting := by
    intro noBlock creq current
    simp only [blockless, List.all_cons, Bool.and_eq_true, Bool.not_eq_true'] at noBlock
    rw [commitClient_req] at current
    rw [commitClient_cursor, Forward.next, if_neg (by simp [noBlock.1])]
    exact mirrors.waiting noBlock.2 creq current

end Mirrors

/-- What holds in every state of a pool session. -/
structure Inv (s : PoolRun γ ν) : Prop where
  mirrors : Mirrors s.net.c s.delivered
  live : ∀ l ∈ s.net.link, l.st.role = .live

variable {u}

theorem inv_read {s : PoolRun γ ν} (inv : s.Inv) {answers : FleetAnswers} {net : System γ ν}
    (read : s.net.onRead answers = some net) :
    Mirrors net.c (s.deliveredAfter (.read answers : NetEvent ν α)) ∧
      ∀ l ∈ net.link, l.st.role = .live := by
  obtain ⟨l, packet, inn, placed, first, outcome⟩ := System.onRead_cases read
  have live := inv.live l placed
  have unmoved (isNone : s.net.forwards (.read answers : NetEvent ν α) = none) :
      Mirrors s.net.c (s.deliveredAfter (.read answers : NetEvent ν α)) := by
    simpa [deliveredAfter, isNone] using inv.mirrors
  rcases outcome with ⟨c, st, fw, handled, rfl⟩ | ⟨st, handled, rfl⟩ | ⟨reason, handled, rfl⟩ |
    ⟨handled, rfl⟩
  · have forwarded : s.net.forwards (.read answers : NetEvent ν α) = some fw.cls := by
      simp [System.forwards, placed, first, handled]
    obtain ⟨creq, lr, -, -, -, rfl, rfl⟩ := onBlockResult_forwarded handled
    constructor
    · simp only [deliveredAfter, forwarded, Option.toList_some, List.singleton_append]
      apply Mirrors.forward
      exact { inv.mirrors with }
    · intro l' placed'
      cases placed'
      exact live
  · obtain ⟨creq, lr, n, -, -, -, -, -, -, rfl⟩ := onBlockResult_dropped handled
    constructor
    · exact unmoved (by simp [System.forwards, placed, first, handled])
    · intro l' placed'
      cases placed'
      rw [Socket.sendAck_st]
      exact live
  · constructor
    · exact unmoved (by simp [System.forwards, placed, first, handled])
    · intro l' placed'
      cases placed'
  · constructor
    · exact unmoved (by simp [System.forwards, placed, first, handled])
    · intro l' placed'
      cases placed'
      exact live

/-- One step of the session keeps the mirror and the role of the link. -/
theorem inv_step {s : PoolRun γ ν} (inv : s.Inv) {e : NetEvent ν α} {net : System γ ν}
    (isPooled : System.pooled u e = true) (step : s.net.step u e = some net) :
    Mirrors net.c (s.deliveredAfter e) ∧ ∀ l ∈ net.link, l.st.role = .live := by
  cases System.step_moves step with
  | clientSend | clientReceive => exact ⟨inv.mirrors, inv.live⟩
  | takeAck front =>
      refine ⟨{ inv.mirrors with }, ?_⟩
      intro l' placed'
      obtain ⟨l, placed, rfl⟩ := Option.map_eq_some_iff.mp placed'
      rw [Socket.sendAck_st]
      exact inv.live l placed
  | takeRequest taken =>
      obtain ⟨r, toRouter, link, -, placed, rfl⟩ := System.onTakeRequest_cases taken
      refine ⟨.newRequest _ r, ?_⟩
      intro l' placed'
      rcases System.place_cases placed with ⟨-, rfl⟩ | ⟨l, legacy, held, -, -, rfl⟩ |
        ⟨l, «end», target, legacy, held, -, -, rfl⟩
      · cases placed'
      · cases placed'
        exact inv.live l held
      · cases placed'
        exact inv.live l held
  | connect up free joined =>
      refine ⟨inv.mirrors, ?_⟩
      intro l' placed'
      cases placed'
      exact of_decide_eq_true isPooled
  | sendRequest sent =>
      obtain ⟨creq, l, -, held, -, rfl⟩ := System.onSendRequest_cases sent
      refine ⟨inv.mirrors, ?_⟩
      intro l' placed'
      cases placed'
      exact inv.live l held
  | read read => exact inv_read inv read
  | linkEnd =>
      refine ⟨inv.mirrors, ?_⟩
      intro l' placed'
      cases placed'
  | marks head lib => exact ⟨{ inv.mirrors with }, inv.live⟩
  | nodeTake held taken =>
      refine ⟨inv.mirrors, ?_⟩
      intro l' placed'
      cases placed'
      rw [(Socket.nodeTake_keeps taken).1]
      exact inv.live _ held
  | nodeSend held sent =>
      refine ⟨inv.mirrors, ?_⟩
      intro l' placed'
      cases placed'
      rw [(Socket.nodeSend_keeps sent).1]
      exact inv.live _ held
  | evolve evolves =>
      refine ⟨inv.mirrors, ?_⟩
      intro l' placed'
      obtain ⟨l, held, rfl⟩ := Option.map_eq_some_iff.mp placed'
      exact inv.live l held

theorem step_cases {s s' : PoolRun γ ν} {e : NetEvent ν α} (step : s.step u e = some s') :
    System.pooled u e = true ∧ ∃ net, s.net.step u e = some net ∧
      s' =
        { net
          delivered := s.deliveredAfter e
          built := (s.net.builds e).toList.map (fun (client, sent) =>
            { client, sent, delivered := s.deliveredAfter e }) ++ s.built } := by
  simp only [PoolRun.step, Option.ite_none_right_eq_some] at step
  obtain ⟨net, moved, same⟩ := Option.map_eq_some_iff.mp step.2
  exact ⟨step.1, net, moved, same.symm⟩

theorem inv_of_reachable {allowed : PoolRun γ ν → NetEvent ν α → Prop} {start : γ}
    {s : PoolRun γ ν} (reachable : Reachable (machine u start) allowed s) : s.Inv := by
  induction reachable with
  | start isInitial =>
      cases isInitial
      exact ⟨⟨rfl, by simp [System.fresh, ClientSide.default]⟩, by simp [System.fresh]⟩
  | next _ _ step ih =>
      obtain ⟨isPooled, net, moved, rfl⟩ := step_cases step
      obtain ⟨mirrors, live⟩ := inv_step ih isPooled moved
      exact ⟨mirrors, live⟩

/-! ## What a request carries -/

/-- While the client waits for its first block, a request starts where the client
asked. -/
theorem Mirrors.built_start {c : ClientSide} {delivered : List Classified}
    (mirrors : Mirrors c delivered) (noBlock : blockless delivered = true)
    {creq : BlocksRequest} (current : c.req = some creq) : requestStart c creq = creq.start := by
  unfold requestStart
  split
  · rfl
  · exact mirrors.waiting noBlock creq current

/-- Before anything was forwarded it carries the client's positions. -/
theorem Mirrors.built_positions {c : ClientSide} (mirrors : Mirrors c []) (creq : BlocksRequest)
    {st : LinkState} (live : st.role = .live) («end» : Fin (2 ^ 32)) (purpose : Purpose)
    {target : Target} (isPool : target.topology = .pool) :
    (buildRequest c creq st «end» purpose target).1.havePositions = creq.havePositions := by
  have fresh : c.fresh = true := by simp [ClientSide.fresh, mirrors.counted]
  simp [buildRequest, positionsFor, live, fresh, isPool]

/-- A step that builds a request: what it carries, and that it goes out on the
link. -/
theorem builds_cases {s : PoolRun γ ν} (inv : s.Inv) {e : NetEvent ν α} {net : System γ ν}
    (isPooled : System.pooled u e = true) (moved : s.net.step u e = some net)
    {client sent : BlocksRequest} (builds : s.net.builds e = some (client, sent)) :
    (∃ l ∈ net.link, l.out.getLast? = some (.request sent)) ∧
      (blockless (s.deliveredAfter e) = true → sent.start = client.start ∧
        (s.Undisturbed e → sent.havePositions = client.havePositions)) := by
  cases e with
  | takeRequest placement =>
      obtain ⟨r, toRouter, link, front, placed, rfl⟩ := System.onTakeRequest_cases moved
      rcases System.place_cases placed with ⟨rfl, -⟩ | ⟨l, legacy, held, rfl, -⟩ |
        ⟨l, «end», target, legacy, held, rfl, -, rfl⟩
      · cases builds
      · cases builds
      · simp only [System.builds, front, held, Option.some.injEq, Prod.mk.injEq] at builds
        obtain ⟨rfl, rfl⟩ := builds
        have live : ({ l.st with resumeFloor := none } : LinkState).role = .live := inv.live l held
        have mirrors := Mirrors.newRequest s.net.c r
        have start : requestStart (s.net.c.newRequest r).1 r = r.start :=
          mirrors.built_start rfl rfl
        refine ⟨⟨_, rfl, by simp [Socket.sendRequest]⟩, fun _ => ⟨start, fun _ => ?_⟩⟩
        exact mirrors.built_positions r live «end» .initial (of_decide_eq_true isPooled)
  | sendRequest «end» purpose target legacy =>
      obtain ⟨creq, l, current, held, -, rfl⟩ := System.onSendRequest_cases moved
      simp only [System.builds, current, held, Option.some.injEq, Prod.mk.injEq] at builds
      obtain ⟨rfl, rfl⟩ := builds
      refine ⟨⟨_, rfl, by simp [Socket.sendRequest]⟩, fun noBlock => ?_⟩
      have noBlock : blockless s.delivered = true := noBlock
      refine ⟨inv.mirrors.built_start noBlock current, fun undisturbed => ?_⟩
      have mirrors : Mirrors s.net.c [] := undisturbed noBlock ▸ inv.mirrors
      exact mirrors.built_positions creq (inv.live l held) «end» purpose
        (of_decide_eq_true isPooled)
  | clientSend | clientReceive | takeAck | connect | read | linkEnd | marks | nodeTake | nodeSend
  | evolve => cases builds

/-- In a run whose requests are all undisturbed, what was built for a client that
waits for its first block carries the client's start and positions. -/
theorem carries_of_reachable {start : γ} {s : PoolRun γ ν}
    (reachable : Reachable (machine u start) Undisturbed s) :
    ∀ b ∈ s.built, blockless b.delivered = true →
      b.sent.start = b.client.start ∧ b.sent.havePositions = b.client.havePositions := by
  induction reachable with
  | start isInitial =>
      cases isInitial
      simp
  | next before isAllowed step ih =>
      obtain ⟨isPooled, net, moved, rfl⟩ := step_cases step
      intro b member noBlock
      rcases List.mem_append.mp member with new | old
      · obtain ⟨⟨client, sent⟩, builds, rfl⟩ := List.mem_map.mp new
        have carried := (builds_cases (inv_of_reachable before) isPooled moved
          (Option.mem_toList.mp builds)).2 noBlock
        exact ⟨carried.1, carried.2 isAllowed⟩
      · exact ih b old noBlock

/-- Where a node starts depends on the start and the positions alone. -/
theorem startFor_congr {κ : Type} (branches : Branches κ) (w : Chain κ) (x : Node)
    {r q : BlocksRequest} (start : r.start = q.start)
    (positions : r.havePositions = q.havePositions) :
    x.startFor branches w r = x.startFor branches w q := by
  rw [Node.startFor, start, positions]
  rfl

/-- While the client waits for its first block, each request built for it starts
where the client asked and goes out on the link, and one whose step is undisturbed
carries the client's positions.  In a run of undisturbed steps every such request
carries them, so that any node goes back to the block it would have gone back to
for the client's own request. -/
theorem positions_survive_until_block (u : Upstream γ ν α) (start : γ) :
    (∀ s, Reachable (machine u start) (fun _ _ => True) s → ∀ e s', s.step u e = some s' →
      ∀ client sent, s.net.builds e = some (client, sent) →
        (∃ l ∈ s'.net.link, l.out.getLast? = some (.request sent)) ∧
          (blockless s'.delivered = true → sent.start = client.start ∧
            (s.Undisturbed e → sent.havePositions = client.havePositions))) ∧
    ∀ s, Reachable (machine u start) Undisturbed s → ∀ b ∈ s.built,
      blockless b.delivered = true →
        b.sent.start = b.client.start ∧ b.sent.havePositions = b.client.havePositions ∧
          ∀ {κ : Type} (branches : Branches κ) (w : Chain κ) (x : Node),
            x.startFor branches w b.sent = x.startFor branches w b.client := by
  constructor
  · intro s reachable e s' step client sent builds
    obtain ⟨isPooled, net, moved, rfl⟩ := step_cases step
    exact builds_cases (inv_of_reachable reachable) isPooled moved builds
  · intro s reachable b member noBlock
    obtain ⟨sameStart, samePositions⟩ := carries_of_reachable reachable b member noBlock
    exact ⟨sameStart, samePositions, fun branches w x =>
      startFor_congr branches w x sameStart samePositions⟩

/-! ## Two links for one request -/

theorem tip_ordered : (100 : Fin (2 ^ 32)) ≤ 110 := by decide

theorem tip_shallow : (110 : Fin (2 ^ 32)).val ≤ (100 : Fin (2 ^ 32)).val + maxReversible := by
  decide

def tipChain : Chain UInt8 := sampleChain 110 100 tip_ordered tip_shallow

def tipNode (legacy : Bool) : Node := sampleNode legacy 110 100 tip_ordered tip_shallow

/-- A client that has block 110 of the first branch asks from block 111 on. -/
def tipRequest : BlocksRequest :=
  { streamRequest with start := 111, havePositions := [tipChain.pos sampleBranches 110] }

/-- The request is sent to a legacy node at head 110. -/
def firstLink : List (NetEvent Node (Choice UInt8)) :=
  [.clientSend (.request tipRequest), .takeRequest .drop, .connect 0 (tipNode true),
    .sendRequest 1000 .initial ⟨.pool, none⟩ false, .nodeTake]

/-- Block 110 is replaced by a fork, the link ends and another node takes over. -/
def secondLink : List (NetEvent Node (Choice UInt8)) :=
  [.evolve (.fork 110 1), .linkEnd, .connect 1 (tipNode false),
    .sendRequest 1000 .failover ⟨.pool, none⟩ false, .nodeTake]

instance (s : PoolRun γ ν) : (e : NetEvent ν α) → Decidable (s.Undisturbed e)
  | .sendRequest _ _ _ _ => inferInstanceAs (Decidable
      (blockless s.delivered = true → s.delivered = []))
  | .clientSend _ | .clientReceive | .takeAck | .takeRequest _ | .connect _ _ | .read _ | .linkEnd
  | .marks _ _ | .nodeTake | .nodeSend _ | .evolve _ => .isTrue trivial

/-- Without a result in between, the second node goes back to block 110 as well. -/
theorem positions_survive_until_block_sample :
    ∃ s, Reachable (machine (Node.upstream sampleBranches) tipChain) Undisturbed s ∧
      s.built.length = 2 ∧ (∃ l ∈ s.net.link, l.node.cursor = 110) ∧
      ∀ b ∈ s.built, b.sent.havePositions = b.client.havePositions := by
  have found : ∃ s, Reachable (machine (Node.upstream sampleBranches) tipChain) Undisturbed s ∧
      s.built.length = 2 ∧ (∃ l ∈ s.net.link, l.node.cursor = 110) ∧
      ∀ b ∈ s.built, blockless b.delivered = true :=
    exists_reachable_of_run (firstLink ++ secondLink) rfl (by decide +kernel)
  obtain ⟨s, reachable, two, back, noBlock⟩ := found
  refine ⟨s, reachable, two, back, fun b member => ?_⟩
  exact ((positions_survive_until_block _ _).2 s reachable b member (noBlock b member)).2.1

/-- A keep-alive is all the client got before the link ended.  The second request
has the client's start but no positions, and the node, which would have gone back
to block 110, goes on at block 111 of the new branch. -/
theorem keepAlive_loses_positions :
    ∃ s, Reachable (machine (Node.upstream sampleBranches) tipChain) (fun _ _ => True) s ∧
      ∃ b ∈ s.built, blockless b.delivered = true ∧ b.client = tipRequest ∧
        b.sent.start = 111 ∧ b.sent.havePositions = [] ∧ b.client.havePositions ≠ [] ∧
        ∃ l ∈ s.net.link, l.node.cursor = 111 ∧
          l.node.startFor sampleBranches s.net.world b.client = 110 :=
  exists_reachable_of_run
    (firstLink ++ [.nodeSend .keepAlive, .read quietFleet] ++ secondLink) rfl (by decide +kernel)

end PoolRun

end FleetRouter.Net
