import FleetRouter.Lib.Transition
import FleetRouter.Session.Link

/-!
# A session on its channels

Client, router and one upstream joined by FIFO channels in both directions.  The
upstream is any node that keeps a send credit: a request sets it, an ack raises
it with a wrapping add, and each result it sends costs one.  The router is the
session's mirror and its link; the placement of a new request and the moments
links open and end are up to the environment.
-/

namespace FleetRouter.Net

open Ship Session Transition

/-- A message of a client to a node: the router passes them on. -/
inductive Ask where
  | request (r : BlocksRequest)
  | ack (n : Fin (2 ^ 32))
  deriving DecidableEq, Repr

def Ask.isRequest : Ask → Bool
  | .request _ => true
  | .ack _ => false

/-- The requests on a channel. -/
def requests (asks : List Ask) : Nat := asks.countP Ask.isRequest

/-- The credit one message leaves behind. -/
def Ask.settle (credit : Nat) : Ask → Nat
  | .request r => r.maxInFlight.val
  | .ack n => credit + n.val

/-- The credit a party will hold once it has taken everything on the channel. -/
def balance (credit : Nat) (asks : List Ask) : Nat := asks.foldl Ask.settle credit

/-- A result as its sender knows it: a keep-alive stands for no block. -/
structure Frame where
  h : ResultHead
  block : Option (Fin (2 ^ 32))
  deriving DecidableEq, Repr

/-- A node behind a link and the world it lives in: `ν` are the states of one
connection, `γ` those of the chain, `α` the choices of either. -/
structure Upstream (γ ν α : Type) where
  role : ν → Role
  credit : ν → Fin (2 ^ 32)
  /-- The states a new connection may find. -/
  joins : γ → ν → Bool
  evolve : γ → α → Option γ
  /-- How a connection follows a step of the world. -/
  follow : γ → α → ν → ν
  onRequest : γ → ν → BlocksRequest → ν
  onAck : ν → Fin (2 ^ 32) → ν
  send : γ → ν → α → Option (ν × Frame)
  credit_joins : ∀ w x, joins w x = true → credit x = 0
  credit_follow : ∀ w a x, credit (follow w a x) = credit x
  credit_onRequest : ∀ w x r, credit (onRequest w x r) = r.maxInFlight
  credit_onAck : ∀ x n, credit (onAck x n) = credit x + n
  credit_send : ∀ w x a x' f, send w x a = some (x', f) →
    (credit x').val + 1 = (credit x).val

variable {γ ν α : Type}

/-- A result in flight, with the number of requests its sender had taken. -/
structure Packet extends Frame where
  gen : Nat
  deriving DecidableEq, Repr

/-- A link, its upstream and the two channels between them. -/
structure Socket (ν : Type) where
  st : LinkState
  node : ν
  out : List Ask
  inn : List Packet
  /-- Requests sent on the link, and those the node has taken. -/
  sent : Nat
  taken : Nat
  /-- The last request sent is for the client's current request. -/
  serving : Bool
  /-- The router counts on silence until the node has taken this many
  requests. -/
  mutedUntil : Nat

def Socket.new (st : LinkState) (node : ν) : Socket ν where
  st := st
  node := node
  out := []
  inn := []
  sent := 0
  taken := 0
  serving := false
  mutedUntil := 0

/-- The router counts on the node to send nothing now. -/
def Socket.muted (l : Socket ν) : Bool := l.taken < l.mutedUntil

/-- The client: the requests it sent, and for the last of them what it granted
and what it got. -/
structure Client where
  epoch : Nat
  granted : Nat
  received : Nat
  deriving DecidableEq, Repr

structure System (γ ν : Type) where
  world : γ
  client : Client
  toRouter : List Ask
  /-- Results on their way to the client, by the request they answer. -/
  toClient : List Nat
  /-- Requests the router has taken. -/
  epoch : Nat
  /-- What the mirror has granted for the current request: its window, and what
  each ack raised the credit by. -/
  window : Nat
  c : ClientSide
  link : Option (Socket ν)
  /-- A result was charged with no credit left. -/
  overran : Bool

def System.fresh (world : γ) : System γ ν where
  world := world
  client := { epoch := 0, granted := 0, received := 0 }
  toRouter := []
  toClient := []
  epoch := 0
  window := 0
  c := .default
  link := none
  overran := false

/-- What the router does with its link when the client replaces its request. -/
inductive Placement where
  | reuse («end» : Fin (2 ^ 32)) (target : Target) (legacy : Bool)
  | keep (legacy : Bool)
  | drop
  deriving DecidableEq, Repr

inductive NetEvent (ν α : Type) where
  | clientSend (m : Ask)
  | clientReceive
  | takeAck
  | takeRequest (placement : Placement)
  | connect (up : Nat) (node : ν)
  | sendRequest («end» : Fin (2 ^ 32)) (purpose : Purpose) (target : Target) (legacy : Bool)
  | read (answers : FleetAnswers)
  | linkEnd
  /-- A status reply raised the marks. -/
  | marks (head lib : BlockPos)
  | nodeTake
  | nodeSend (choice : α)
  | evolve (choice : α)

/-! ## The link -/

namespace Socket

variable (u : Upstream γ ν α) (l : Socket ν)

/-- Send a request built from the mirror.  A link that is not out of credit is
reused because it is settled, so the router counts on silence until the node has
the new request. -/
def sendRequest (c : ClientSide) (creq : BlocksRequest) (pre «end» : Fin (2 ^ 32))
    (purpose : Purpose) (target : Target) : Socket ν :=
  let (r, st) := buildRequest c creq l.st «end» purpose target
  { l with
    st
    out := l.out ++ [.request r]
    sent := l.sent + 1
    serving := true
    mutedUntil := if pre = 0 then l.mutedUntil else l.sent + 1 }

/-- Pass on an ack, once the link has a request. -/
def sendAck (n : Fin (2 ^ 32)) : Socket ν :=
  if n ≠ 0 ∧ l.st.req.isSome then { l with out := l.out ++ [.ack n] } else l

@[simp] theorem sendAck_node (n : Fin (2 ^ 32)) : (l.sendAck n).node = l.node := by
  unfold sendAck
  split <;> rfl

@[simp] theorem sendAck_st (n : Fin (2 ^ 32)) : (l.sendAck n).st = l.st := by
  unfold sendAck
  split <;> rfl

@[simp] theorem sendAck_serving (n : Fin (2 ^ 32)) : (l.sendAck n).serving = l.serving := by
  unfold sendAck
  split <;> rfl

/-- An ack is not a request. -/
theorem sendAck_out_ne (n : Fin (2 ^ 32)) (r : BlocksRequest) :
    (l.sendAck n).out ≠ l.out ++ [.request r] := by
  unfold sendAck
  split <;> simp

/-- The node takes the next message. -/
def nodeTake (w : γ) : Option (Socket ν) :=
  match l.out with
  | [] => none
  | .request r :: out =>
      some { l with node := u.onRequest w l.node r, out, taken := l.taken + 1 }
  | .ack n :: out => some { l with node := u.onAck l.node n, out }

def nodeSend (w : γ) (choice : α) : Option (Socket ν) :=
  (u.send w l.node choice).map fun (node, f) =>
    { l with node, inn := l.inn ++ [{ f with gen := l.taken }] }

variable {u l}

theorem nodeTake_cases {l' : Socket ν} {w : γ} (taken : l.nodeTake u w = some l') :
    (∃ r out, l.out = .request r :: out ∧
      l' = { l with node := u.onRequest w l.node r, out, taken := l.taken + 1 }) ∨
    ∃ n out, l.out = .ack n :: out ∧ l' = { l with node := u.onAck l.node n, out } := by
  unfold nodeTake at taken
  split at taken
  · cases taken
  · rename_i r out front
    cases taken
    exact .inl ⟨r, out, front, rfl⟩
  · rename_i n out front
    cases taken
    exact .inr ⟨n, out, front, rfl⟩

theorem nodeTake_keeps {l' : Socket ν} {w : γ} (taken : l.nodeTake u w = some l') :
    l'.st = l.st ∧ l'.serving = l.serving := by
  rcases nodeTake_cases taken with ⟨r, out, -, rfl⟩ | ⟨n, out, -, rfl⟩
  · exact ⟨rfl, rfl⟩
  · exact ⟨rfl, rfl⟩

theorem nodeSend_keeps {l' : Socket ν} {w : γ} {choice : α}
    (sent : l.nodeSend u w choice = some l') : l'.st = l.st ∧ l'.serving = l.serving := by
  obtain ⟨pair, -, rfl⟩ := Option.map_eq_some_iff.mp sent
  exact ⟨rfl, rfl⟩

end Socket

/-! ## Steps -/

namespace System

variable (u : Upstream γ ν α)

/-- The client sends a message. -/
def onClientSend (s : System γ ν) (m : Ask) : System γ ν :=
  { s with
    toRouter := s.toRouter ++ [m]
    client := match m with
      | .request r => { epoch := s.client.epoch + 1, granted := r.maxInFlight.val, received := 0 }
      | .ack n => { s.client with granted := s.client.granted + n.val } }

/-- The client gets a result. -/
def onClientReceive (s : System γ ν) : Option (System γ ν) :=
  match s.toClient with
  | [] => none
  | epoch :: toClient => some
      { s with
        toClient
        client := if epoch = s.client.epoch
          then { s.client with received := s.client.received + 1 } else s.client }

/-- The router takes an ack of the client. -/
def onTakeAck (s : System γ ν) : Option (System γ ν) :=
  match s.toRouter with
  | .ack n :: toRouter => some
      { s with
        toRouter
        window := s.window + (s.c.ack n).2.val
        c := (s.c.ack n).1
        link := s.link.map fun l => l.sendAck (s.c.ack n).2 }
  | _ => none

/-- The link of a session whose client has just replaced its request by `r`. -/
def place (s : System γ ν) (r : BlocksRequest) : Placement → Option (Option (Socket ν))
  | .drop => some none
  | .keep legacy => s.link.bind fun l =>
      if settled l.st legacy then some (some
        { l with
          st := { l.st with resumeFloor := none }
          serving := false
          mutedUntil := l.sent + 1 })
      else none
  | .reuse «end» target legacy => s.link.bind fun l =>
      let l := { l with st := { l.st with resumeFloor := none } }
      if quiescent l.st s.c.credit legacy then
        some (some (l.sendRequest (s.c.newRequest r).1 r s.c.credit «end» .initial target))
      else none

/-- The router takes a request of the client. -/
def onTakeRequest (s : System γ ν) (placement : Placement) : Option (System γ ν) :=
  match s.toRouter with
  | .request r :: toRouter => (s.place r placement).map fun link =>
      { s with
        toRouter
        link
        c := (s.c.newRequest r).1
        epoch := s.epoch + 1
        window := r.maxInFlight.val }
  | _ => none

/-- The router sends the client's request on its link: a leg of it, or what is
left after a failover. -/
def onSendRequest (s : System γ ν) («end» : Fin (2 ^ 32)) (purpose : Purpose) (target : Target)
    (legacy : Bool) : Option (System γ ν) :=
  match s.c.req, s.link with
  | some creq, some l =>
      if quiescent l.st s.c.credit legacy then
        some { s with link := some (l.sendRequest s.c creq s.c.credit «end» purpose target) }
      else none
  | _, _ => none

/-- The router reads a result. -/
def onRead (s : System γ ν) (answers : FleetAnswers) : Option (System γ ν) :=
  match s.link with
  | none => none
  | some l =>
      match l.inn with
      | [] => none
      | packet :: inn =>
          match onBlockResult s.c l.st answers packet.h with
          | .forwarded c st _ => some
              { s with
                c
                link := some { l with st, inn }
                toClient := s.toClient ++ [s.epoch]
                overran := s.overran || s.c.charge.2 }
          | .dropped st => some { s with link := some ({ l with st, inn }.sendAck 1) }
          | .ended _ => some { s with link := none }
          | .ignored => some { s with link := some { l with inn } }

def step (s : System γ ν) : NetEvent ν α → Option (System γ ν)
  | .clientSend m => some (s.onClientSend m)
  | .clientReceive => s.onClientReceive
  | .takeAck => s.onTakeAck
  | .takeRequest placement => s.onTakeRequest placement
  | .connect up node =>
      if s.link.isNone && u.joins s.world node then
        some { s with link := some (.new (.new up (u.role node)) node) }
      else none
  | .sendRequest «end» purpose target legacy => s.onSendRequest «end» purpose target legacy
  | .read answers => s.onRead answers
  | .linkEnd => some { s with link := none }
  | .marks head lib => some { s with c := (headLibFor s.c .live head lib none true).1 }
  | .nodeTake => s.link.bind fun l => (l.nodeTake u s.world).map fun l => { s with link := some l }
  | .nodeSend choice => s.link.bind fun l =>
      (l.nodeSend u s.world choice).map fun l => { s with link := some l }
  | .evolve choice => (u.evolve s.world choice).map fun world =>
      { s with
        world
        link := s.link.map fun l => { l with node := u.follow s.world choice l.node } }

/-- What becomes of the link when the client replaces its request. -/
theorem place_cases {s : System γ ν} {r : BlocksRequest} {placement : Placement}
    {link : Option (Socket ν)} (placed : s.place r placement = some link) :
    placement = .drop ∧ link = none ∨
      (∃ l legacy, s.link = some l ∧ placement = .keep legacy ∧ settled l.st legacy = true ∧
        link = some
          { l with
            st := { l.st with resumeFloor := none }
            serving := false
            mutedUntil := l.sent + 1 }) ∨
      ∃ l «end» target legacy, s.link = some l ∧ placement = .reuse «end» target legacy ∧
        quiescent l.st s.c.credit legacy = true ∧
        link = some ({ l with st := { l.st with resumeFloor := none } }.sendRequest
          (s.c.newRequest r).1 r s.c.credit «end» .initial target) := by
  cases placement with
  | drop =>
      cases placed
      exact .inl ⟨rfl, rfl⟩
  | keep legacy =>
      obtain ⟨l, before, placed⟩ := Option.bind_eq_some_iff.mp placed
      split at placed
      · rename_i isSettled
        cases placed
        exact .inr (.inl ⟨l, legacy, before, rfl, isSettled, rfl⟩)
      · cases placed
  | reuse «end» target legacy =>
      obtain ⟨l, before, placed⟩ := Option.bind_eq_some_iff.mp placed
      simp only at placed
      split at placed
      · rename_i isQuiescent
        cases placed
        exact .inr (.inr ⟨l, «end», target, legacy, before, rfl, isQuiescent, rfl⟩)
      · cases placed

/-- The router has taken a request. -/
theorem onTakeRequest_cases {s s' : System γ ν} {placement : Placement}
    (taken : s.onTakeRequest placement = some s') :
    ∃ r toRouter link, s.toRouter = .request r :: toRouter ∧ s.place r placement = some link ∧
      s' =
        { s with
          toRouter
          link
          c := (s.c.newRequest r).1
          epoch := s.epoch + 1
          window := r.maxInFlight.val } := by
  unfold onTakeRequest at taken
  split at taken
  · rename_i r toRouter split
    obtain ⟨link, placed, rfl⟩ := Option.map_eq_some_iff.mp taken
    exact ⟨r, toRouter, link, split, placed, rfl⟩
  · cases taken

/-- The router has sent a request on its link. -/
theorem onSendRequest_cases {s s' : System γ ν} {«end» : Fin (2 ^ 32)} {purpose : Purpose}
    {target : Target} {legacy : Bool}
    (sent : s.onSendRequest «end» purpose target legacy = some s') :
    ∃ creq l, s.c.req = some creq ∧ s.link = some l ∧ quiescent l.st s.c.credit legacy = true ∧
      s' = { s with link := some (l.sendRequest s.c creq s.c.credit «end» purpose target) } := by
  unfold onSendRequest at sent
  split at sent
  · rename_i creq l request before
    split at sent
    · rename_i isQuiescent
      cases sent
      exact ⟨creq, l, request, before, isQuiescent, rfl⟩
    · cases sent
  · cases sent

/-- What the router does with a result it reads. -/
theorem onRead_cases {s s' : System γ ν} {answers : FleetAnswers}
    (read : s.onRead answers = some s') :
    ∃ l packet inn, s.link = some l ∧ l.inn = packet :: inn ∧
      ((∃ c st fw, onBlockResult s.c l.st answers packet.h = .forwarded c st fw ∧
        s' =
          { s with
            c
            link := some { l with st, inn }
            toClient := s.toClient ++ [s.epoch]
            overran := s.overran || s.c.charge.2 }) ∨
      (∃ st, onBlockResult s.c l.st answers packet.h = .dropped st ∧
        s' = { s with link := some ({ l with st, inn }.sendAck 1) }) ∨
      (∃ reason, onBlockResult s.c l.st answers packet.h = .ended reason ∧
        s' = { s with link := none }) ∨
      onBlockResult s.c l.st answers packet.h = .ignored ∧
        s' = { s with link := some { l with inn } }) := by
  unfold onRead at read
  split at read
  · cases read
  · rename_i l before
    split at read
    · cases read
    · rename_i packet inn first
      refine ⟨l, packet, inn, before, first, ?_⟩
      split at read <;> rename_i handled <;> cases read
      · exact .inl ⟨_, _, _, handled, rfl⟩
      · exact .inr (.inl ⟨_, handled, rfl⟩)
      · exact .inr (.inr (.inl ⟨_, handled, rfl⟩))
      · exact .inr (.inr (.inr ⟨handled, rfl⟩))

/-- What an event does to the session. -/
inductive Moves (s : System γ ν) : NetEvent ν α → System γ ν → Prop
  | clientSend (m : Ask) : Moves s (.clientSend m) (s.onClientSend m)
  | clientReceive {tag : Nat} {toClient : List Nat} (front : s.toClient = tag :: toClient) :
      Moves s .clientReceive
        { s with
          toClient
          client := if tag = s.client.epoch
            then { s.client with received := s.client.received + 1 } else s.client }
  | takeAck {n : Fin (2 ^ 32)} {toRouter : List Ask} (front : s.toRouter = .ack n :: toRouter) :
      Moves s .takeAck
        { s with
          toRouter
          window := s.window + (s.c.ack n).2.val
          c := (s.c.ack n).1
          link := s.link.map fun l => l.sendAck (s.c.ack n).2 }
  | takeRequest {placement : Placement} {s' : System γ ν}
      (taken : s.onTakeRequest placement = some s') : Moves s (.takeRequest placement) s'
  | connect (up : Nat) {node : ν} (free : s.link = none)
      (joined : u.joins s.world node = true) :
      Moves s (.connect up node) { s with link := some (.new (.new up (u.role node)) node) }
  | sendRequest {«end» : Fin (2 ^ 32)} {purpose : Purpose} {target : Target} {legacy : Bool}
      {s' : System γ ν} (sent : s.onSendRequest «end» purpose target legacy = some s') :
      Moves s (.sendRequest «end» purpose target legacy) s'
  | read {answers : FleetAnswers} {s' : System γ ν} (read : s.onRead answers = some s') :
      Moves s (.read answers) s'
  | linkEnd : Moves s .linkEnd { s with link := none }
  | marks (head lib : BlockPos) :
      Moves s (.marks head lib) { s with c := (headLibFor s.c .live head lib none true).1 }
  | nodeTake {l l' : Socket ν} (held : s.link = some l)
      (taken : l.nodeTake u s.world = some l') : Moves s .nodeTake { s with link := some l' }
  | nodeSend {choice : α} {l l' : Socket ν} (held : s.link = some l)
      (sent : l.nodeSend u s.world choice = some l') :
      Moves s (.nodeSend choice) { s with link := some l' }
  | evolve {choice : α} {world : γ} (evolves : u.evolve s.world choice = some world) :
      Moves s (.evolve choice)
        { s with
          world
          link := s.link.map fun l => { l with node := u.follow s.world choice l.node } }

variable {u}

theorem step_moves {s s' : System γ ν} {e : NetEvent ν α} (step : s.step u e = some s') :
    Moves u s e s' := by
  cases e with
  | clientSend m =>
      cases step
      exact .clientSend m
  | clientReceive =>
      simp only [System.step, onClientReceive] at step
      split at step
      · cases step
      · rename_i front
        cases step
        exact .clientReceive front
  | takeAck =>
      simp only [System.step, onTakeAck] at step
      split at step
      · rename_i front
        cases step
        exact .takeAck front
      · cases step
  | takeRequest placement => exact .takeRequest step
  | connect up node =>
      simp only [System.step, Bool.and_eq_true, Option.isNone_iff_eq_none,
        Option.ite_none_right_eq_some] at step
      obtain ⟨⟨free, joined⟩, step⟩ := step
      cases step
      exact .connect up free joined
  | sendRequest «end» purpose target legacy => exact .sendRequest step
  | read answers => exact .read step
  | linkEnd =>
      cases step
      exact .linkEnd
  | marks head lib =>
      cases step
      exact .marks head lib
  | nodeTake =>
      obtain ⟨l, held, step⟩ := Option.bind_eq_some_iff.mp step
      obtain ⟨l', taken, rfl⟩ := Option.map_eq_some_iff.mp step
      exact .nodeTake held taken
  | nodeSend choice =>
      obtain ⟨l, held, step⟩ := Option.bind_eq_some_iff.mp step
      obtain ⟨l', sent, rfl⟩ := Option.map_eq_some_iff.mp step
      exact .nodeSend held sent
  | evolve choice =>
      obtain ⟨world, evolves, rfl⟩ := Option.map_eq_some_iff.mp step
      exact .evolve evolves

variable (u)

/-- A step that sends a request leaves a link that serves the client. -/
theorem step_request {s s' : System γ ν} {e : NetEvent ν α} (step : s.step u e = some s')
    {l l' : Socket ν} (before : l ∈ s.link) (after : l' ∈ s'.link) {r : BlocksRequest}
    (more : l'.out = l.out ++ [.request r]) : l'.serving = true ∧ l'.st.req.isSome := by
  have longer : ¬l'.out.length ≤ l.out.length := by simp [more]
  have same {l₁ : Socket ν} (placed : l₁ ∈ s.link) : l₁ = l := Option.mem_unique placed before
  cases step_moves step with
  | clientSend | clientReceive =>
      cases same after
      exact absurd le_rfl longer
  | takeAck front =>
      obtain ⟨old, placed, rfl⟩ := Option.map_eq_some_iff.mp after
      cases same placed
      exact absurd more (l.sendAck_out_ne _ r)
  | takeRequest taken =>
      obtain ⟨q, toRouter, link, -, placed, rfl⟩ := onTakeRequest_cases taken
      cases after
      rcases place_cases placed with ⟨-, isNone⟩ | ⟨old, legacy, held, -, -, isKept⟩ |
        ⟨old, «end», target, legacy, held, -, -, isReused⟩
      · cases isNone
      · cases isKept
        cases same held
        exact absurd le_rfl longer
      · cases isReused
        exact ⟨rfl, rfl⟩
  | connect up free joined => cases free.symm.trans before
  | sendRequest sent =>
      obtain ⟨creq, old, -, -, -, rfl⟩ := onSendRequest_cases sent
      cases after
      exact ⟨rfl, rfl⟩
  | read read =>
      obtain ⟨old, packet, inn, held, -, outcome⟩ := onRead_cases read
      cases same held
      rcases outcome with ⟨c, st, fw, -, rfl⟩ | ⟨st, -, rfl⟩ | ⟨reason, -, rfl⟩ | ⟨-, rfl⟩
      · cases after
        exact absurd le_rfl longer
      · cases after
        exact absurd more (Socket.sendAck_out_ne _ _ r)
      · cases after
      · cases after
        exact absurd le_rfl longer
  | linkEnd => cases after
  | marks head lib =>
      cases same after
      exact absurd le_rfl longer
  | nodeTake held taken =>
      cases same held
      cases after
      rcases Socket.nodeTake_cases taken with ⟨r, out, front, rfl⟩ | ⟨n, out, front, rfl⟩
      · simp [front] at longer
      · simp [front] at longer
  | nodeSend held sent =>
      cases same held
      obtain ⟨⟨node, f⟩, -, rfl⟩ := Option.map_eq_some_iff.mp sent
      cases after
      exact absurd le_rfl longer
  | evolve evolves =>
      obtain ⟨old, held, rfl⟩ := Option.map_eq_some_iff.mp after
      cases same held
      exact absurd le_rfl longer

def machine (start : γ) : Machine (System γ ν) (NetEvent ν α) where
  init s := s = fresh start
  step := step u

end System

end FleetRouter.Net
