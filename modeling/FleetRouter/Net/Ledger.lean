import FleetRouter.Net.Session

/-!
# The credit ledger

As long as a link serves the client's current request, the mirror's credit is
the upstream's credit, the results in flight and the acks in flight together.
The router reuses a settled socket although it has credit left; the ledger holds
across that as long as such a socket is really silent.
-/

namespace FleetRouter.Net

open Ship Session Transition

variable {γ ν α : Type}

/-! ## Channels -/

/-- The acks on a channel. -/
def acks : List Ask → Nat
  | [] => 0
  | .request _ :: asks => acks asks
  | .ack n :: asks => n.val + acks asks

@[simp] theorem requests_nil : requests [] = 0 := rfl

@[simp] theorem requests_request (r : BlocksRequest) (asks : List Ask) :
    requests (.request r :: asks) = requests asks + 1 := by
  simp [requests, List.countP_cons, Ask.isRequest]

@[simp] theorem requests_ack (n : Fin (2 ^ 32)) (asks : List Ask) :
    requests (.ack n :: asks) = requests asks := by
  simp [requests, Ask.isRequest]

@[simp] theorem requests_append (front back : List Ask) :
    requests (front ++ back) = requests front + requests back := by
  simp [requests]

@[simp] theorem balance_nil (credit : Nat) : balance credit [] = credit := rfl

@[simp] theorem balance_request (credit : Nat) (r : BlocksRequest) (asks : List Ask) :
    balance credit (.request r :: asks) = balance r.maxInFlight.val asks := rfl

@[simp] theorem balance_ack (credit : Nat) (n : Fin (2 ^ 32)) (asks : List Ask) :
    balance credit (.ack n :: asks) = balance (credit + n.val) asks := rfl

@[simp] theorem balance_append (credit : Nat) (front back : List Ask) :
    balance credit (front ++ back) = balance (balance credit front) back := by
  simp [balance]

/-- Without a request on the channel the acks add up. -/
theorem balance_of_requests {asks : List Ask} (none : requests asks = 0) (credit : Nat) :
    balance credit asks = credit + acks asks := by
  induction asks generalizing credit with
  | nil => rfl
  | cons ask asks ih =>
      cases ask with
      | request r => simp at none
      | ack n =>
          rw [balance_ack, ih (by simpa using none), acks]
          omega

theorem balance_mono {low high : Nat} (le : low ≤ high) (asks : List Ask) :
    balance low asks ≤ balance high asks := by
  induction asks generalizing low high with
  | nil => exact le
  | cons ask asks ih =>
      cases ask with
      | request r => exact le_rfl
      | ack n => exact ih (Nat.add_le_add_right le _)

/-- A request on the channel hides the credit before it. -/
theorem balance_eq_of_requests {asks : List Ask} (some : requests asks ≠ 0) (x y : Nat) :
    balance x asks = balance y asks := by
  induction asks generalizing x y with
  | nil => simp at some
  | cons ask asks ih =>
      cases ask with
      | request r => rfl
      | ack n => exact ih (by simpa using some) _ _

/-- The requests of a channel whose last message is an ack. -/
theorem split_concat_ack {asks front back : List Ask} {n : Fin (2 ^ 32)} {r : BlocksRequest}
    (split : asks ++ [.ack n] = front ++ .request r :: back) :
    ∃ rest, asks = front ++ .request r :: rest ∧ requests back = requests rest := by
  rcases List.eq_nil_or_concat back with rfl | ⟨rest, last, rfl⟩
  · have same := List.append_inj_right' split rfl
    simp at same
  · rw [List.concat_eq_append, ← List.cons_append, ← List.append_assoc] at split
    have isAck : [.ack n] = [last] := List.append_inj_right' split rfl
    refine ⟨rest, List.append_inj_left' split rfl, ?_⟩
    simp [List.concat_eq_append, ← isAck]

/-- The requests of a channel whose last message is a request. -/
theorem split_concat_request {asks front back : List Ask} {q r : BlocksRequest}
    (split : asks ++ [.request q] = front ++ .request r :: back) :
    front = asks ∨ ∃ rest, asks = front ++ .request r :: rest := by
  rcases List.eq_nil_or_concat back with rfl | ⟨rest, last, rfl⟩
  · exact .inl (List.append_inj_left' split rfl).symm
  · rw [List.concat_eq_append, ← List.cons_append, ← List.append_assoc] at split
    exact .inr ⟨rest, List.append_inj_left' split rfl⟩

/-- A request at the end of a channel is its last one. -/
theorem eq_of_last_request {asks front back : List Ask} {q r : BlocksRequest}
    (split : asks ++ [.request q] = front ++ .request r :: back) (last : requests back = 0) :
    r = q := by
  rcases List.eq_nil_or_concat back with rfl | ⟨rest, ask, rfl⟩
  · simpa using (List.append_inj_right' split rfl).symm
  · rw [List.concat_eq_append, ← List.cons_append, ← List.append_assoc] at split
    have isRequest : [.request q] = [ask] := List.append_inj_right' split rfl
    simp [List.concat_eq_append, ← isRequest] at last

theorem exists_request {asks : List Ask} (some : requests asks ≠ 0) :
    ∃ front r back, asks = front ++ .request r :: back ∧ requests front = 0 := by
  induction asks with
  | nil => simp at some
  | cons ask asks ih =>
      cases ask with
      | request r => exact ⟨[], r, asks, rfl, rfl⟩
      | ack n =>
          obtain ⟨front, r, back, rfl, none⟩ := ih (by simpa using some)
          exact ⟨.ack n :: front, r, back, rfl, by simpa using none⟩

/-! ## Links -/

section
variable (u : Upstream γ ν α)

/-- A link whose credit adds up. -/
structure Socket.Ledger (c : ClientSide) (l : Socket ν) : Prop where
  counted : l.sent = l.taken + requests l.out
  bounded : l.mutedUntil ≤ l.sent + 1
  /-- While a request is on its way nothing comes back: the router counts on
  silence, or the node is out of credit. -/
  quiet : ∀ front r back, l.out = front ++ .request r :: back →
    l.inn = [] ∧ (l.taken + requests front < l.mutedUntil ∨
      balance (u.credit l.node).val front = 0)
  idle : l.serving = false → l.inn = [] ∧ (l.mutedUntil = l.sent + 1 ∨
    (u.credit l.node).val = 0 ∧ l.out = [] ∧ l.st.req = none)
  serves : l.serving = true → c.req.isSome ∧ l.st.req.isSome ∧
    balance (u.credit l.node).val l.out + l.inn.length = c.credit.val

end

namespace Socket.Ledger

variable {u : Upstream γ ν α} {c : ClientSide} {l : Socket ν}

theorem inn_eq_nil (ledger : l.Ledger u c) (some : requests l.out ≠ 0) : l.inn = [] := by
  obtain ⟨front, r, back, split, -⟩ := exists_request some
  exact (ledger.quiet front r back split).1

theorem no_requests (ledger : l.Ledger u c) (some : l.inn ≠ []) : requests l.out = 0 := by
  by_contra pending
  exact some (ledger.inn_eq_nil pending)

theorem serving (ledger : l.Ledger u c) (some : l.inn ≠ []) : l.serving = true := by
  by_contra idle
  exact some (ledger.idle (by simpa using idle)).1

/-- An idle link with a request or something on its way is one the router counts on to be
silent. -/
theorem muted_of_idle (ledger : l.Ledger u c) (idle : l.serving = false)
    (used : l.out ≠ [] ∨ l.st.req ≠ none) : l.inn = [] ∧ l.mutedUntil = l.sent + 1 := by
  obtain ⟨silent, muted | ⟨-, noAsk, noRequest⟩⟩ := ledger.idle idle
  · exact ⟨silent, muted⟩
  · exact absurd used (by simp [noAsk, noRequest])

theorem new (c : ClientSide) (st : LinkState) (noRequest : st.req = none) {node : ν}
    (dry : u.credit node = 0) : (Socket.new st node).Ledger u c where
  counted := rfl
  bounded := Nat.zero_le _
  quiet := by simp [Socket.new]
  idle := fun _ => ⟨rfl, .inr ⟨by simp [Socket.new, dry], rfl, noRequest⟩⟩
  serves := by simp [Socket.new]

/-- Only the credit of the mirror and of the node, and whether there are
requests, matter. -/
theorem congr (ledger : l.Ledger u c) (c' : ClientSide) (st : LinkState) (node : ν)
    (request : c'.req = c.req) (credit : c'.credit = c.credit) (linkRequest : st.req = l.st.req)
    (nodeCredit : u.credit node = u.credit l.node) :
    Ledger u c' { l with st, node } where
  counted := ledger.counted
  bounded := ledger.bounded
  quiet := by simpa only [nodeCredit] using ledger.quiet
  idle := by simpa only [nodeCredit, linkRequest] using ledger.idle
  serves := by simpa only [nodeCredit, linkRequest, request, credit] using ledger.serves

/-- A link the router takes for silent can take a request. -/
theorem sendRequest (ledger : l.Ledger u c) (silent : c.credit ≠ 0 → l.inn = [])
    {c' : ClientSide} (isSome : c'.req.isSome) (creq : BlocksRequest) («end» : Fin (2 ^ 32))
    (purpose : Purpose) (target : Target) :
    (l.sendRequest c' creq c.credit «end» purpose target).Ledger u c' := by
  have empty : l.inn = [] := by
    by_contra some
    have total := (ledger.serves (ledger.serving some)).2.2
    have dry : c.credit = 0 := by
      by_contra credit
      exact some (silent credit)
    have := List.length_pos_iff.mpr some
    simp only [dry, Fin.val_zero] at total
    omega
  refine ⟨?_, ?_, ?_, nofun, ?_⟩
  · simp only [Socket.sendRequest, requests_append, requests_request, requests_nil,
      ledger.counted]
    omega
  · have := ledger.bounded
    simp only [Socket.sendRequest]
    split <;> omega
  · intro front r back split
    refine ⟨empty, ?_⟩
    have bounded := ledger.bounded
    have counted := ledger.counted
    simp only [Socket.sendRequest] at split ⊢
    rcases split_concat_request split with rfl | ⟨rest, inside⟩
    · by_cases dry : c.credit = 0
      · rw [if_pos dry]
        cases served : l.serving with
        | true =>
            have total := (ledger.serves served).2.2
            simp only [dry, Fin.val_zero] at total
            exact .inr (by omega)
        | false =>
            rcases (ledger.idle served).2 with muted | ⟨dryNode, noAsk, -⟩
            · exact .inl (by omega)
            · exact .inr (by simp [dryNode, noAsk])
      · rw [if_neg dry]
        exact .inl (by omega)
    · rcases (ledger.quiet front r rest inside).2 with muted | dry
      · refine .inl ?_
        split <;> omega
      · exact .inr dry
  · intro
    refine ⟨isSome, rfl, ?_⟩
    simp [Socket.sendRequest, empty, buildRequest]

/-- An ack the router passes on raises both credits. -/
theorem sendAck (ledger : l.Ledger u c) (c' : ClientSide) (request : c'.req = c.req)
    {n : Fin (2 ^ 32)} (raised : c'.credit.val = c.credit.val + n.val) :
    (l.sendAck n).Ledger u c' := by
  unfold Socket.sendAck
  split
  · rename_i passed
    refine ⟨?_, ledger.bounded, ?_, ?_, ?_⟩
    · simpa using ledger.counted
    · intro front r back split
      obtain ⟨rest, inside, -⟩ := split_concat_ack split
      exact ledger.quiet front r rest inside
    · intro idle
      obtain ⟨silent, muted⟩ := ledger.muted_of_idle idle (.inr fun noRequest => by
        simp [noRequest] at passed)
      exact ⟨silent, .inl muted⟩
    · intro served
      obtain ⟨some, linkSome, total⟩ := ledger.serves served
      refine ⟨by rwa [request], linkSome, ?_⟩
      simp only [balance_append, balance_ack, balance_nil]
      omega
  · rename_i kept
    refine ⟨ledger.counted, ledger.bounded, ledger.quiet, ledger.idle, ?_⟩
    intro served
    obtain ⟨some, linkSome, total⟩ := ledger.serves served
    have zero : n = 0 := by simpa [linkSome] using kept
    simp only [zero, Fin.val_zero, Nat.add_zero] at raised
    exact ⟨by rwa [request], linkSome, by rw [raised]; exact total⟩

/-- A socket kept across a new request is silent until the next one. -/
theorem keep (ledger : l.Ledger u c) (silent : l.inn = []) (c' : ClientSide) (st : LinkState) :
    Ledger u c' { l with st, serving := false, mutedUntil := l.sent + 1 } where
  counted := ledger.counted
  bounded := le_rfl
  quiet := by
    intro front r back split
    refine ⟨silent, .inl ?_⟩
    have counted := ledger.counted
    simp only at split ⊢
    rw [split] at counted
    simp only [requests_append, requests_request] at counted
    omega
  idle := fun _ => ⟨silent, .inl rfl⟩
  serves := nofun

/-- Taking a message does not change what the credit comes to. -/
theorem nodeTake (ledger : l.Ledger u c) {w : γ} {l' : Socket ν}
    (taken : l.nodeTake u w = some l') : l'.Ledger u c := by
  rcases Socket.nodeTake_cases taken with ⟨r, out, split, rfl⟩ | ⟨n, out, split, rfl⟩
  · have nextCredit := congrArg Fin.val (u.credit_onRequest w l.node r)
    have counted := ledger.counted
    simp only [split, requests_request] at counted
    refine ⟨by simp only; omega, ledger.bounded, ?_, ?_, ?_⟩
    · intro front q back inside
      have := ledger.quiet (.request r :: front) q back (split.trans (congrArg _ inside))
      simp only [requests_request, balance_request] at this
      simp only [nextCredit]
      exact ⟨this.1, this.2.imp (fun muted => by omega) id⟩
    · intro idle
      obtain ⟨silent, muted⟩ := ledger.muted_of_idle idle (.inl (by simp [split]))
      exact ⟨silent, .inl muted⟩
    · intro served
      have := ledger.serves served
      simpa only [split, balance_request, nextCredit] using this
  · have nextCredit := congrArg Fin.val (u.credit_onAck l.node n)
    have counted := ledger.counted
    simp only [split, requests_ack] at counted
    refine ⟨counted, ledger.bounded, ?_, ?_, ?_⟩
    · intro front q back inside
      have := ledger.quiet (.ack n :: front) q back (split.trans (congrArg _ inside))
      simp only [requests_ack, balance_ack] at this
      refine ⟨this.1, this.2.imp id fun dry => ?_⟩
      have le : (u.credit (u.onAck l.node n)).val ≤ (u.credit l.node).val + n.val := by
        rw [nextCredit, Fin.val_add]
        exact Nat.mod_le _ _
      exact Nat.le_zero.mp (dry ▸ balance_mono le front)
    · intro idle
      obtain ⟨silent, muted⟩ := ledger.muted_of_idle idle (.inl (by simp [split]))
      exact ⟨silent, .inl muted⟩
    · intro served
      obtain ⟨isSome, linkSome, total⟩ := ledger.serves served
      refine ⟨isSome, linkSome, ?_⟩
      simp only [split, balance_ack] at total ⊢
      by_cases pending : requests out = 0
      · rw [balance_of_requests pending] at total ⊢
        have fits : (u.credit l.node).val + n.val < 2 ^ 32 := by omega
        rw [nextCredit, Fin.val_add, Nat.mod_eq_of_lt fits]
        exact total
      · rwa [balance_eq_of_requests pending _ ((u.credit l.node).val + n.val)]

/-- A result is paid for with the node's credit. -/
theorem nodeSend (ledger : l.Ledger u c) (heard : l.muted = false) {w : γ} {choice : α}
    {l' : Socket ν} (sent : l.nodeSend u w choice = some l') : l'.Ledger u c := by
  simp only [Socket.nodeSend, Option.map_eq_some_iff] at sent
  obtain ⟨⟨node, f⟩, sends, rfl⟩ := sent
  have paid := u.credit_send _ _ _ _ _ sends
  have heard : ¬l.taken < l.mutedUntil := by simpa [Socket.muted] using heard
  have noRequest : requests l.out = 0 := by
    by_contra pending
    obtain ⟨front, r, back, split, noneBefore⟩ := exists_request pending
    rcases (ledger.quiet front r back split).2 with muted | dry
    · omega
    · rw [balance_of_requests noneBefore] at dry
      omega
  refine ⟨ledger.counted, ledger.bounded, ?_, ?_, ?_⟩
  · intro front r back split
    simp only at split
    simp [split] at noRequest
  · intro idle
    have counted := ledger.counted
    rcases (ledger.idle idle).2 with muted | ⟨dry, -, -⟩ <;> omega
  · intro served
    obtain ⟨isSome, linkSome, total⟩ := ledger.serves served
    refine ⟨isSome, linkSome, ?_⟩
    simp only [balance_of_requests noRequest, List.length_append, List.length_singleton] at total ⊢
    omega

/-- The first result in flight is read: the mirror pays for it, or refunds it. -/
theorem read (ledger : l.Ledger u c) {packet : Packet} {inn : List Packet}
    (first : l.inn = packet :: inn) (c' : ClientSide) (st : LinkState)
    (request : c'.req = c.req) (linkRequest : st.req.isSome)
    (paid : c'.credit.val + 1 = c.credit.val) : Ledger u c' { l with st, inn } := by
  have some : l.inn ≠ [] := by simp [first]
  have served := ledger.serving some
  have noRequest := ledger.no_requests some
  obtain ⟨isSome, -, total⟩ := ledger.serves served
  refine ⟨ledger.counted, ledger.bounded, ?_, ?_, ?_⟩
  · intro front r back split
    simp only at split
    simp [split] at noRequest
  · intro idle
    simp [served] at idle
  · intro
    refine ⟨by rwa [request], linkRequest, ?_⟩
    simp only [first, List.length_cons] at total ⊢
    omega

end Socket.Ledger

/-! ## Sessions -/

/-- A socket the router reuses although the client has credit left is silent:
nothing is in flight when the router takes it as settled, and the node sends
nothing until the next request reaches it. -/
def hushed (s : System γ ν) : NetEvent ν α → Prop
  | .takeRequest (.reuse _ _ _) => s.c.credit ≠ 0 → ∀ l ∈ s.link, l.inn = []
  | .takeRequest (.keep _) => ∀ l ∈ s.link, l.inn = []
  | .sendRequest _ _ _ _ => s.c.credit ≠ 0 → ∀ l ∈ s.link, l.inn = []
  | .nodeSend _ => ∀ l ∈ s.link, l.muted = false
  | _ => True

namespace System

/-- A session whose credit adds up on both sides of the router. -/
structure Balanced (u : Upstream γ ν α) (s : System γ ν) : Prop where
  link : ∀ l ∈ s.link, l.Ledger u s.c
  charged : s.overran = false
  epochs : s.client.epoch = s.epoch + requests s.toRouter
  tags : ∀ tag ∈ s.toClient, tag ≤ s.epoch
  /-- No result of a request is sent before the router has it. -/
  early : requests s.toRouter ≠ 0 → s.client.received = 0
  spent : requests s.toRouter = 0 →
    s.client.received + s.toClient.count s.epoch + s.c.credit.val = s.window
  granted : balance s.window s.toRouter ≤ s.client.granted

namespace Balanced

variable {u : Upstream γ ν α} {s s' : System γ ν}

theorem fresh (world : γ) : (System.fresh world : System γ ν).Balanced u where
  link := by simp [System.fresh]
  charged := rfl
  epochs := rfl
  tags := by simp [System.fresh]
  early := fun _ => rfl
  spent := by simp [System.fresh, ClientSide.default]
  granted := by simp [System.fresh]

/-- A step that leaves the client's side of the router alone. -/
theorem kept (inv : s.Balanced u) (world : γ) {c : ClientSide} {link : Option (Socket ν)}
    (credit : c.credit = s.c.credit) (ledger : ∀ l ∈ link, l.Ledger u c) :
    Balanced u { s with world, c, link } where
  link := ledger
  charged := inv.charged
  epochs := inv.epochs
  tags := inv.tags
  early := inv.early
  spent := by simpa only [credit] using inv.spent
  granted := inv.granted

theorem onClientSend (inv : s.Balanced u) (m : Ask) : (s.onClientSend m).Balanced u := by
  have epochs := inv.epochs
  cases m with
  | request r =>
      refine ⟨inv.link, inv.charged, ?_, inv.tags, fun _ => rfl, ?_, ?_⟩
      · simp only [System.onClientSend, requests_append, requests_request, requests_nil]
        omega
      · simp [System.onClientSend]
      · simp [System.onClientSend]
  | ack n =>
      refine ⟨inv.link, inv.charged, ?_, inv.tags, ?_, ?_, ?_⟩
      · simpa [System.onClientSend] using epochs
      · simpa [System.onClientSend] using inv.early
      · simpa [System.onClientSend] using inv.spent
      · simpa [System.onClientSend] using inv.granted

theorem clientReceive (inv : s.Balanced u) {tag : Nat} {toClient : List Nat}
    (split : s.toClient = tag :: toClient) :
    Balanced u
      { s with
        toClient
        client := if tag = s.client.epoch
          then { s.client with received := s.client.received + 1 } else s.client } := by
  have epochs := inv.epochs
  have low := inv.tags tag (by simp [split])
  refine ⟨inv.link, inv.charged, ?_, ?_, ?_, ?_, ?_⟩
  · simp only
    split <;> exact epochs
  · intro other member
    exact inv.tags other (by simp [split, member])
  · intro pending
    have late : tag ≠ s.client.epoch := by
      simp only at pending
      omega
    simpa only [if_neg late] using inv.early pending
  · intro none
    have spent := inv.spent none
    simp only [none, Nat.add_zero] at epochs
    rw [split, List.count_cons] at spent
    simp only [epochs]
    by_cases current : tag = s.epoch
    · simp only [current, if_true, beq_self_eq_true] at spent ⊢
      omega
    · simpa [current] using spent
  · simp only
    split <;> exact inv.granted

theorem takeAck (inv : s.Balanced u) {n : Fin (2 ^ 32)} {toRouter : List Ask}
    (split : s.toRouter = .ack n :: toRouter) :
    Balanced u
      { s with
        toRouter
        window := s.window + (s.c.ack n).2.val
        c := (s.c.ack n).1
        link := s.link.map fun l => l.sendAck (s.c.ack n).2 } := by
  have raised : (s.c.ack n).2.val ≤ n.val := by
    simp only [ClientSide.ack]
    have := saturatingAdd_val s.c.credit n
    omega
  have credit := ClientSide.ack_credit s.c n
  refine ⟨?_, inv.charged, ?_, inv.tags, ?_, ?_, ?_⟩
  · intro l placed
    simp only [Option.mem_def, Option.map_eq_some_iff] at placed
    obtain ⟨old, before, rfl⟩ := placed
    exact (inv.link old before).sendAck (s.c.ack n).1 rfl credit
  · simpa [split] using inv.epochs
  · simpa [split] using inv.early
  · intro none
    have spent := inv.spent (by simpa [split] using none)
    simp only
    omega
  · have granted := inv.granted
    simp only [split, balance_ack] at granted
    exact (balance_mono (Nat.add_le_add_left raised _) toRouter).trans granted

theorem onTakeRequest (inv : s.Balanced u) {placement : Placement}
    (hush : hushed s (.takeRequest placement : NetEvent ν α))
    (taken : s.onTakeRequest placement = some s') : s'.Balanced u := by
  obtain ⟨r, toRouter, link, split, placed, rfl⟩ := onTakeRequest_cases taken
  have epochs := inv.epochs
  simp only [split, requests_request] at epochs
  have early := inv.early (by simp [split])
  refine ⟨?_, inv.charged, by simp only; omega, ?_, fun _ => early, ?_, ?_⟩
  · rintro l ⟨⟩
    rcases place_cases placed with ⟨-, isNone⟩ | ⟨old, legacy, before, rfl, -, isKept⟩ |
      ⟨old, «end», target, legacy, before, rfl, -, isReused⟩
    · cases isNone
    · cases isKept
      exact (inv.link old before).keep (hush old before) _ _
    · cases isReused
      have opened := (inv.link old before).congr s.c { old.st with resumeFloor := none } old.node
        rfl rfl rfl rfl
      exact opened.sendRequest (fun credit => hush credit old before) rfl _ _ _ _
  · intro tag member
    exact (inv.tags tag member).trans (Nat.le_succ _)
  · intro
    have absent : s.toClient.count (s.epoch + 1) = 0 := by
      refine List.count_eq_zero.mpr fun member => ?_
      have := inv.tags _ member
      omega
    simp [early, absent, ClientSide.newRequest]
  · simpa [split] using inv.granted

theorem onSendRequest (inv : s.Balanced u) {«end» : Fin (2 ^ 32)} {purpose : Purpose}
    {target : Target} {legacy : Bool}
    (hush : hushed s (.sendRequest «end» purpose target legacy : NetEvent ν α))
    (sent : s.onSendRequest «end» purpose target legacy = some s') : s'.Balanced u := by
  obtain ⟨creq, l, request, before, -, rfl⟩ := onSendRequest_cases sent
  refine inv.kept s.world rfl ?_
  rintro _ ⟨⟩
  exact (inv.link l before).sendRequest (fun credit => hush credit l before)
    (by simp [request]) _ _ _ _

theorem onRead (inv : s.Balanced u) {answers : FleetAnswers}
    (read : s.onRead answers = some s') : s'.Balanced u := by
  obtain ⟨l, packet, inn, before, first, outcome⟩ := onRead_cases read
  have ledger := inv.link l before
  have some : l.inn ≠ [] := by simp [first]
  obtain ⟨isSome, linkSome, total⟩ := ledger.serves (ledger.serving some)
  have positive : 0 < s.c.credit.val := by
    have := List.length_pos_iff.mpr some
    omega
  obtain ⟨charged, paid⟩ := ClientSide.charge_credit positive
  rcases outcome with ⟨c, st, fw, handled, rfl⟩ | ⟨st, handled, rfl⟩ | ⟨reason, -, rfl⟩ |
    ⟨handled, -⟩
  · obtain ⟨creq, lr, -, linkRequest, -, rfl, rfl⟩ := onBlockResult_forwarded handled
    refine ⟨?_, ?_, inv.epochs, ?_, inv.early, ?_, inv.granted⟩
    · rintro _ ⟨⟩
      exact ledger.read first _ _ (by simp [headLibFor, ClientSide.charge])
        (by simp [commitLink, linkRequest]) (by simpa [headLibFor] using paid)
    · simp [inv.charged, charged]
    · intro tag member
      rcases List.mem_append.mp member with old | new
      · exact inv.tags tag old
      · exact (List.mem_singleton.mp new).le
    · intro none
      have spent := inv.spent none
      simp only [List.count_append, List.count_singleton_self, commitClient_credit, headLibFor]
      omega
  · obtain ⟨creq, lr, n, -, linkRequest, -, -, -, -, rfl⟩ := onBlockResult_dropped handled
    refine inv.kept s.world rfl ?_
    rintro _ ⟨⟩
    have unpaid := ledger.read first s.c.charge.1 (dropDuplicate l.st (.some (nextBlock n)))
      rfl (by simp [dropDuplicate, linkRequest]) paid
    exact unpaid.sendAck s.c rfl paid.symm
  · exact inv.kept s.world rfl (by simp)
  · rcases onBlockResult_ignored handled with none | none
    · simp [none] at isSome
    · simp [none] at linkSome

/-- Every step keeps the ledger, as long as reused sockets are silent. -/
theorem step (inv : s.Balanced u) {e : NetEvent ν α} (hush : hushed s e)
    (step : s.step u e = some s') : s'.Balanced u := by
  cases step_moves step with
  | clientSend m => exact inv.onClientSend m
  | clientReceive front => exact inv.clientReceive front
  | takeAck front => exact inv.takeAck front
  | takeRequest taken => exact inv.onTakeRequest hush taken
  | connect up free joined =>
      refine inv.kept s.world rfl ?_
      rintro _ ⟨⟩
      exact .new s.c _ rfl (u.credit_joins _ _ joined)
  | sendRequest sent => exact inv.onSendRequest hush sent
  | read read => exact inv.onRead read
  | linkEnd => exact inv.kept s.world rfl (by simp)
  | marks head lib =>
      refine inv.kept s.world rfl ?_
      intro l before
      exact (inv.link l before).congr _ l.st l.node rfl rfl rfl rfl
  | nodeTake held taken =>
      refine inv.kept s.world rfl ?_
      rintro _ ⟨⟩
      exact (inv.link _ held).nodeTake taken
  | nodeSend held sent =>
      refine inv.kept s.world rfl ?_
      rintro _ ⟨⟩
      exact (inv.link _ held).nodeSend (hush _ held) sent
  | @evolve choice world evolves =>
      refine inv.kept world rfl ?_
      intro l' moved
      obtain ⟨l, before, rfl⟩ := Option.map_eq_some_iff.mp moved
      exact (inv.link l before).congr s.c l.st _ rfl rfl rfl (u.credit_follow _ _ _)

theorem of_reachable {start : γ} (reachable : Reachable (machine u start) hushed s) :
    s.Balanced u := by
  refine Reachable.invariant (P := Balanced u) ?_ ?_ reachable
  · rintro _ rfl
    exact fresh start
  · intro s e s' _ inv hush step
    exact inv.step hush step

end Balanced

/-- The client's window after its acks: what is left of it is the mirror's
credit, the rest was sent. -/
theorem Balanced.within_window {u : Upstream γ ν α} {s : System γ ν} (inv : s.Balanced u)
    (current : s.client.epoch = s.epoch) :
    s.client.received + s.toClient.count s.epoch + s.c.credit.val = s.window ∧
      s.window ≤ s.client.granted := by
  have none : requests s.toRouter = 0 := by
    have := inv.epochs
    omega
  have granted := inv.granted
  rw [balance_of_requests none] at granted
  exact ⟨inv.spent none, by omega⟩

theorem Balanced.received_le {u : Upstream γ ν α} {s : System γ ν} (inv : s.Balanced u) :
    s.client.received ≤ s.client.granted := by
  by_cases pending : requests s.toRouter = 0
  · have := inv.within_window (by rw [inv.epochs, pending, Nat.add_zero])
    omega
  · simp [inv.early pending]

/-- In every run in which reused sockets are silent: as long as a link serves
the client's current request, the credits and what is in flight add up, and once
the request has reached the upstream its credit is at most the mirror's and the
acks on their way cannot wrap it; no result is charged without credit; and the
client gets no more results than its window, to which each ack adds what it
raised the saturating credit by. -/
theorem credit_ledger (u : Upstream γ ν α) (start : γ) {s : System γ ν}
    (reachable : Reachable (machine u start) hushed s) :
    (∀ l ∈ s.link, l.serving = true →
      balance (u.credit l.node).val l.out + l.inn.length = s.c.credit.val ∧
      (requests l.out = 0 →
        (u.credit l.node).val + l.inn.length + acks l.out = s.c.credit.val ∧
        u.credit l.node ≤ s.c.credit ∧
        ∀ n rest, l.out = .ack n :: rest →
          (u.credit (u.onAck l.node n)).val = (u.credit l.node).val + n.val)) ∧
    s.overran = false ∧
    s.client.received ≤ s.client.granted ∧
    (s.client.epoch = s.epoch →
      s.client.received + s.toClient.count s.epoch + s.c.credit.val = s.window ∧
        s.window ≤ s.client.granted) := by
  have inv := Balanced.of_reachable reachable
  refine ⟨?_, inv.charged, inv.received_le, inv.within_window⟩
  intro l placed served
  obtain ⟨-, -, total⟩ := (inv.link l placed).serves served
  refine ⟨total, fun arrived => ?_⟩
  rw [balance_of_requests arrived] at total
  refine ⟨by omega, by omega, ?_⟩
  intro n rest split
  rw [split, acks] at total
  have fits : (u.credit l.node).val + n.val < 2 ^ 32 := by omega
  rw [u.credit_onAck, Fin.val_add, Nat.mod_eq_of_lt fits]

end System

/-! ## An upstream that is only a credit -/

/-- The upstream that sends any result while it has credit. -/
def meter : Upstream Unit (Fin (2 ^ 32)) ResultHead where
  role := fun _ => .live
  credit := id
  joins := fun _ credit => credit = 0
  evolve := fun _ _ => none
  follow := fun _ _ credit => credit
  onRequest := fun _ _ r => r.maxInFlight
  onAck := fun credit n => credit + n
  send := fun _ credit h =>
    if credit.val = 0 then none else some (⟨credit.val - 1, by omega⟩, { h, block := none })
  credit_joins := by simp
  credit_follow := by simp
  credit_onRequest := by simp
  credit_onAck := by simp
  credit_send := by
    intro _ credit _ left _ sent
    simp only [Option.ite_none_left_eq_some, Option.some.injEq, Prod.mk.injEq] at sent
    obtain ⟨positive, rfl, -⟩ := sent
    simp only [id]
    omega

instance (s : System γ ν) : (e : NetEvent ν α) → Decidable (hushed s e)
  | .takeRequest (.reuse _ _ _) => inferInstanceAs (Decidable (_ → ∀ l ∈ s.link, l.inn = []))
  | .takeRequest (.keep _) => inferInstanceAs (Decidable (∀ l ∈ s.link, l.inn = []))
  | .takeRequest .drop => .isTrue trivial
  | .sendRequest _ _ _ _ => inferInstanceAs (Decidable (_ → ∀ l ∈ s.link, l.inn = []))
  | .nodeSend _ => inferInstanceAs (Decidable (∀ l ∈ s.link, l.muted = false))
  | .clientSend _ | .clientReceive | .takeAck | .connect _ _ | .read _ | .linkEnd | .marks _ _
  | .nodeTake | .evolve _ => .isTrue trivial

/-- The first request asks for blocks 101 and 102, both irreversible, with
credit for ten results; both are read. -/
def shortStream : List (NetEvent (Fin (2 ^ 32)) ResultHead) :=
  [.clientSend (.request { streamRequest with «end» := 103, maxInFlight := 10 }),
    .takeRequest .drop, .connect 0 0, .sendRequest 103 .initial ⟨.pool, none⟩ false, .nodeTake,
    .nodeSend (liveResult 101 110 110), .nodeSend (liveResult 102 110 110),
    .read quietFleet, .read quietFleet]

/-- The client asks for blocks from 200 on, and the socket is reused. -/
def secondStream : List (NetEvent (Fin (2 ^ 32)) ResultHead) :=
  [.clientSend (.request { streamRequest with start := 200, maxInFlight := 5 }),
    .takeRequest (.reuse 1000 ⟨.pool, none⟩ false), .nodeTake]

/-- A third result of the first request is in flight when the socket is
reused, since eight of its ten credits are left.  The mirror and the upstream
disagree from then on, and the client gets six results for a window of
five. -/
theorem stale_result_breaks_ledger :
    (∃ s, Reachable (System.machine meter ()) (fun _ _ => True) s ∧
      ∃ l ∈ s.link, l.serving = true ∧ requests l.out = 0 ∧
        l.node.val + l.inn.length + acks l.out ≠ s.c.credit.val) ∧
    ∃ s, Reachable (System.machine meter ()) (fun _ _ => True) s ∧
      s.overran = true ∧ s.client.granted < s.client.received :=
  ⟨exists_reachable_of_run
      (shortStream ++ [.nodeSend (liveResult 103 110 110)] ++ secondStream) rfl
      (by decide +kernel),
    exists_reachable_of_run
      (shortStream ++ [.nodeSend (liveResult 103 110 110)] ++ secondStream ++
        [200, 201, 202, 203, 204].map (fun n => .nodeSend (liveResult n 210 110)) ++
        List.replicate 6 (.read quietFleet) ++ List.replicate 8 .clientReceive) rfl
      (by decide +kernel)⟩

/-- Without the third result the run is allowed: a result and an ack of the
second request are in flight, and the ledger holds. -/
theorem credit_ledger_sample :
    ∃ s, Reachable (System.machine meter ()) hushed s ∧
      (∃ l ∈ s.link, l.serving = true ∧ requests l.out = 0 ∧ l.inn.length = 1 ∧
        acks l.out = 3 ∧ l.node.val + 1 + 3 = s.c.credit.val) ∧
      s.overran = false := by
  have found : ∃ s, Reachable (System.machine meter ()) hushed s ∧
      ∃ l ∈ s.link, l.serving = true ∧ requests l.out = 0 ∧ l.inn.length = 1 ∧
        acks l.out = 3 :=
    exists_reachable_of_run
      (shortStream ++ secondStream ++
        [.nodeSend (liveResult 200 210 110), .clientSend (.ack 3), .takeAck]) rfl
      (by decide +kernel)
  obtain ⟨s, reachable, l, placed, served, arrived, one, three⟩ := found
  obtain ⟨links, charged, -⟩ := System.credit_ledger meter () reachable
  have total := ((links l placed served).2 arrived).1
  rw [one, three] at total
  exact ⟨s, reachable, ⟨l, placed, served, arrived, one, three, total⟩, charged⟩

end FleetRouter.Net
