import FleetRouter.Fleet.Planner

/-!
# Candidate choice for chain API requests

A request sees the upstream APIs of its listener as views, asks for an order of
attempts, and classifies the answer of every attempt it makes.
-/

namespace FleetRouter.ChainApi

open Ship Session Fleet

/-- What a request knows about one upstream API. -/
structure ApiView where
  index : Nat
  endpoint : String
  role : Role
  priority : Nat
  weight : Nat
  up : Bool
  busy : Bool
  inFlight : Nat
  full : Bool
  /-- The paths the API advertises, when known. -/
  apis : Option (List String)
  head : Option (Fin (2 ^ 32))
  lib : Option (Fin (2 ^ 32))
  earliest : Option (Fin (2 ^ 32))
  verified : Bool
  blocks : Option Range
  declared : Option Range
  deriving DecidableEq, Repr

namespace ApiView

def isLive (a : ApiView) : Bool := a.role = .live

/-- An API that advertises nothing is assumed to serve every path when it is live,
none when it is frozen. -/
def lists (a : ApiView) (path : String) : Bool :=
  match a.apis with
  | some apis => apis.contains path
  | none => a.isLive

/-- Up, not busy, and serving the path. -/
def usable (a : ApiView) (path : String) : Bool := a.up && !a.busy && a.lists path

end ApiView

/-- The APIs of a listener as one request sees them, found by index. -/
structure ApiDirectory where
  apis : List ApiView
  nodup : (apis.map ApiView.index).Nodup

def ApiDirectory.slot (dir : ApiDirectory) (index : Nat) : Option ApiView :=
  dir.apis.find? fun a => a.index = index

theorem ApiDirectory.slot_index {dir : ApiDirectory} {index : Nat} {slot : ApiView}
    (found : dir.slot index = some slot) : slot.index = index := by
  simpa using List.find?_some found

/-- An API with the index of a live one is live. -/
theorem ApiDirectory.live_of_index {dir : ApiDirectory} {a b : ApiView} (live : a.role = .live)
    (isApi : a ∈ dir.apis) (isOther : b ∈ dir.apis) (same : b.index = a.index) :
    b.role = .live := by
  rw [List.inj_on_of_nodup_map dir.nodup isOther isApi same, live]

/-! ## Orders -/

/-- A stable sort. -/
def sortBy {α : Type} (cmp : α → α → Ordering) (xs : List α) : List α :=
  xs.insertionSort fun a b => cmp a b ≠ .gt

@[simp] theorem mem_sortBy {α : Type} {cmp : α → α → Ordering} {xs : List α} {x : α} :
    x ∈ sortBy cmp xs ↔ x ∈ xs := List.mem_insertionSort _

/-- Weighted least load; equal load goes to the higher weight. -/
def byLoad (a b : ApiView) : Ordering :=
  let wa := max a.weight 1
  let wb := max b.weight 1
  (compare (a.inFlight * wb) (b.inFlight * wa)).then (compare wb wa)

/-- A state or exec request, or a block request without a hint. -/
structure StateQuery where
  path : String
  shipHead : Option (Fin (2 ^ 32))
  /-- `live_lag_blocks`; 0 disables the laggard rule. -/
  lag : Fin (2 ^ 32)
  /-- Round-robin position. -/
  rr : Nat
  maxAttempts : Nat
  deriving DecidableEq, Repr

/-- Up live APIs serving the path, without those that lag unless all do. -/
def stateCandidates (q : StateQuery) (apis : List ApiView) : List ApiView :=
  let cands := apis.filter fun a => a.isLive && a.usable q.path
  match (cands.filterMap ApiView.head ++ q.shipHead.toList).max? with
  | some head =>
      let fresh := cands.filter fun a => a.head.any fun h => head.val - q.lag.val ≤ h.val
      if 0 < q.lag ∧ !fresh.isEmpty then fresh else cands
  | none => cands

/-- Attempt order of a state call: by priority, weighted load, then round-robin. -/
def stateOrder (q : StateQuery) (apis : List ApiView) : List Nat :=
  let cands := sortBy (fun a b => compare a.index b.index) (stateCandidates q apis)
  let k := max cands.length 1
  let shift := q.rr % k
  let ranked := cands.zipIdx.map fun (a, i) => ((i + k - shift) % k, a)
  let sorted := sortBy
    (fun x y => (compare x.2.priority y.2.priority).then
      ((byLoad x.2 y.2).then (compare x.1 y.1))) ranked
  (sorted.take (max q.maxAttempts 1)).map fun x => x.2.index

theorem stateCandidates_live {q : StateQuery} {apis : List ApiView} {a : ApiView}
    (member : a ∈ stateCandidates q apis) :
    a ∈ apis ∧ a.role = .live ∧ a.usable q.path = true := by
  have filtered : a ∈ apis.filter fun a => a.isLive && a.usable q.path := by
    simp only [stateCandidates] at member
    split at member
    · split at member
      · exact (List.mem_filter.mp member).1
      · exact member
    · exact member
  simpa [ApiView.isLive] using filtered

/-- A state call goes to live APIs only. -/
theorem stateOrder_live {q : StateQuery} {apis : List ApiView} {index : Nat}
    (member : index ∈ stateOrder q apis) :
    ∃ a ∈ apis, a.index = index ∧ a.role = .live ∧ a.usable q.path = true := by
  simp only [stateOrder, List.mem_map] at member
  obtain ⟨ranked, taken, rfl⟩ := member
  have sorted := mem_sortBy.mp (List.mem_of_mem_take taken)
  obtain ⟨⟨a, i⟩, numbered, rfl⟩ := List.mem_map.mp sorted
  have cand := mem_sortBy.mp (List.fst_mem_of_mem_zipIdx numbered)
  obtain ⟨isApi, live, usable⟩ := stateCandidates_live cand
  exact ⟨a, isApi, rfl, live, usable⟩

def getInfo : String := "/v1/chain/get_info"

/-- Another API's head has reached the primary's head + 2. -/
def overtaken (best primary : ApiView) : Bool :=
  match best.head, primary.head with
  | some best, some head => min (head.val + 2) (2 ^ 32 - 1) ≤ best.val
  | some _, none => true
  | none, _ => false

/-- The live API that answers `get_info`: the current one while it is up and not
overtaken, else the one with the highest head. -/
def infoPrimary (apis : List ApiView) (current : Option Nat) : Option Nat :=
  let up := apis.filter fun a => a.isLive && a.up && a.lists getInfo
  let best := minBy (fun a b => (compare b.head a.head).then
    ((compare a.priority b.priority).then (compare a.index b.index))) up
  best.map fun best =>
    match current.bind fun i => up.find? fun a => a.index = i with
    | some primary => if overtaken best primary then best.index else primary.index
    | none => best.index

/-- Targets of a push, in order: the usable push servers, or the `get_info`
primary when none is configured. -/
def pushTargets (apis : List ApiView) (path : String) (pushServers : List Nat)
    (primary : Option Nat) : List Nat :=
  let usable (i : Nat) : Bool := apis.any fun a => a.index = i && a.isLive && a.usable path
  if pushServers.isEmpty then (primary.filter usable).toList else pushServers.filter usable

/-- A push goes to live APIs only. -/
theorem pushTargets_live {apis : List ApiView} {path : String} {pushServers : List Nat}
    {primary : Option Nat} {index : Nat}
    (member : index ∈ pushTargets apis path pushServers primary) :
    ∃ a ∈ apis, a.index = index ∧ a.role = .live ∧ a.usable path = true := by
  have usable : (apis.any fun a => a.index = index && a.isLive && a.usable path) = true := by
    unfold pushTargets at member
    split at member
    · exact (Option.filter_eq_some_iff.mp (Option.mem_toList.mp member)).2
    · exact (List.mem_filter.mp member).2
  simpa [ApiView.isLive, and_assoc] using usable

/-- The configured push servers in their order, or the `get_info` primary when
none is configured. -/
def pushServersOr (pushServers : List Nat) (primary : Option Nat) : List Nat :=
  if pushServers.isEmpty then primary.toList else pushServers

theorem pushTargets_sublist (apis : List ApiView) (path : String) (pushServers : List Nat)
    (primary : Option Nat) :
    (pushTargets apis path pushServers primary).Sublist (pushServersOr pushServers primary) := by
  unfold pushTargets pushServersOr
  split
  · cases primary with
    | none => exact .refl _
    | some p =>
        simp only [Option.filter_some]
        split
        · exact .refl _
        · exact List.nil_sublist _
  · exact List.filter_sublist

/-! ## Attempts -/

/-- What the next attempt does. -/
inductive NextAttempt where
  /-- Send to this API, whose slot is free. -/
  | attempt (index : Nat)
  /-- Every remaining candidate is full: wait for a slot on this one. -/
  | wait (index : Nat)
  | exhausted
  deriving DecidableEq, Repr

/-- The first untried candidate whose slot is free. -/
def nextAttempt (order tried : List Nat) (full : Nat → Bool) : NextAttempt :=
  match order.filter fun i => !tried.contains i with
  | [] => .exhausted
  | first :: rest =>
      if !full first then .attempt first
      else
        match rest.find? fun i => !full i with
        | some i => .attempt i
        | none => .wait first

/-- The next attempt is on an untried candidate. -/
theorem nextAttempt_untried {order tried : List Nat} {full : Nat → Bool} {index : Nat}
    (next : nextAttempt order tried full = .attempt index ∨
      nextAttempt order tried full = .wait index) : index ∈ order ∧ index ∉ tried := by
  have untried : index ∈ order.filter fun i => !tried.contains i := by
    unfold nextAttempt at next
    split at next
    · simp at next
    · rename_i first rest remaining
      rw [remaining, List.mem_cons]
      split at next
      · simp only [NextAttempt.attempt.injEq, reduceCtorEq, or_false] at next
        exact .inl next.symm
      · split at next
        · rename_i found
          simp only [NextAttempt.attempt.injEq, reduceCtorEq, or_false] at next
          exact .inr (next ▸ List.mem_of_find?_eq_some found)
        · simp only [NextAttempt.wait.injEq, reduceCtorEq, false_or] at next
          exact .inl next.symm
  simpa using untried

/-- Whether a block is final on every node. -/
inductive Region where
  | irreversible
  | reversible
  deriving DecidableEq, Repr

/-- The body of an answer, with the `error.code` it parses to when it is a nodeos
error. -/
structure Body where
  bytes : List UInt8
  errorCode : Option Int
  deriving DecidableEq, Repr

/-- Why an attempt moved on. -/
inductive RetryReason where
  | unknownBlock
  | notFound
  | busy
  | connect
  | timeout
  | error
  deriving DecidableEq, Repr

/-- One attempt's result, with the body when it was buffered. -/
inductive Answer where
  | connect
  | timeout
  | response (status : Fin (2 ^ 16)) (body : Option Body)
  deriving DecidableEq, Repr

/-- What to do with an attempt's result. -/
inductive Outcome where
  | final
  | next (reason : RetryReason) (keep : Bool)
  deriving DecidableEq, Repr

/-- Largest non-2xx body buffered to classify it. -/
def peekLimit : Nat := 64 * 1024

def unknownBlockCode : Int := 3100002

/-- Whether a response must be buffered before it is classified. -/
def needsPeek (region : Region) (status : Fin (2 ^ 16)) (length : Option Nat) : Bool :=
  region = .irreversible && (status = 400 || status = 404) && length.all fun n => n ≤ peekLimit

/-- Whether the body is a nodeos error with the code of an unknown block. -/
def isUnknownBlock (body : Body) : Bool := body.errorCode = some unknownBlockCode

def classify (region : Region) (answer : Answer) : Outcome :=
  match answer with
  | .connect => .next .connect false
  | .timeout => .next .timeout false
  | .response status body =>
      if status = 503 then .next .busy false
      else if region = .reversible then .final
      else
        match body with
        | some body =>
            if status = 400 && isUnknownBlock body then .next .unknownBlock true
            else if status = 404 then .next .notFound true
            else .final
        | none => .final

/-- Whether a kept answer may still become the final one. -/
def keeps (reason : RetryReason) (claimed : Bool) : Bool := !(claimed && reason = .unknownBlock)

/-- Whether an answer that moves on is the final one after all. -/
def settles (reason : RetryReason) (idHolder : Bool) : Bool := idHolder && reason = .unknownBlock

/-- The last kept answer from a live API, else the last kept one. -/
def exhausted {α : Type} (kept : List (Role × α)) : Option α :=
  ((kept.reverse.find? fun k => k.1 = .live).or kept.getLast?).map Prod.snd

end FleetRouter.ChainApi
