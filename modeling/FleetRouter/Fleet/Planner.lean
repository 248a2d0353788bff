import Mathlib.Data.List.Dedup
import Mathlib.Data.List.Sort
import FleetRouter.Fleet.View

/-!
# Planning the legs of a stitched request

Which upstream may serve a request from a given block, where its run ends, and
when a session must hold or wait instead.  `nextStep` plans a leg and `serveOn`
checks a leg that is already being dialed; both clamp a frozen leg to the
archive's own end and to the fleet gate.
-/

namespace FleetRouter.Fleet

open Ship Session

/-- The data a request asks for. -/
structure Need where
  traces : Bool
  deltas : Bool
  finality : Bool
  block : Bool
  deriving DecidableEq, Repr

def Need.of (r : BlocksRequest) : Need where
  traces := r.fetchTraces
  deltas := r.fetchDeltas
  finality := r.v1 && r.fetchFinalityData
  block := r.fetchBlock

/-- What the planner needs to know about a client request. -/
structure Shape where
  need : Need
  «end» : Fin (2 ^ 32)
  irreversibleOnly : Bool
  deriving DecidableEq, Repr

def Shape.of (r : BlocksRequest) : Shape where
  need := Need.of r
  «end» := r.end
  irreversibleOnly := r.irreversibleOnly

/-- Which upstreams define the union for eligibility. -/
inductive Union where
  | sticky
  | online
  deriving DecidableEq, Repr

/-- Upstreams a session avoids. -/
structure Excludes where
  soft : Option String
  hard : List (String × Nat)
  deriving DecidableEq, Repr

def Excludes.hardActive (ex : Excludes) (endpoint : String) (now : Nat) : Bool :=
  ex.hard.any fun entry => entry.1 = endpoint && now < entry.2

/-- Serve `[start, reqEnd)` from upstream `up`. -/
structure ServeStep where
  up : Nat
  endpoint : String
  role : Role
  start : Fin (2 ^ 32)
  reqEnd : Fin (2 ^ 32)
  deriving DecidableEq, Repr

/-- Why a session holds instead of serving. -/
inductive HoldWhy where
  | offline
  | quarantined
  | atCapacity
  | busy
  deriving DecidableEq, Repr

/-- What a session should do for its next block. -/
inductive Step where
  | serve (leg : ServeStep)
  | hold (block : Fin (2 ^ 32)) (why : HoldWhy) (bounded : Bool)
  | wait (block : Fin (2 ^ 32))
  | gap (block : Fin (2 ^ 32))
  | done
  deriving DecidableEq, Repr

inductive HistoryPreference where
  | frozen
  | any
  deriving DecidableEq, Repr

/-- What a session plans with: the fleet view and tip, what it avoids, the slots
it holds itself, and the listener's policy. -/
structure Planning where
  view : FleetView
  tip : Option BlockPos × Option BlockPos
  ex : Excludes
  own : List Nat
  sid : UInt64
  historyPreference : HistoryPreference
  lag : Fin (2 ^ 32)
  allowOffline : Bool
  now : Nat

/-! ## Eligibility -/

/-- 64-bit FNV-1a. -/
def fnv1a64 (bytes : List UInt8) : UInt64 :=
  bytes.foldl (fun hash byte => (hash ^^^ byte.toUInt64) * 0x00000100000001b3)
    0xcbf29ce484222325

/-- The deterministic tie-break. -/
def rendezvous (sid : UInt64) (endpoint : String) : UInt64 :=
  fnv1a64 ((List.range 8).map (fun i => (sid >>> (8 * i).toUInt64).toUInt8)
    ++ endpoint.toUTF8.toList)

/-- Whether the union has the log at block `n`. -/
def unionHas (v : FleetView) (union : Union) (n : Fin (2 ^ 32)) (log : Log) : Bool :=
  match union with
  | .sticky => (v.cov log).has n
  | .online => v.upstreams.any fun w => w.routable && w.online && w.covers log n

def eligibleWith (v : FleetView) (u : UpstreamView) (need : Need) (n : Fin (2 ^ 32))
    (union : Union) (now : Nat) (checkQuarantine : Bool) : Bool :=
  let has := unionHas v union n
  if !u.routable || !u.known || !u.abiOk then false
  else if checkQuarantine && u.quarantinedAt n now then false
  else if need.traces && has .trace && !u.covers .trace n then false
  else if need.deltas && has .chainState && !u.covers .chainState n then false
  else if need.finality && has .finality && !u.covers .finality n then false
  else if (has .trace || has .chainState || has .finality) && !u.coversIds n then false
  else true

/-- Whether `u` may serve block `n` of a request that needs `need`. -/
def eligible (v : FleetView) (u : UpstreamView) (need : Need) (n : Fin (2 ^ 32))
    (union : Union) (now : Nat) : Bool :=
  eligibleWith v u need n union now true

/-- A live upstream far behind the fleet head, asked for a block above its own
head. -/
def laggingFor (v : FleetView) (u : UpstreamView) (n lag : Fin (2 ^ 32)) : Bool :=
  0 < lag && u.role = .live &&
    match u.head, v.head with
    | some h, some f => saturatingAdd h.num lag < f.num && h.num < n
    | _, _ => false

/-! ## Runs -/

/-- The bounds of `u`'s active quarantines. -/
def quarantineBounds (u : UpstreamView) (now : Nat) : List (Fin (2 ^ 32)) :=
  (u.quarantines.filter fun q => q.active now).flatMap fun q => q.block :: q.stop.toList

/-- Every block where eligibility can change for `u`. -/
def breakpoints (v : FleetView) (u : UpstreamView) (now : Nat) : List (Fin (2 ^ 32)) :=
  ((v.upstreams.filter fun w => w.enabled && w.known).flatMap fun w =>
    w.logs.flatMap fun log =>
      (w.range log).begin :: if w.role = .frozen then [(w.range log).end] else [])
    ++ quarantineBounds u now ++ v.idsBegin.toList

/-- The first breakpoint where the run stops, if any is below `cap`. -/
def scanRun (cap : Fin (2 ^ 32)) (stops : Fin (2 ^ 32) → Bool) :
    List (Fin (2 ^ 32)) → Fin (2 ^ 32)
  | [] => cap
  | b :: rest => if cap ≤ b then cap else if stops b then b else scanRun cap stops rest

/-- Where a run ends at the latest: a frozen upstream has nothing past its own
end. -/
def runCap (u : UpstreamView) : Fin (2 ^ 32) :=
  match u.role with
  | .frozen => u.maxEnd
  | .live => ⟨u32Max, u32Max_lt⟩

/-- Another upstream that holds blocks and could take the stream at `b`. -/
def holderAt (v : FleetView) (u : UpstreamView) (need : Need) (now : Nat) (b : Fin (2 ^ 32))
    (w : UpstreamView) : Bool :=
  w.index ≠ u.index && !w.noBlockLog && w.online && !w.atCapacity
    && eligible v w need b .sticky now

/-- Where the run of `u` stops: it may not serve the block, or it has no block log and yields. -/
def runStops (v : FleetView) (u : UpstreamView) (need : Need) (now : Nat)
    (b : Fin (2 ^ 32)) : Bool :=
  !eligible v u need b .sticky now
    || ((need.block && u.noBlockLog) && v.upstreams.any (holderAt v u need now b))

/-- The quarantine bounds of the upstreams a run may yield to. -/
def otherBounds (v : FleetView) (u : UpstreamView) (need : Need) (now : Nat) :
    List (Fin (2 ^ 32)) :=
  if need.block && u.noBlockLog then
    (v.upstreams.filter fun w => w.index ≠ u.index).flatMap fun w => quarantineBounds w now
  else []

/-- The points a run is scanned at. -/
def runPoints (v : FleetView) (u : UpstreamView) (need : Need) (start : Fin (2 ^ 32))
    (now : Nat) : List (Fin (2 ^ 32)) :=
  (((breakpoints v u now ++ otherBounds v u need now).filter fun b => start < b).insertionSort
    (· ≤ ·)).dedup

/-- The first block above `start` that `u` cannot serve under the sticky union,
or where an archive without a block log yields to an upstream that holds
blocks. -/
def runEnd (v : FleetView) (u : UpstreamView) (need : Need) (start : Fin (2 ^ 32))
    (now : Nat) : Fin (2 ^ 32) :=
  scanRun (runCap u) (runStops v u need now) (runPoints v u need start now)

/-- Every upstream that could serve the block is live. -/
def tipRegion (v : FleetView) (n : Fin (2 ^ 32)) : Bool :=
  let covering := v.upstreams.filter fun u => u.enabled && u.known && u.coversIds n
  !covering.isEmpty && covering.all fun u => u.role = .live

/-! ## Choosing a leg -/

/-- Whether `nextStep` ranks `u` for the block at all. -/
def candidate (v : FleetView) (u : UpstreamView) (sh : Shape) (start : Fin (2 ^ 32))
    (ex : Excludes) (now : Nat) : Bool :=
  if ex.hardActive u.endpoint now then false
  else if v.idsBegin.any fun b => start < b then
    u.routable && u.known && u.abiOk && u.idsBegin = v.idsBegin
  else eligible v u sh.need start .sticky now

/-- The end of the leg `u` is sent.  A frozen leg also stops behind the gate, and
there is none when the gate is below its start. -/
def gatedEnd (u : UpstreamView) (tip : Option BlockPos × Option BlockPos) (sh : Shape)
    (start run : Fin (2 ^ 32)) : Option (Fin (2 ^ 32)) :=
  if u.role ≠ .frozen then some run
  else
    match if sh.irreversibleOnly then tip.2 else tip.1 with
    | some gate => if start ≤ gate.num then some (min run (nextBlock gate.num)) else none
    | none => none

/-- A candidate with its ranking keys. -/
structure Ranked where
  up : UpstreamView
  head : List Nat
  conns : Nat
  run : Fin (2 ^ 32)
  hash : UInt64

/-- Operator preference between two upstreams that serve a request equally
well, with the connections that count for each. -/
def preference (a : UpstreamView) (aConns : Nat) (b : UpstreamView) (bConns : Nat) : Ordering :=
  let aWeight := max a.weight 1
  let bWeight := max b.weight 1
  (compare a.priority b.priority).then
    ((compare (aConns * bWeight) (bConns * aWeight)).then (compare bWeight aWeight))

def Ranked.compare (a b : Ranked) : Ordering :=
  (Ord.compare a.head b.head).then
    ((Ord.compare a.up.priority b.up.priority).then
      ((Ord.compare b.run a.run).then
        ((preference a.up a.conns b.up b.conns).then (Ord.compare a.hash b.hash))))

/-- The first of the least elements. -/
def minBy {α : Type} (cmp : α → α → Ordering) : List α → Option α
  | [] => none
  | first :: rest => some (rest.foldl (fun best x => if cmp x best = .lt then x else best) first)

namespace Planning

variable (p : Planning) (sh : Shape) (start : Fin (2 ^ 32))

/-- The session's own slots on an upstream. -/
def mine (u : UpstreamView) : Nat := p.own.count u.index

def full (u : UpstreamView) : Bool := u.atCapacityBesides (p.mine u)

def rank (u : UpstreamView) : Ranked where
  up := u
  head :=
    [ (!u.online).toNat
    , (u.stale || laggingFor p.view u start p.lag).toNat
    , (p.full u).toNat
    , (sh.need.block && u.noBlockLog).toNat
    , (p.historyPreference = .frozen && u.role = .live : Bool).toNat
    , (p.ex.soft = some u.endpoint : Bool).toNat ]
  conns := u.connections - p.mine u
  run := min (runEnd p.view u sh.need start p.now) sh.end
  hash := rendezvous p.sid u.endpoint

/-- The candidate that ranks first. -/
def best : Option Ranked :=
  minBy Ranked.compare
    ((p.view.upstreams.filter fun u => candidate p.view u sh start p.ex p.now).map
      (p.rank sh start))

/-- Why nothing can serve the block now. -/
def holdReason : HoldWhy :=
  if p.view.upstreams.any fun u => p.ex.hardActive u.endpoint p.now then .busy
  else if p.view.upstreams.any fun u => u.enabled && u.operatorDisabled && u.coversIds start
    then .offline
  else .quarantined

/-- The block is below the fleet's first id. -/
def below : Bool := p.view.idsBegin.any fun b => start < b

/-- The next step of a stitched session whose cursor is `start`. -/
def nextStep : Step :=
  let v := p.view
  if sh.end ≤ start then .done
  else if !p.below start && !v.ids.has start then
    if v.idsBegin.isNone || (v.ids.top.end ≤ start && v.ids.liveTailBegin.isNone) then
      .wait start
    else if 0 < v.frozenUnknown then .hold start .offline true
    else .gap start
  else if p.below start && 0 < v.frozenUnknown then .hold start .offline true
  else
    match p.best sh start with
    | none => .hold start (p.holdReason start) (!tipRegion v start)
    | some chosen =>
        if !chosen.up.online && !p.allowOffline then .hold start .offline (!tipRegion v start)
        else
          match gatedEnd chosen.up p.tip sh start chosen.run with
          | none => .wait start
          | some reqEnd =>
              if p.full chosen.up then .hold start .atCapacity (!tipRegion v start)
              else .serve
                { up := chosen.up.index, endpoint := chosen.up.endpoint, role := chosen.up.role
                  start, reqEnd }

/-- The leg `nextStep` would send to upstream `up` if it ranked first. -/
def serveOn (up : Nat) : Option ServeStep :=
  let v := p.view
  if sh.end ≤ start then none
  else if (!p.below start && !v.ids.has start) || (p.below start && 0 < v.frozenUnknown) then none
  else
    match (v.up up).filter fun u => candidate v u sh start p.ex p.now with
    | none => none
    | some u =>
        match gatedEnd u p.tip sh start (min (runEnd v u sh.need start p.now) sh.end) with
        | none => none
        | some reqEnd =>
            if start < reqEnd then
              some { up := u.index, endpoint := u.endpoint, role := u.role, start, reqEnd }
            else none

end Planning

variable {v : FleetView} {u : UpstreamView} {p : Planning} {sh : Shape} {start : Fin (2 ^ 32)}

/-! ## Bounds of a leg -/

theorem minBy_mem {α : Type} {cmp : α → α → Ordering} {xs : List α} {chosen : α}
    (found : minBy cmp xs = some chosen) : chosen ∈ xs := by
  cases xs with
  | nil => cases found
  | cons first rest =>
      simp only [minBy, Option.some.injEq] at found
      subst found
      induction rest generalizing first with
      | nil => simp
      | cons x rest ih =>
          rw [List.foldl_cons]
          have later := ih (if cmp x first = .lt then x else first)
          grind

theorem minBy_eq_none {α : Type} {cmp : α → α → Ordering} {xs : List α} :
    minBy cmp xs = none ↔ xs = [] := by
  cases xs <;> simp [minBy]

/-- A minimum comes before every element in any order that agrees with the comparison. -/
theorem minBy_le {α : Type} {cmp : α → α → Ordering} {r : α → α → Prop} (refl : ∀ x, r x x)
    (trans : ∀ x y z, r x y → r y z → r x z) (less : ∀ x y, cmp x y = .lt → r x y)
    (notLess : ∀ x y, cmp x y ≠ .lt → r y x) {xs : List α} {chosen : α}
    (found : minBy cmp xs = some chosen) : ∀ x ∈ xs, r chosen x := by
  cases xs with
  | nil => cases found
  | cons first rest =>
      simp only [minBy, Option.some.injEq] at found
      subst found
      induction rest generalizing first with
      | nil => simp [refl]
      | cons y rest ih =>
          rw [List.foldl_cons]
          have later := ih (if cmp y first = .lt then y else first)
          -- The better of the first two comes before both.
          have kept : r (if cmp y first = .lt then y else first) first ∧
              r (if cmp y first = .lt then y else first) y := by
            split
            · exact ⟨less _ _ ‹_›, refl _⟩
            · exact ⟨refl _, notLess _ _ ‹_›⟩
          have least := later _ List.mem_cons_self
          intro x member
          rcases List.mem_cons.mp member with rfl | member
          · exact trans _ _ _ least kept.1
          · rcases List.mem_cons.mp member with rfl | member
            · exact trans _ _ _ least kept.2
            · exact later x (List.mem_cons_of_mem _ member)

/-- A minimum has the least key when the comparison looks at the key first. -/
theorem minBy_key_le {α κ : Type} [LinearOrder κ] {cmp : α → α → Ordering} {key : α → κ}
    (below : ∀ x y, key x < key y → cmp x y = .lt) (above : ∀ x y, key y < key x → cmp x y ≠ .lt)
    {xs : List α} {chosen : α} (found : minBy cmp xs = some chosen) :
    ∀ x ∈ xs, key chosen ≤ key x := by
  apply minBy_le (r := fun x y => key x ≤ key y) (fun _ => le_rfl) (fun _ _ _ => le_trans) _ _ found
  · intro x y less
    exact not_lt.mp fun more => above x y more less
  · intro x y notLess
    exact not_lt.mp fun less => notLess (below x y less)

theorem scanRun_le (cap : Fin (2 ^ 32)) (stops : Fin (2 ^ 32) → Bool)
    (points : List (Fin (2 ^ 32))) : scanRun cap stops points ≤ cap := by
  fun_induction scanRun cap stops points <;> grind

theorem lt_scanRun {cap start : Fin (2 ^ 32)} (stops : Fin (2 ^ 32) → Bool)
    {points : List (Fin (2 ^ 32))} (room : start < cap) (above : ∀ b ∈ points, start < b) :
    start < scanRun cap stops points := by
  fun_induction scanRun cap stops points <;> grind

theorem runEnd_le_runCap (v : FleetView) (u : UpstreamView) (need : Need)
    (start : Fin (2 ^ 32)) (now : Nat) : runEnd v u need start now ≤ runCap u :=
  scanRun_le ..

theorem mem_runPoints {need : Need} {now : Nat} {b : Fin (2 ^ 32)} :
    b ∈ runPoints v u need start now ↔
      (b ∈ breakpoints v u now ∨ b ∈ otherBounds v u need now) ∧ start < b := by
  simp [runPoints, or_and_right]

theorem lt_runEnd (v : FleetView) (need : Need) (now : Nat)
    (room : start < runCap u) : start < runEnd v u need start now := by
  apply lt_scanRun _ room
  exact fun b member => (mem_runPoints.mp member).2

/-- A frozen upstream knows the id of a block only inside one of its logs. -/
theorem UpstreamView.lt_maxEnd_of_coversIds (frozen : u.role = .frozen)
    {n : Fin (2 ^ 32)} (covered : u.coversIds n) : n < u.maxEnd := by
  obtain ⟨log, -, inside⟩ := List.any_eq_true.mp covered
  simp only [covers, frozen, Range.contains, Bool.and_eq_true, decide_eq_true_eq] at inside
  apply lt_maxEnd frozen inside.2
  simp only [Range.isEmpty, decide_eq_true_eq]
  omega

/-- Below the fleet's first id only the owner of that id is asked, and it has
blocks behind it. -/
theorem UpstreamView.lt_maxEnd_of_idsBegin (frozen : u.role = .frozen)
    {n first : Fin (2 ^ 32)} (owner : u.idsBegin = some first) (below : n < first) :
    n < u.maxEnd := by
  obtain ⟨log, held, rfl⟩ := List.mem_map.mp (List.min?_mem owner)
  have present : ¬(u.range log).isEmpty := by
    have has : u.hasLog log := (List.mem_filter.mp held).2
    simpa [hasLog, frozen] using has
  apply lt_maxEnd frozen _ present
  simp only [Range.isEmpty, decide_eq_true_eq] at present
  omega

/-- A block the ids coverage has is served by an eligible upstream with its id. -/
theorem coversIds_of_eligible {need : Need}
    {n : Fin (2 ^ 32)} {now : Nat} (chosen : eligible v u need n .sticky now)
    (known : v.ids.has n) : u.coversIds n := by
  have union := v.ids_has n known
  simp only [eligible, eligibleWith, unionHas, FleetView.cov] at chosen
  grind

/-- A frozen candidate has blocks past the one it is asked for. -/
theorem lt_maxEnd_of_candidate {ex : Excludes} {now : Nat} (frozen : u.role = .frozen)
    (chosen : candidate v u sh start ex now)
    (known : (v.idsBegin.any fun b => start < b) = true ∨ v.ids.has start = true) :
    start < u.maxEnd := by
  simp only [candidate] at chosen
  split at chosen
  · cases chosen
  · split at chosen
    · rename_i below
      obtain ⟨first, owned, under⟩ := (Option.any_eq_true _ _).mp below
      simp only [Bool.and_eq_true, decide_eq_true_eq] at chosen under
      exact UpstreamView.lt_maxEnd_of_idsBegin frozen (chosen.2.trans owned) under
    · rename_i notBelow
      have has : v.ids.has start := known.resolve_left notBelow
      exact UpstreamView.lt_maxEnd_of_coversIds frozen (coversIds_of_eligible chosen has)

/-- The tip a frozen leg stops at. -/
def Planning.gate (p : Planning) (sh : Shape) : Option BlockPos :=
  if sh.irreversibleOnly then p.tip.2 else p.tip.1

/-- What every leg the planner serves keeps to. -/
structure ServeStep.Bounded (p : Planning) (sh : Shape) (leg : ServeStep) : Prop where
  nonempty : leg.start < leg.reqEnd
  asked : leg.reqEnd ≤ sh.end
  /-- An archive is asked for blocks it has, behind the gate. -/
  chosen : ∃ u ∈ p.view.upstreams, u.index = leg.up ∧ u.role = leg.role ∧
    (leg.role = .frozen → leg.reqEnd ≤ u.maxEnd ∧
      ∃ gate, p.gate sh = some gate ∧ leg.reqEnd ≤ nextBlock gate.num)

/-- A live leg is its run; a frozen one also stops behind a gate that has reached
its start. -/
theorem gatedEnd_cases {start run reqEnd : Fin (2 ^ 32)}
    (gated : gatedEnd u p.tip sh start run = some reqEnd) :
    u.role = .live ∧ reqEnd = run ∨
      u.role = .frozen ∧ ∃ gate, p.gate sh = some gate ∧ start ≤ gate.num ∧
        reqEnd = min run (nextBlock gate.num) := by
  cases role : u.role with
  | live =>
      simp only [gatedEnd, role, ne_eq, reduceCtorEq, not_false_eq_true, if_true,
        Option.some.injEq] at gated
      exact .inl ⟨rfl, gated.symm⟩
  | frozen =>
      simp only [gatedEnd, role, ne_eq, not_true_eq_false, if_false] at gated
      cases behind : p.gate sh with
      | none => simp [Planning.gate] at behind; simp [behind] at gated
      | some gate =>
          rw [Planning.gate] at behind
          simp only [behind, Option.ite_none_right_eq_some, Option.some.injEq] at gated
          exact .inr ⟨rfl, gate, rfl, gated.1, gated.2.symm⟩

/-- Clamping the run of a candidate to the request and the gate. -/
theorem gatedEnd_bounded {start reqEnd : Fin (2 ^ 32)}
    (open_ : start < sh.end) (member : u ∈ p.view.upstreams)
    (chosen : candidate p.view u sh start p.ex p.now)
    (known : p.below start = true ∨ p.view.ids.has start = true)
    (gated : gatedEnd u p.tip sh start
      (min (runEnd p.view u sh.need start p.now) sh.end) = some reqEnd) :
    ServeStep.Bounded p sh
      { up := u.index, endpoint := u.endpoint, role := u.role, start, reqEnd } := by
  have capped := runEnd_le_runCap p.view u sh.need start p.now
  rcases gatedEnd_cases gated with ⟨role, rfl⟩ | ⟨role, gate, behind, reached, rfl⟩
  · have room : start < runCap u := by
      simp only [runCap, role, Fin.lt_def]
      have := sh.end.isLt
      simp only [u32Max]
      omega
    have runs := lt_runEnd p.view sh.need p.now room
    exact
      { nonempty := lt_min runs open_, asked := min_le_right ..
        chosen := ⟨u, member, rfl, rfl, by simp [role]⟩ }
  · have room : start < runCap u := by
      simpa [runCap, role] using lt_maxEnd_of_candidate role chosen known
    have runs := lt_runEnd p.view sh.need p.now room
    simp only [runCap, role] at capped
    have short : start < nextBlock gate.num := by
      have next := nextBlock_val gate.num
      have := sh.end.isLt
      simp only [u32Max] at next
      omega
    exact
      { nonempty := lt_min (lt_min runs open_) short
        asked := (min_le_left ..).trans (min_le_right ..)
        chosen := ⟨u, member, rfl, rfl, fun _ =>
          ⟨(min_le_left ..).trans ((min_le_left ..).trans capped), gate, behind,
            min_le_right ..⟩⟩ }

theorem Planning.known_iff :
    ¬(!p.below start && !p.view.ids.has start) = true ↔
      p.below start = true ∨ p.view.ids.has start = true := by
  cases p.below start <;> simp

/-- What `nextStep` serves is the gated run of a candidate that ranks first: one
that is online or may be retried, and not full. -/
theorem Planning.nextStep_serve {leg : ServeStep} (served : p.nextStep sh start = .serve leg) :
    start < sh.end ∧ (p.below start = true ∨ p.view.ids.has start = true) ∧
      ∃ u ∈ p.view.upstreams, candidate p.view u sh start p.ex p.now ∧
        (u.online ∨ p.allowOffline) ∧ p.full u = false ∧
        gatedEnd u p.tip sh start (min (runEnd p.view u sh.need start p.now) sh.end) =
          some leg.reqEnd ∧
        leg =
          { up := u.index, endpoint := u.endpoint, role := u.role, start,
            reqEnd := leg.reqEnd } := by
  simp only [nextStep] at served
  split at served
  · cases served
  rename_i open_
  split at served
  · split at served
    · cases served
    · split at served <;> cases served
  rename_i known
  split at served
  · cases served
  cases picked : p.best sh start with
  | none => simp [picked] at served
  | some chosen =>
      simp only [picked] at served
      obtain ⟨u, isCandidate, rfl⟩ := List.mem_map.mp (minBy_mem picked)
      obtain ⟨member, isCandidate⟩ := List.mem_filter.mp isCandidate
      split at served
      · cases served
      rename_i reachable
      cases gated : gatedEnd (p.rank sh start u).up p.tip sh start (p.rank sh start u).run with
      | none => simp [gated] at served
      | some reqEnd =>
          simp only [gated] at served
          split at served
          · cases served
          · rename_i room
            cases served
            refine ⟨lt_of_not_ge open_, known_iff.mp known, u, member, isCandidate, ?_, ?_, gated,
              rfl⟩
            · simp only [rank, Bool.and_eq_true, Bool.not_eq_true', not_and] at reachable
              cases online : u.online <;> simp_all
            · simpa [rank] using room

/-- Every leg `nextStep` serves keeps to the bounds. -/
theorem Planning.nextStep_bounded {leg : ServeStep} (served : p.nextStep sh start = .serve leg) :
    leg.start = start ∧ leg.Bounded p sh := by
  obtain ⟨open_, known, u, member, isCandidate, -, -, gated, isLeg⟩ := nextStep_serve served
  rw [isLeg]
  exact ⟨rfl, gatedEnd_bounded open_ member isCandidate known gated⟩

/-- What `serveOn` serves is the gated run of a candidate. -/
theorem Planning.serveOn_serve {up : Nat}
    {leg : ServeStep} (served : p.serveOn sh start up = some leg) :
    start < sh.end ∧ (p.below start = true ∨ p.view.ids.has start = true) ∧
      ¬(p.below start && 0 < p.view.frozenUnknown) = true ∧
      ∃ u ∈ p.view.upstreams, u.index = up ∧ candidate p.view u sh start p.ex p.now ∧
        gatedEnd u p.tip sh start (min (runEnd p.view u sh.need start p.now) sh.end) =
          some leg.reqEnd ∧
        leg =
          { up := u.index, endpoint := u.endpoint, role := u.role, start,
            reqEnd := leg.reqEnd } := by
  simp only [serveOn] at served
  split at served
  · cases served
  rename_i open_
  split at served
  · cases served
  rename_i known
  cases found : (p.view.up up).filter fun u => candidate p.view u sh start p.ex p.now with
  | none => simp [found] at served
  | some u =>
      obtain ⟨member, isCandidate⟩ := Option.filter_eq_some_iff.mp found
      obtain ⟨listed, index⟩ := FleetView.up_mem member
      simp only [found] at served
      cases gated : gatedEnd u p.tip sh start
          (min (runEnd p.view u sh.need start p.now) sh.end) with
      | none => simp [gated] at served
      | some reqEnd =>
          simp only [gated, Option.ite_none_right_eq_some, Option.some.injEq] at served
          obtain ⟨-, rfl⟩ := served
          rw [Bool.or_eq_true, not_or] at known
          exact ⟨lt_of_not_ge open_, known_iff.mp known.1, known.2, u, listed, index, isCandidate,
            gated, rfl⟩

/-- Every leg a dial is kept for keeps to the bounds. -/
theorem Planning.serveOn_bounded {up : Nat}
    {leg : ServeStep} (served : p.serveOn sh start up = some leg) :
    leg.start = start ∧ leg.up = up ∧ leg.Bounded p sh := by
  obtain ⟨open_, known, -, u, listed, index, isCandidate, gated, isLeg⟩ := serveOn_serve served
  rw [isLeg]
  exact ⟨rfl, index, gatedEnd_bounded open_ listed isCandidate known gated⟩

end FleetRouter.Fleet
