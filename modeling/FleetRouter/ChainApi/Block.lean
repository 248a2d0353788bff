import FleetRouter.ChainApi.Pick

/-!
# Routing block requests

A block request is split by region.  A reversible block goes to live APIs only.  An
irreversible one goes through tiers of candidates, cut to the number of attempts;
places are then kept for a live API, which writes the final error, and for an
archive that can refuse an id.
-/

namespace FleetRouter.ChainApi

open Ship Session Fleet

/-- The block endpoints. -/
inductive BlockEndpoint where
  | block
  | blockHeader
  | blockHeaderState
  | blockInfo
  | rawBlock
  deriving DecidableEq, Repr

def BlockEndpoint.path : BlockEndpoint → String
  | .block => "/v1/chain/get_block"
  | .blockHeader => "/v1/chain/get_block_header"
  | .blockHeaderState => "/v1/chain/get_block_header_state"
  | .blockInfo => "/v1/chain/get_block_info"
  | .rawBlock => "/v1/chain/get_raw_block"

/-- Which side is asked first for a block both hold. -/
inductive BlockSource where
  | frozenFirst
  | liveFirst
  deriving DecidableEq, Repr

/-- The block a request body names, by number or by id. -/
structure Hint where
  num : Fin (2 ^ 32)
  byId : Bool
  deriving DecidableEq, Repr

/-- A block request, as far as its routing needs it. -/
structure BlockQuery where
  endpoint : BlockEndpoint
  hint : Option Hint
  /-- The fleet LIB of the listener's SHiP view. -/
  shipLib : Option (Fin (2 ^ 32))
  blockSource : BlockSource
  maxAttempts : Nat
  deriving DecidableEq, Repr

/-- The request names its block by id. -/
def BlockQuery.byId (q : BlockQuery) : Bool := q.hint.any Hint.byId

namespace ApiView

variable (a : ApiView) (n : Fin (2 ^ 32))

/-- A verified frozen API whose blocks include `n`, up or not. -/
def archives : Bool := a.role = .frozen && a.verified && a.blocks.any fun r => r.contains n

/-- A verified frozen API that serves `n` below the end of its declared range. -/
def holdsId : Bool := a.archives n && a.declared.all fun d => n < d.end

/-- A frozen API that answers for `n`: by its blocks once it is verified, by its
declared range until then. -/
def claims : Bool :=
  if a.role ≠ .frozen then false
  else
    match a.verified, a.blocks with
    | true, some blocks => blocks.contains n
    | _, _ => a.declared.any fun r => r.contains n

/-- The API's head has reached `n`. -/
def reached : Bool := a.head.any fun h => n ≤ h

end ApiView

/-! ## The region of a block -/

/-- The higher of the SHiP fleet LIB and the LIB of every live API that is up. -/
def fleetLib (shipLib : Option (Fin (2 ^ 32))) (apis : List ApiView) : Option (Fin (2 ^ 32)) :=
  ((apis.filter fun a => a.up && a.isLive).filterMap ApiView.lib ++ shipLib.toList).max?

def region (n : Fin (2 ^ 32)) (fleetLib : Option (Fin (2 ^ 32))) (apis : List ApiView) : Region :=
  if fleetLib.any (fun lib => n ≤ lib) || apis.any fun a => a.archives n then .irreversible
  else .reversible

/-- Whether an archive claims the block, for an endpoint archives serve. -/
def claimed (n : Fin (2 ^ 32)) (endpoint : BlockEndpoint) (apis : List ApiView) : Bool :=
  (endpoint = .blockInfo || endpoint = .blockHeader || endpoint = .rawBlock)
    && apis.any fun a => a.claims n

/-! ## Orders -/

/-- Blocks with the same `n >> 12` share a rendezvous key. -/
def rendezvousChunk (n : Fin (2 ^ 32)) : UInt64 := UInt64.ofNat (n.val >>> 12)

/-- Order inside a tier: free before full, priority, weighted load, rendezvous on
the block's chunk, index. -/
def tierCmp (n : Fin (2 ^ 32)) (a b : ApiView) : Ordering :=
  let chunk := rendezvousChunk n
  (compare a.full.toNat b.full.toNat).then
    ((compare a.priority b.priority).then
      ((byLoad a b).then
        ((compare (rendezvous chunk b.endpoint) (rendezvous chunk a.endpoint)).then
          (compare a.index b.index))))

/-- Live APIs serving the path: those whose head reached `n` first, by priority,
head and load; then the rest by head. -/
def reversibleOrder (n : Fin (2 ^ 32)) (path : String) (apis : List ApiView) (cap : Nat) :
    List Nat :=
  let cands := apis.filter fun a => a.isLive && a.usable path
  let ahead := sortBy
    (fun a b => (compare a.priority b.priority).then ((compare b.head a.head).then
      ((byLoad a b).then (compare a.index b.index)))) (cands.filter fun a => a.reached n)
  let behind := sortBy
    (fun a b => (compare b.head a.head).then ((byLoad a b).then (compare a.index b.index)))
    (cands.filter fun a => !a.reached n)
  ((ahead ++ behind).take cap).map ApiView.index

/-- A tier of live APIs. -/
def liveTier (n : Fin (2 ^ 32)) (path : String) (apis : List ApiView) (pred : ApiView → Bool) :
    List ApiView :=
  sortBy (tierCmp n) (apis.filter fun a => a.isLive && a.usable path && pred a)

/-- The tiers of an irreversible block. -/
structure Tiers where
  /-- Live APIs whose block log holds the block. -/
  l : List ApiView
  /-- Live APIs that do not report where their block log begins. -/
  u : List ApiView
  /-- Live APIs whose block log begins above the block; none for a claimed block. -/
  x : List ApiView
  /-- Archives that hold the block; none for `get_block`. -/
  f : List ApiView

def tiers (n : Fin (2 ^ 32)) (q : BlockQuery) (claimed : Bool) (apis : List ApiView) : Tiers where
  l := liveTier n q.endpoint.path apis fun a => a.earliest.any (fun e => e ≤ n) && a.reached n
  u := liveTier n q.endpoint.path apis fun a => a.earliest.isNone && a.reached n
  x := if claimed then []
    else liveTier n q.endpoint.path apis fun a => a.earliest.any fun e => n < e
  f := if q.endpoint = .block then []
    else sortBy (tierCmp n) (apis.filter fun a => a.archives n && a.usable q.endpoint.path)

/-- The tiers in the order they are tried. -/
def Tiers.concat (t : Tiers) (q : BlockQuery) : List ApiView :=
  if q.endpoint = .block ∨ q.blockSource = .liveFirst then t.l ++ t.f ++ t.u ++ t.x
  else t.f ++ t.l ++ t.u ++ t.x

/-- The last position whose element satisfies `p`. -/
def rposition {α : Type} (p : α → Bool) (xs : List α) : Option Nat :=
  (List.range xs.length).reverse.find? fun i => xs[i]?.any p

/-- With at least two attempts, keeps one for a live API. -/
def keepLive (t : Tiers) (cap : Nat) (order : List ApiView) : List ApiView :=
  if 2 ≤ cap && !order.any ApiView.isLive then
    match (t.l.head?.or t.u.head?).or t.x.head? with
    | some firstLive => order.set (order.length - 1) firstLive
    | none => order
  else order

/-- Keeps one attempt of a request by id for an archive that holds the block, away
from the only live API when there are at least two attempts. -/
def keepHolder (n : Fin (2 ^ 32)) (byId : Bool) (t : Tiers) (cap : Nat) (order : List ApiView) :
    List ApiView :=
  if byId && !order.any (fun a => a.holdsId n) then
    let lives := order.countP ApiView.isLive
    match t.f.find? (fun a => a.holdsId n),
      rposition (fun a => !(2 ≤ cap && lives = 1 && a.isLive)) order with
    | some holder, some place => order.set place holder
    | _, _ => order
  else order

def irreversibleViews (n : Fin (2 ^ 32)) (q : BlockQuery) (claimed : Bool) (apis : List ApiView)
    (cap : Nat) : List ApiView :=
  let t := tiers n q claimed apis
  keepHolder n q.byId t cap (keepLive t cap ((t.concat q).take cap))

/-- The attempt order of an irreversible block. -/
def irreversibleOrder (n : Fin (2 ^ 32)) (q : BlockQuery) (claimed : Bool) (apis : List ApiView)
    (cap : Nat) : List Nat :=
  (irreversibleViews n q claimed apis cap).map ApiView.index

/-! ## The plan -/

/-- Where a block request goes. -/
inductive BlockPlan where
  /-- No hint: the body goes to one live API, as a state call does. -/
  | unhinted
  | routed (n : Fin (2 ^ 32)) (region : Region) (order : List Nat) (claimed : Bool)
      (idHolders : List Nat)
  deriving DecidableEq, Repr

/-- The APIs in the order whose Unknown Block for an id is the answer. -/
def idHolders (n : Fin (2 ^ 32)) (order : List Nat) (apis : List ApiView) : List Nat :=
  (apis.filter fun a => a.holdsId n && order.contains a.index).map ApiView.index

def planBlock (q : BlockQuery) (apis : List ApiView) : BlockPlan :=
  match q.hint with
  | none => .unhinted
  | some hint =>
      let n := hint.num
      let cap := max q.maxAttempts 1
      let region := region n (fleetLib q.shipLib apis) apis
      let claimed := region = .irreversible && claimed n q.endpoint apis
      let order := match region with
        | .reversible => reversibleOrder n q.endpoint.path apis cap
        | .irreversible => irreversibleOrder n q claimed apis cap
      .routed n region order claimed (if hint.byId then idHolders n order apis else [])

/-! ## Tiers -/

section Tiers

variable {n : Fin (2 ^ 32)} {q : BlockQuery} {claimed : Bool} {apis : List ApiView} {a : ApiView}

theorem mem_liveTier {path : String} {pred : ApiView → Bool} :
    a ∈ liveTier n path apis pred ↔ a ∈ apis ∧ a.role = .live ∧ a.usable path ∧ pred a := by
  simp [liveTier, ApiView.isLive, and_assoc]

theorem mem_tiers_l : a ∈ (tiers n q claimed apis).l ↔
    a ∈ apis ∧ a.role = .live ∧ a.usable q.endpoint.path ∧
      (∃ e ∈ a.earliest, e ≤ n) ∧ a.reached n := by
  simp [tiers, mem_liveTier, Option.any_eq_true]

theorem mem_tiers_u : a ∈ (tiers n q claimed apis).u ↔
    a ∈ apis ∧ a.role = .live ∧ a.usable q.endpoint.path ∧ a.earliest = none ∧ a.reached n := by
  simp [tiers, mem_liveTier]

theorem mem_tiers_x : a ∈ (tiers n q claimed apis).x ↔
    claimed = false ∧ a ∈ apis ∧ a.role = .live ∧ a.usable q.endpoint.path ∧
      ∃ e ∈ a.earliest, n < e := by
  cases claimed <;> simp [tiers, mem_liveTier, Option.any_eq_true]

theorem mem_tiers_f : a ∈ (tiers n q claimed apis).f ↔
    q.endpoint ≠ .block ∧ a ∈ apis ∧ a.archives n ∧ a.usable q.endpoint.path := by
  by_cases live : q.endpoint = .block <;> simp [tiers, live]

theorem mem_concat {t : Tiers} :
    a ∈ t.concat q ↔ a ∈ t.f ∨ a ∈ t.l ∨ a ∈ t.u ∨ a ∈ t.x := by
  unfold Tiers.concat
  split <;> simp only [List.mem_append] <;> tauto

/-- What an irreversible block's candidate is: an archive that holds the block, or a
live API that may, or one that surely does not when nobody claims the block. -/
structure ApiView.Candidate (a : ApiView) (n : Fin (2 ^ 32)) (q : BlockQuery) (claimed : Bool) :
    Prop where
  up : a.up = true
  free : a.busy = false
  lists : a.lists q.endpoint.path = true
  archive : a.role = .frozen → q.endpoint ≠ .block ∧ a.verified = true ∧
    ∃ r ∈ a.blocks, r.contains n
  live : a.role = .live → (∃ e ∈ a.earliest, e ≤ n) ∧ a.reached n ∨
    a.earliest = none ∧ a.reached n ∨ claimed = false ∧ ∃ e ∈ a.earliest, n < e

/-- The tiers hold the candidates. -/
theorem mem_tiers :
    a ∈ (tiers n q claimed apis).concat q ↔ a ∈ apis ∧ a.Candidate n q claimed := by
  rw [mem_concat, mem_tiers_f, mem_tiers_l, mem_tiers_u, mem_tiers_x]
  constructor
  · intro member
    have usable : a.usable q.endpoint.path = true := by tauto
    simp only [ApiView.usable, Bool.and_eq_true, Bool.not_eq_true'] at usable
    refine ⟨by tauto, usable.1.1, usable.1.2, usable.2, ?_, ?_⟩
    · intro frozen
      rcases member with ⟨notBlock, -, archives, -⟩ | live | live | live
      · simp only [ApiView.archives, Bool.and_eq_true, Option.any_eq_true] at archives
        exact ⟨notBlock, archives.1.2, archives.2⟩
      all_goals simp [frozen] at live
    · intro live
      rcases member with ⟨-, -, archives, -⟩ | held | unknown | above
      · simp [ApiView.archives, live] at archives
      · exact .inl held.2.2.2
      · exact .inr (.inl unknown.2.2.2)
      · exact .inr (.inr ⟨above.1, above.2.2.2.2⟩)
  · rintro ⟨isApi, candidate⟩
    have usable : a.usable q.endpoint.path = true := by
      simp [ApiView.usable, candidate.up, candidate.free, candidate.lists]
    cases role : a.role with
    | frozen =>
        obtain ⟨notBlock, verified, held⟩ := candidate.archive role
        refine .inl ⟨notBlock, isApi, ?_, usable⟩
        simpa [ApiView.archives, role, verified, Option.any_eq_true] using held
    | live =>
        rcases candidate.live role with held | unknown | ⟨unclaimed, above⟩
        · exact .inr (.inl ⟨isApi, rfl, usable, held⟩)
        · exact .inr (.inr (.inl ⟨isApi, rfl, usable, unknown⟩))
        · exact .inr (.inr (.inr ⟨unclaimed, isApi, rfl, usable, above⟩))

theorem nodup_sortBy {α : Type} {cmp : α → α → Ordering} {xs : List α} (nodup : xs.Nodup) :
    (sortBy cmp xs).Nodup := (List.perm_insertionSort _ xs).nodup_iff.mpr nodup

/-- The tiers share no API. -/
theorem nodup_concat (n : Fin (2 ^ 32)) (q : BlockQuery) (claimed : Bool) (nodup : apis.Nodup) :
    ((tiers n q claimed apis).concat q).Nodup := by
  have l : (tiers n q claimed apis).l.Nodup := nodup_sortBy (nodup.filter _)
  have u : (tiers n q claimed apis).u.Nodup := nodup_sortBy (nodup.filter _)
  have x : (tiers n q claimed apis).x.Nodup := by
    cases claimed
    · exact nodup_sortBy (nodup.filter _)
    · exact List.nodup_nil
  have f : (tiers n q claimed apis).f.Nodup := by
    unfold tiers
    simp only
    split
    · exact List.nodup_nil
    · exact nodup_sortBy (nodup.filter _)
  -- The role tells the archives from the rest, the beginning of the log the live tiers.
  have same : ((tiers n q claimed apis).concat q).Perm
      ((tiers n q claimed apis).f ++ ((tiers n q claimed apis).l ++
        ((tiers n q claimed apis).u ++ (tiers n q claimed apis).x))) := by
    unfold Tiers.concat
    split
    · simpa using (List.perm_append_comm).append_right _
    · simp
  rw [same.nodup_iff]
  refine f.append (l.append (u.append x ?_) ?_) ?_
  · intro a unknown above
    obtain ⟨-, -, -, -, e, isEarliest, -⟩ := mem_tiers_x.mp above
    simp [(mem_tiers_u.mp unknown).2.2.2.1] at isEarliest
  · intro a held other
    obtain ⟨-, -, -, ⟨e, isEarliest, below⟩, -⟩ := mem_tiers_l.mp held
    rcases List.mem_append.mp other with unknown | above
    · simp [(mem_tiers_u.mp unknown).2.2.2.1] at isEarliest
    · obtain ⟨-, -, -, -, e', isEarliest', above⟩ := mem_tiers_x.mp above
      cases Option.mem_unique isEarliest isEarliest'
      exact absurd below (not_le.mpr above)
  · intro a archive other
    obtain ⟨-, -, archives, -⟩ := mem_tiers_f.mp archive
    rcases List.mem_append.mp other with held | other
    · simp [ApiView.archives, (mem_tiers_l.mp held).2.1] at archives
    · rcases List.mem_append.mp other with unknown | above
      · simp [ApiView.archives, (mem_tiers_u.mp unknown).2.1] at archives
      · simp [ApiView.archives, (mem_tiers_x.mp above).2.2.1] at archives

end Tiers

/-- The role tells the tiers of live APIs from the archives. -/
structure Tiers.Sound (t : Tiers) : Prop where
  live : ∀ a, a ∈ t.l ∨ a ∈ t.u ∨ a ∈ t.x → a.isLive = true
  archive : ∀ a ∈ t.f, a.isLive = false

theorem tiers_sound (n : Fin (2 ^ 32)) (q : BlockQuery) (claimed : Bool) (apis : List ApiView) :
    (tiers n q claimed apis).Sound where
  live a member := by
    have live : a.role = .live := by
      rw [mem_tiers_l, mem_tiers_u, mem_tiers_x] at member
      tauto
    simp [ApiView.isLive, live]
  archive a member := by
    obtain ⟨-, -, archives, -⟩ := mem_tiers_f.mp member
    simp only [ApiView.archives, Bool.and_eq_true, decide_eq_true_eq] at archives
    simp [ApiView.isLive, archives.1.1]

/-! ## Replaced places -/

/-- At most one place is given to another element of the pool. -/
def Replaces {α : Type} (pool order order' : List α) : Prop :=
  order' = order ∨ ∃ i, ∃ a ∈ pool, a ∉ order ∧ order' = order.set i a

namespace Replaces

variable {α : Type} {pool order order' : List α}

theorem nodup (replaces : Replaces pool order order') (nodup : order.Nodup) : order'.Nodup := by
  rcases replaces with rfl | ⟨i, a, -, new, rfl⟩
  · exact nodup
  · exact nodup.set new

theorem length (replaces : Replaces pool order order') : order'.length = order.length := by
  rcases replaces with rfl | ⟨i, a, -, -, rfl⟩
  · rfl
  · exact List.length_set

theorem subset (replaces : Replaces pool order order') (inPool : order ⊆ pool) : order' ⊆ pool := by
  rcases replaces with rfl | ⟨i, a, isPool, -, rfl⟩
  · exact inPool
  · intro b member
    rcases List.mem_or_eq_of_mem_set member with old | rfl
    · exact inPool old
    · exact isPool

theorem getElem? (replaces : Replaces pool order order') :
    ∃ i : Nat, ∀ k, k ≠ i → order'[k]? = order[k]? := by
  rcases replaces with rfl | ⟨i, a, -, -, rfl⟩
  · exact ⟨0, fun _ _ => rfl⟩
  · exact ⟨i, fun k other => List.getElem?_set_ne other.symm⟩

end Replaces

section Order

variable {n : Fin (2 ^ 32)} {t : Tiers} {cap : Nat} {order : List ApiView} {a : ApiView}

theorem rposition_eq_some {α : Type} {p : α → Bool} {xs : List α} {i : Nat}
    (found : rposition p xs = some i) : ∃ inside : i < xs.length, p xs[i] = true := by
  have holds := List.find?_some found
  simp only [Option.any_eq_true] at holds
  obtain ⟨x, at_, holds⟩ := holds
  obtain ⟨inside, rfl⟩ := List.getElem?_eq_some_iff.mp at_
  exact ⟨inside, holds⟩

theorem rposition_eq_none {α : Type} {p : α → Bool} {xs : List α} (none : rposition p xs = none)
    {x : α} (member : x ∈ xs) : p x = false := by
  obtain ⟨i, inside, rfl⟩ := List.getElem_of_mem member
  have fails := List.find?_eq_none.mp none i (by simpa using inside)
  simpa [inside] using fails

/-- The API that a live place is kept for. -/
theorem firstLive_mem (first : (t.l.head?.or t.u.head?).or t.x.head? = some a) :
    a ∈ t.l ∨ a ∈ t.u ∨ a ∈ t.x := by
  simp only [Option.or_eq_some_iff] at first
  rcases first with (isL | ⟨-, isU⟩) | ⟨-, isX⟩
  · exact .inl (List.mem_of_mem_head? isL)
  · exact .inr (.inl (List.mem_of_mem_head? isU))
  · exact .inr (.inr (List.mem_of_mem_head? isX))

theorem firstLive_isSome (member : a ∈ t.l ∨ a ∈ t.u ∨ a ∈ t.x) :
    ∃ first, (t.l.head?.or t.u.head?).or t.x.head? = some first := by
  rw [← Option.isSome_iff_exists, Option.isSome_or, Option.isSome_or]
  rcases member with isL | isU | isX
  · simp [List.isSome_head?.mpr (List.ne_nil_of_mem isL)]
  · simp [List.isSome_head?.mpr (List.ne_nil_of_mem isU)]
  · simp [List.isSome_head?.mpr (List.ne_nil_of_mem isX)]

theorem keepLive_replaces (sound : t.Sound) (q : BlockQuery) (cap : Nat) (order : List ApiView) :
    Replaces (t.concat q) order (keepLive t cap order) := by
  unfold keepLive
  split
  · rename_i none
    split
    · rename_i firstLive first
      have inTier := firstLive_mem first
      refine .inr ⟨_, firstLive, mem_concat.mpr (.inr inTier), ?_, rfl⟩
      intro old
      simp only [Bool.and_eq_true, Bool.not_eq_true', List.any_eq_false] at none
      exact none.2 firstLive old (sound.live firstLive inTier)
    · exact .inl rfl
  · exact .inl rfl

theorem keepHolder_replaces (n : Fin (2 ^ 32)) (byId : Bool) (t : Tiers)
    (q : BlockQuery) (cap : Nat)
    (order : List ApiView) : Replaces (t.concat q) order (keepHolder n byId t cap order) := by
  unfold keepHolder
  split
  · rename_i none
    simp only
    split
    · rename_i holder place found _
      refine .inr ⟨place, holder, mem_concat.mpr (.inl (List.mem_of_find?_eq_some found)), ?_, rfl⟩
      intro old
      simp only [Bool.and_eq_true, Bool.not_eq_true', List.any_eq_false] at none
      exact none.2 holder old (by simpa using List.find?_some found)
    · exact .inl rfl
  · exact .inl rfl

/-- With two places or more, a live API of the tiers gets one. -/
theorem keepLive_live (sound : t.Sound) {q : BlockQuery} (enough : 2 ≤ cap)
    (isLive : a.isLive = true) (member : a ∈ t.concat q) :
    ∃ b ∈ keepLive t cap ((t.concat q).take cap), b.isLive = true := by
  unfold keepLive
  split
  · have inTier : a ∈ t.l ∨ a ∈ t.u ∨ a ∈ t.x := by
      rcases mem_concat.mp member with archive | live
      · simp [sound.archive a archive] at isLive
      · exact live
    obtain ⟨firstLive, first⟩ := firstLive_isSome inTier
    have room : 0 < ((t.concat q).take cap).length := by
      have := List.length_pos_of_mem member
      rw [List.length_take]
      omega
    rw [first]
    exact ⟨firstLive, List.mem_set (by omega) _, sound.live firstLive (firstLive_mem first)⟩
  · rename_i some
    simpa [enough] using some

/-- The holder never takes the place of the only live API. -/
theorem keepHolder_live (sound : t.Sound) (n : Fin (2 ^ 32)) (byId : Bool) (enough : 2 ≤ cap)
    (live : ∃ b ∈ order, b.isLive = true) :
    ∃ b ∈ keepHolder n byId t cap order, b.isLive = true := by
  rw [← List.countP_pos_iff] at live ⊢
  unfold keepHolder
  split
  · simp only
    split
    · rename_i holder place found free
      obtain ⟨inside, free⟩ := rposition_eq_some free
      have archive := sound.archive holder (List.mem_of_find?_eq_some found)
      rw [List.countP_set inside]
      by_cases isLive : order[place].isLive = true
      · have several : order.countP ApiView.isLive ≠ 1 := by simpa [enough, isLive] using free
        simp only [isLive, archive, if_true, Bool.false_eq_true, if_false]
        omega
      · simpa [isLive, archive] using live
    · exact live
  · exact live

theorem holdsId_frozen (holds : a.holdsId n = true) : a.isLive = false := by
  simp only [ApiView.holdsId, ApiView.archives, Bool.and_eq_true, decide_eq_true_eq] at holds
  simp [ApiView.isLive, holds.1.1.1]

/-- No place is replaced when every candidate has one. -/
theorem keepLive_fits (sound : t.Sound) {q : BlockQuery} (fits : (t.concat q).length ≤ cap) :
    keepLive t cap ((t.concat q).take cap) = t.concat q := by
  rw [List.take_of_length_le fits]
  unfold keepLive
  split
  · rename_i none
    split
    · rename_i firstLive first
      have inTier := firstLive_mem first
      simp only [Bool.and_eq_true, Bool.not_eq_true', List.any_eq_false] at none
      exact absurd (sound.live firstLive inTier)
        (none.2 firstLive (mem_concat.mpr (.inr inTier)))
    · rfl
  · rfl

/-- A request by id has an archive that holds the block in its order. -/
theorem keepHolder_holds (sound : t.Sound) (q : BlockQuery) (enough : 1 ≤ cap) (member : a ∈ t.f)
    (holds : a.holdsId n = true) :
    ∃ b ∈ keepHolder n true t cap (keepLive t cap ((t.concat q).take cap)),
      b ∈ t.f ∧ b.holdsId n = true := by
  have inConcat : a ∈ t.concat q := mem_concat.mpr (.inl member)
  have replaced := keepLive_replaces sound q cap ((t.concat q).take cap)
  generalize after : keepLive t cap ((t.concat q).take cap) = order at replaced
  have length : order.length = min cap (t.concat q).length := by
    rw [replaced.length, List.length_take]
  have nonempty := List.length_pos_of_mem inConcat
  unfold keepHolder
  split
  · rename_i none
    simp only [Bool.true_and, Bool.not_eq_true', List.any_eq_false] at none
    obtain ⟨holder, found⟩ : ∃ holder, t.f.find? (fun a => a.holdsId n) = some holder :=
      Option.isSome_iff_exists.mp (List.find?_isSome.mpr ⟨a, member, holds⟩)
    have held : holder ∈ t.f ∧ holder.holdsId n = true :=
      ⟨List.mem_of_find?_eq_some found, by simpa using List.find?_some found⟩
    cases free : rposition
        (fun a => !(2 ≤ cap && order.countP ApiView.isLive = 1 && a.isLive)) order with
    | some place =>
        simp only [found, free]
        obtain ⟨inside, -⟩ := rposition_eq_some free
        exact ⟨holder, List.mem_set inside _, held⟩
    | none =>
        -- Every place is the only live API's, so there is one place and one candidate.
        have kept : ∀ b ∈ order,
            2 ≤ cap ∧ order.countP ApiView.isLive = 1 ∧ b.isLive = true := by
          intro b isOrder
          simpa [and_assoc] using rposition_eq_none free isOrder
        obtain ⟨b, isOrder⟩ := List.exists_mem_of_length_pos (show 0 < order.length by omega)
        obtain ⟨two, one, -⟩ := kept b isOrder
        rw [List.countP_eq_length.mpr fun b isOrder => (kept b isOrder).2.2] at one
        have whole : order = t.concat q := after ▸ keepLive_fits sound (by omega)
        exact absurd holds (none a (whole ▸ inConcat))
  · rename_i some
    obtain ⟨b, isOrder, holds⟩ : ∃ b ∈ order, b.holdsId n = true := by simpa using some
    refine ⟨b, isOrder, ?_, holds⟩
    have inTiers := replaced.subset (List.take_subset _ _) isOrder
    rcases mem_concat.mp inTiers with archive | live
    · exact archive
    · exact absurd (sound.live b live) (by simp [holdsId_frozen holds])

end Order

theorem irreversibleViews_subset (n : Fin (2 ^ 32)) (q : BlockQuery) (claimed : Bool)
    (apis : List ApiView) (cap : Nat) :
    irreversibleViews n q claimed apis cap ⊆ (tiers n q claimed apis).concat q := by
  have first := keepLive_replaces (tiers_sound n q claimed apis) q cap
    (((tiers n q claimed apis).concat q).take cap)
  exact (keepHolder_replaces ..).subset (first.subset (List.take_subset _ _))

/-- Only candidates are attempted. -/
theorem mem_irreversibleOrder {n : Fin (2 ^ 32)} {q : BlockQuery} {claimed : Bool}
    {apis : List ApiView} {cap i : Nat} (member : i ∈ irreversibleOrder n q claimed apis cap) :
    ∃ a ∈ apis, a.index = i ∧ a.Candidate n q claimed := by
  obtain ⟨a, isView, rfl⟩ := List.mem_map.mp member
  obtain ⟨isApi, candidate⟩ := mem_tiers.mp (irreversibleViews_subset _ _ _ _ _ isView)
  exact ⟨a, isApi, rfl, candidate⟩

/-- What an attempt order of an irreversible block has to be. -/
structure PlacesKept (apis : List ApiView) (n : Fin (2 ^ 32)) (q : BlockQuery) (claimed : Bool)
    (cap : Nat) (order : List Nat) : Prop where
  nodup : order.Nodup
  /-- No place is left empty while there are candidates. -/
  length : order.length = min cap ((tiers n q claimed apis).concat q).length
  candidates : ∀ i ∈ order, ∃ a ∈ apis, a.index = i ∧ a.Candidate n q claimed
  /-- A live API has a place when there are two. -/
  live : 2 ≤ cap → (∃ a ∈ apis, a.Candidate n q claimed ∧ a.role = .live) →
    ∃ a ∈ apis, a.index ∈ order ∧ a.role = .live
  /-- An archive that holds the block has a place when the request is by id. -/
  holder : q.byId → q.endpoint ≠ .block →
    (∃ a ∈ apis, a.usable q.endpoint.path ∧ a.holdsId n) →
    ∃ a ∈ apis, a.index ∈ order ∧ a.usable q.endpoint.path ∧ a.holdsId n
  /-- All but two places are those of the tiers. -/
  places : ∃ i j : Nat, ∀ k, k ≠ i → k ≠ j →
    order[k]? = ((((tiers n q claimed apis).concat q).take cap).map ApiView.index)[k]?

/-- The two replacements leave a usable order, and neither undoes the other. -/
theorem irreversible_order_keeps_places (dir : ApiDirectory) (n : Fin (2 ^ 32)) (q : BlockQuery)
    (claimed : Bool) {cap : Nat} (enough : 1 ≤ cap) :
    PlacesKept dir.apis n q claimed cap (irreversibleOrder n q claimed dir.apis cap) := by
  have sound := tiers_sound n q claimed dir.apis
  have first := keepLive_replaces sound q cap (((tiers n q claimed dir.apis).concat q).take cap)
  have second : Replaces ((tiers n q claimed dir.apis).concat q) _
      (irreversibleViews n q claimed dir.apis cap) := keepHolder_replaces ..
  have isApi : ∀ a ∈ irreversibleViews n q claimed dir.apis cap, a ∈ dir.apis :=
    fun a member => (mem_tiers.mp (irreversibleViews_subset _ _ _ _ _ member)).1
  constructor
  case nodup =>
    have tiers := nodup_concat n q claimed dir.nodup.of_map
    refine (second.nodup (first.nodup (tiers.sublist (List.take_sublist cap _)))).map_on ?_
    intro a isFirst b isSecond same
    exact List.inj_on_of_nodup_map dir.nodup (isApi a isFirst) (isApi b isSecond) same
  case length =>
    rw [irreversibleOrder, List.length_map, second.length, first.length, List.length_take]
  case candidates => exact fun i member => mem_irreversibleOrder member
  case live =>
    rintro two ⟨a, known, candidate, live⟩
    obtain ⟨b, isView, isLive⟩ := keepHolder_live sound n q.byId two
      (keepLive_live sound two (by simp [ApiView.isLive, live]) (mem_tiers.mpr ⟨known, candidate⟩))
    exact ⟨b, isApi b isView, List.mem_map_of_mem isView,
      by simpa [ApiView.isLive] using isLive⟩
  case holder =>
    rintro byId notBlock ⟨a, isApi, usable, holds⟩
    have archive : a ∈ (tiers n q claimed dir.apis).f :=
      mem_tiers_f.mpr ⟨notBlock, isApi, by simp_all [ApiView.holdsId], usable⟩
    obtain ⟨b, isView, isArchive, holds⟩ :=
      keepHolder_holds sound q enough archive holds
    obtain ⟨-, isApi, -, usable⟩ := mem_tiers_f.mp isArchive
    refine ⟨b, isApi, List.mem_map_of_mem ?_, usable, holds⟩
    rwa [irreversibleViews, byId]
  case places =>
    obtain ⟨i, same⟩ := first.getElem?
    obtain ⟨j, same'⟩ := second.getElem?
    refine ⟨i, j, ?_⟩
    intro k notI notJ
    rw [irreversibleOrder, List.getElem?_map, List.getElem?_map, same' k notJ, same k notI]

/-- How an irreversible block is routed. -/
theorem planBlock_irreversible {q : BlockQuery} {apis : List ApiView} {n : Fin (2 ^ 32)}
    {order : List Nat} {isClaimed : Bool} {holders : List Nat}
    (plan : planBlock q apis = .routed n .irreversible order isClaimed holders) :
    order = irreversibleOrder n q isClaimed apis (max q.maxAttempts 1) ∧
      isClaimed = claimed n q.endpoint apis ∧
      holders = if q.byId then idHolders n order apis else [] := by
  unfold planBlock at plan
  cases hint : q.hint with
  | none => simp [hint] at plan
  | some hint' =>
      simp only [hint, BlockPlan.routed.injEq] at plan
      obtain ⟨rfl, isRegion, rfl, rfl, rfl⟩ := plan
      simp [isRegion, BlockQuery.byId, hint]

/-- In the order, the id holders are the archives that hold the block. -/
theorem contains_idHolders {dir : ApiDirectory} {n : Fin (2 ^ 32)} {order : List Nat} {a : ApiView}
    (isApi : a ∈ dir.apis) (listed : a.index ∈ order) :
    (idHolders n order dir.apis).contains a.index = a.holdsId n := by
  rw [Bool.eq_iff_iff, List.contains_iff_mem, idHolders]
  constructor
  · intro member
    obtain ⟨b, isHolder, same⟩ := List.mem_map.mp member
    rw [List.mem_filter] at isHolder
    obtain rfl := List.inj_on_of_nodup_map dir.nodup isHolder.1 isApi same
    exact (Bool.and_eq_true_iff.mp isHolder.2).1
  · intro holds
    exact List.mem_map_of_mem (List.mem_filter.mpr ⟨isApi, by simp [holds, listed]⟩)

/-- A range server of the blocks 1 to 99. -/
def rangeServer (index : Nat) : ApiView where
  index := index
  endpoint := "archive"
  role := .frozen
  priority := 0
  weight := 1
  up := true
  busy := false
  inFlight := 0
  full := false
  apis := some [BlockEndpoint.rawBlock.path]
  head := none
  lib := none
  earliest := none
  verified := true
  blocks := some ⟨1, 100⟩
  declared := some ⟨1, 100⟩

/-- A live API whose block log begins at the given block. -/
def liveFrom (index : Nat) (earliest : Fin (2 ^ 32)) : ApiView where
  index := index
  endpoint := "live"
  role := .live
  priority := 0
  weight := 1
  up := true
  busy := false
  inFlight := 0
  full := false
  apis := none
  head := some 500
  lib := some 490
  earliest := some earliest
  verified := false
  blocks := none
  declared := none

/-- A range server between two live APIs. -/
def sampleDirectory : ApiDirectory := ⟨[liveFrom 0 1, rangeServer 1, liveFrom 2 50], by decide⟩

def rawById (n : Fin (2 ^ 32)) : BlockQuery where
  endpoint := .rawBlock
  hint := some ⟨n, true⟩
  shipLib := none
  blockSource := .liveFirst
  maxAttempts := 2

/-- Both kept places in an order of two. -/
theorem irreversible_order_keeps_places_two :
    irreversibleOrder 7 (rawById 7) true sampleDirectory.apis 2 = [0, 1] ∧
      PlacesKept sampleDirectory.apis 7 (rawById 7) true 2
        (irreversibleOrder 7 (rawById 7) true sampleDirectory.apis 2) :=
  ⟨by decide, irreversible_order_keeps_places sampleDirectory 7 (rawById 7) true (by decide)⟩

end FleetRouter.ChainApi
