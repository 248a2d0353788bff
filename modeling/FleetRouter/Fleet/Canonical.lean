import Mathlib.Data.List.Induction
import FleetRouter.Fleet.Hub
import FleetRouter.Fleet.Legs

/-!
# The canonical ABI of a stitched listener

Every client of a stitched listener gets one ABI.  Once a live upstream gave it, it
changes only when no live upstream in service serves it any more, and then to that of
the live upstream with the highest head.  A listener that excludes other ABIs plans on
upstreams of that ABI alone.
-/

namespace FleetRouter.Fleet

open Ship Session Transition

/-- Routable, online and live. -/
def ServerState.liveInService (s : ServerState) : Bool :=
  s.enabled && !s.operatorDisabled && s.online && s.role = .live

/-- Some live upstream in service has the ABI. -/
def StateMap.Serves (states : StateMap) (fp : UInt64) : Prop :=
  ∃ entry ∈ states.entries, entry.2.liveInService ∧ entry.2.abi.map AbiEntry.fp = some fp

/-- Among the live upstreams in service with a known ABI, the one with the highest head
and, among equals, the lowest index. -/
structure StateMap.Leads (states : StateMap) (entry : String × ServerState) : Prop where
  listed : entry ∈ states.entries
  live : entry.2.liveInService
  highest : ∀ other ∈ states.entries, other.2.liveInService → other.2.abi.isSome →
    height other.2.head < height entry.2.head ∨
      height other.2.head = height entry.2.head ∧ entry.2.index ≤ other.2.index

/-- The maps list the same live upstreams in service. -/
def StateMap.SameLive (states states' : StateMap) : Prop :=
  ∀ entry : String × ServerState, entry.2.liveInService →
    (entry ∈ states.entries ↔ entry ∈ states'.entries)

/-- The canonical ABI came from a live upstream. -/
def FromLive (canonical : Option (AbiEntry × AbiSource)) : Prop :=
  ∃ entry index, canonical = some (entry, .live index)

/-! ## The live upstreams a build sees -/

/-- The live upstreams in service, as a build lists them. -/
def StateMap.liveEntries (states : StateMap) : List (String × ServerState) :=
  states.sorted.filter fun entry => entry.2.liveInService

/-- Those with a known ABI, with it. -/
def StateMap.liveAbis (states : StateMap) : List (UpstreamView × AbiEntry) :=
  states.liveEntries.filterMap fun entry =>
    entry.2.abi.map fun abi => (upstreamView entry.1 entry.2, abi)

theorem onlineWithAbi_live (states : StateMap) :
    onlineWithAbi states.upstreams (states.sorted.map fun entry => entry.2.abi) .live =
      states.liveAbis := by
  rw [onlineWithAbi, StateMap.upstreams, List.zip_map', List.filterMap_map, StateMap.liveAbis,
    StateMap.liveEntries, List.filterMap_filter]
  rfl

theorem mem_liveEntries {states : StateMap} {entry : String × ServerState} :
    entry ∈ states.liveEntries ↔ entry ∈ states.entries ∧ entry.2.liveInService := by
  rw [StateMap.liveEntries, List.mem_filter, mem_sorted]

theorem mem_liveAbis {states : StateMap} {u : UpstreamView} {abi : AbiEntry} :
    (u, abi) ∈ states.liveAbis ↔ ∃ entry ∈ states.entries, entry.2.liveInService ∧
      entry.2.abi = some abi ∧ u = upstreamView entry.1 entry.2 := by
  simp only [StateMap.liveAbis, List.mem_filterMap, mem_liveEntries, Option.map_eq_some_iff,
    Prod.mk.injEq]
  constructor
  · rintro ⟨entry, ⟨listed, live⟩, _, known, rfl, rfl⟩
    exact ⟨entry, listed, live, known, rfl⟩
  · rintro ⟨entry, listed, live, known, rfl⟩
    exact ⟨entry, ⟨listed, live⟩, abi, known, rfl, rfl⟩

theorem liveAbis_pairwise (states : StateMap) :
    states.liveAbis.Pairwise fun a b => a.1.index < b.1.index := by
  exact pairwise_reports (r := fun u v : UpstreamView => u.index < v.index)
    (states.sorted_pairwise.filter _)

/-- Other upstreams leave the list of the live ones alone. -/
theorem StateMap.SameLive.liveAbis_eq {states states' : StateMap} (same : states.SameLive states') :
    states.liveAbis = states'.liveAbis := by
  have sorted (states : StateMap) : states.liveEntries.Pairwise fun a b => a.2.index < b.2.index :=
    states.sorted_pairwise.filter _
  have nodup (states : StateMap) : states.liveEntries.Nodup :=
    (sorted states).imp fun before isSame => (isSame ▸ before).false
  have perm : states.liveEntries.Perm states'.liveEntries := by
    refine (List.perm_ext_iff_of_nodup (nodup states) (nodup states')).mpr fun entry => ?_
    rw [mem_liveEntries, mem_liveEntries]
    exact and_congr_left fun live => same entry live
  have equal : states.liveEntries = states'.liveEntries :=
    perm.eq_of_pairwise (fun a b _ _ before after => absurd before (lt_asymm after))
      (sorted states) (sorted states')
  rw [StateMap.liveAbis, StateMap.liveAbis, equal]

theorem bestLiveAbi_concat (earlier : List (UpstreamView × AbiEntry))
    (last : UpstreamView × AbiEntry) :
    bestLiveAbi (earlier ++ [last]) = match bestLiveAbi earlier with
      | some best => if height last.1.head ≤ height best.1.head then some best else some last
      | none => some last := by
  rw [bestLiveAbi, List.foldl_append]
  rfl

theorem bestLiveAbi_eq_none {candidates : List (UpstreamView × AbiEntry)} :
    bestLiveAbi candidates = none ↔ candidates = [] := by
  induction candidates using List.reverseRecOn with
  | nil => exact ⟨fun _ => rfl, fun _ => rfl⟩
  | append_singleton earlier last _ =>
      rw [bestLiveAbi_concat]
      cases bestLiveAbi earlier with
      | none => simp
      | some best =>
          simp only [List.append_eq_nil_iff, List.cons_ne_self, and_false, iff_false]
          split <;> simp

/-- The first of the upstreams with the highest head. -/
theorem bestLiveAbi_some {candidates : List (UpstreamView × AbiEntry)}
    (sorted : candidates.Pairwise fun a b => a.1.index < b.1.index) {best : UpstreamView × AbiEntry}
    (found : bestLiveAbi candidates = some best) :
    best ∈ candidates ∧ ∀ c ∈ candidates, height c.1.head < height best.1.head ∨
      height c.1.head = height best.1.head ∧ best.1.index ≤ c.1.index := by
  induction candidates using List.reverseRecOn generalizing best with
  | nil => cases found
  | append_singleton earlier last ih =>
      obtain ⟨before, -, after⟩ := List.pairwise_append.mp sorted
      rw [bestLiveAbi_concat] at found
      cases isBest : bestLiveAbi earlier with
      | none =>
          rw [isBest] at found
          cases found
          rw [bestLiveAbi_eq_none.mp isBest]
          simp
      | some first =>
          obtain ⟨listed, highest⟩ := ih before isBest
          simp only [isBest] at found
          split at found
          · rename_i below
            cases found
            refine ⟨List.mem_append_left _ listed, fun c member => ?_⟩
            cases List.mem_append.mp member with
            | inl isEarlier => exact highest c isEarlier
            | inr isLast =>
                have later := after best listed last (by simp)
                rw [List.mem_singleton.mp isLast]
                exact below.lt_or_eq.imp_right fun same => ⟨same, later.le⟩
          · rename_i above
            cases found
            refine ⟨by simp, fun c member => ?_⟩
            cases List.mem_append.mp member with
            | inl isEarlier =>
                have atMost : height c.1.head ≤ height first.1.head :=
                  (highest c isEarlier).elim le_of_lt fun same => same.1.le
                exact .inl (atMost.trans_lt (not_le.mp above))
            | inr isLast =>
                rw [List.mem_singleton.mp isLast]
                exact .inr ⟨rfl, le_rfl⟩

/-! ## A choice -/

/-- What a build without an `abi_file` makes of the canonical ABI before it. -/
inductive Chosen (states : StateMap) :
    Option (AbiEntry × AbiSource) → Option (AbiEntry × AbiSource) → Prop
  /-- A live ABI that is still served. -/
  | kept {entry : AbiEntry} {index : Nat} : states.Serves entry.fp →
      Chosen states (some (entry, .live index)) (some (entry, .live index))
  /-- The ABI of the leading live upstream. -/
  | led {current : Option (AbiEntry × AbiSource)} {entry : String × ServerState} {abi : AbiEntry} :
      (∀ old index, current = some (old, .live index) → ¬ states.Serves old.fp) →
      states.Leads entry → entry.2.abi = some abi →
      Chosen states current (some (abi, .live entry.2.index))
  /-- Without a live ABI the one before stays. -/
  | remembered {current : AbiEntry × AbiSource} : states.liveAbis = [] →
      Chosen states (some current) (some current)
  /-- The ABI of an archive, given with how many archives have it and the first of them. -/
  | provisional {chosen : Option (Nat × Nat × AbiEntry)} : states.liveAbis = [] →
      Chosen states none (chosen.map fun slot => (slot.2.2, .provisional slot.2.1))

theorem any_liveAbis {states : StateMap} {fp : UInt64} :
    (states.liveAbis.any fun next => next.1.abiFp = some fp) = true ↔ states.Serves fp := by
  simp only [List.any_eq_true, decide_eq_true_eq]
  constructor
  · rintro ⟨⟨u, abi⟩, isLive, serves⟩
    obtain ⟨entry, listed, live, -, rfl⟩ := mem_liveAbis.mp isLive
    exact ⟨entry, listed, live, serves⟩
  · rintro ⟨entry, listed, live, serves⟩
    obtain ⟨abi, known, -⟩ := Option.map_eq_some_iff.mp serves
    exact ⟨(_, abi), mem_liveAbis.mpr ⟨entry, listed, live, known, rfl⟩, serves⟩

theorem leads_of_best {states : StateMap} {u : UpstreamView} {abi : AbiEntry}
    (found : bestLiveAbi states.liveAbis = some (u, abi)) :
    ∃ entry, states.Leads entry ∧ entry.2.abi = some abi ∧ entry.2.index = u.index := by
  obtain ⟨listed, highest⟩ := bestLiveAbi_some (liveAbis_pairwise states) found
  obtain ⟨entry, isEntry, live, known, rfl⟩ := mem_liveAbis.mp listed
  refine ⟨entry, ⟨isEntry, live, fun other isOther otherLive otherKnown => ?_⟩, known, rfl⟩
  obtain ⟨otherAbi, isAbi⟩ := Option.isSome_iff_exists.mp otherKnown
  exact highest (upstreamView other.1 other.2, otherAbi)
    (mem_liveAbis.mpr ⟨other, isOther, otherLive, isAbi, rfl⟩)

/-- The ABIs of a state map, in the order of its upstreams. -/
def StateMap.abis (states : StateMap) : List (Option AbiEntry) :=
  states.sorted.map fun entry => entry.2.abi

theorem chosen_chooseCanonical {ctx : BuildCtx} (unpinned : ctx.abiPin = none) (states : StateMap)
    (current : Option (AbiEntry × AbiSource)) :
    Chosen states current (chooseCanonical ctx states.upstreams states.abis current) := by
  simp only [chooseCanonical, unpinned, StateMap.abis, onlineWithAbi_live]
  by_cases kept : ∃ old index, current = some (old, .live index) ∧ states.Serves old.fp
  · obtain ⟨old, index, rfl, serves⟩ := kept
    rw [if_pos (any_liveAbis.mpr serves)]
    exact .kept serves
  · have unserved : ∀ old index, current = some (old, .live index) → ¬ states.Serves old.fp :=
      fun old index isCurrent serves => kept ⟨old, index, isCurrent, serves⟩
    rw [if_neg]
    · cases found : bestLiveAbi states.liveAbis with
      | some best =>
          obtain ⟨entry, leads, known, sameIndex⟩ := leads_of_best found
          have chosen : Chosen states current (some (best.2, .live best.1.index)) :=
            sameIndex ▸ .led unserved leads known
          exact chosen
      | none =>
          have noneLive := bestLiveAbi_eq_none.mp found
          cases current with
          | some current => exact .remembered noneLive
          | none => exact .provisional noneLive
    · cases current with
      | none => simp
      | some current =>
          obtain ⟨entry, source⟩ := current
          cases source with
          | live index => exact fun isKept => unserved entry index rfl (any_liveAbis.mp isKept)
          | file => simp
          | provisional index => simp

/-- Once there is a canonical ABI, only live upstreams in service have a say. -/
theorem chooseCanonical_sameLive {ctx : BuildCtx} (unpinned : ctx.abiPin = none)
    {states states' : StateMap} (same : states.SameLive states') (current : AbiEntry × AbiSource) :
    chooseCanonical ctx states'.upstreams states'.abis (some current) =
      chooseCanonical ctx states.upstreams states.abis (some current) := by
  simp only [chooseCanonical, unpinned, StateMap.abis, onlineWithAbi_live, same.liveAbis_eq]
  cases bestLiveAbi states'.liveAbis with
  | some best => rfl
  | none => rfl

/-! ## Rebuilds -/

@[simp] theorem HubMemory.noteHead_canonical (mem : HubMemory)
    (head : Option BlockPos) (now : Nat) :
    (mem.noteHead head now).canonical = mem.canonical := by
  unfold HubMemory.noteHead
  split
  · split <;> rfl
  · rfl

@[simp] theorem fleetTip_canonical (upstreams : List UpstreamView) (tips : List ObservedTip)
    (liveConfigured : Bool) (mem : HubMemory) :
    (fleetTip upstreams tips liveConfigured mem).2.canonical = mem.canonical := by
  simp only [fleetTip]
  split <;> rfl

@[simp] theorem freshTip_canonical (v : FleetView) (tips : List ObservedTip) (mem : HubMemory)
    (now : Nat) : (freshTip v tips mem now).2.canonical = mem.canonical := by
  simp only [freshTip]
  split
  · rfl
  · simp only
    split <;> exact HubMemory.noteHead_canonical ..

section Rebuild

variable {ctx : BuildCtx} (states : StateMap) (now : Nat)

theorem buildView_canonical (stitched : ctx.topology = .stitched) (tips : List ObservedTip)
    (mem : HubMemory) :
    (buildView ctx states tips mem now).2.canonical =
        chooseCanonical ctx states.upstreams states.abis mem.canonical ∧
      (buildView ctx states tips mem now).1.abi =
        (chooseCanonical ctx states.upstreams states.abis mem.canonical).map Prod.fst ∧
      (buildView ctx states tips mem now).1.abiSource =
        (chooseCanonical ctx states.upstreams states.abis mem.canonical).map Prod.snd := by
  simp only [buildView, stitched, if_true, HubMemory.noteHead_canonical, fleetTip_canonical]
  exact ⟨rfl, rfl, rfl⟩

theorem Hub.rebuild_canonical (stitched : ctx.topology = .stitched) (hub : Hub) :
    (hub.rebuild ctx states now).2.mem.canonical =
      chooseCanonical ctx states.upstreams states.abis hub.mem.canonical := by
  have built := (buildView_canonical states now stitched hub.tips hub.mem).1
  simp only [Hub.rebuild]
  split <;> exact built

/-- A build that excludes other ABIs accepts the canonical one alone. -/
theorem buildView_accepts (excludes : ctx.abiMismatch = .exclude) (tips : List ObservedTip)
    (mem : HubMemory) {entry : AbiEntry}
    (canonical : (buildView ctx states tips mem now).1.abi = some entry) :
    ∀ u ∈ (buildView ctx states tips mem now).1.upstreams, u.abiOk = true →
      u.abiFp = some entry.fp := by
  simp only [buildView, excludes] at canonical ⊢
  obtain ⟨choice, chosen, rfl⟩ := Option.map_eq_some_iff.mp canonical
  simp only [chosen]
  intro u listed accepted
  obtain ⟨w, -, rfl⟩ := List.mem_map.mp listed
  exact of_decide_eq_true accepted

end Rebuild

/-! ## Runs -/

theorem Chosen.fromLive {states : StateMap} {before after : Option (AbiEntry × AbiSource)}
    (chosen : Chosen states before after) (live : FromLive before) : FromLive after := by
  cases chosen with
  | kept serves => exact live
  | led unserved leads known => exact ⟨_, _, rfl⟩
  | remembered noneLive => exact live
  | provisional noneLive =>
      obtain ⟨entry, index, isNone⟩ := live
      cases isNone

/-- The new ABI is the leader's, and the old one is served no more. -/
theorem Chosen.changed {states : StateMap} {old new : AbiEntry} {index : Nat} {source : AbiSource}
    (chosen : Chosen states (some (old, .live index)) (some (new, source)))
    (differs : new.fp ≠ old.fp) :
    ¬ states.Serves old.fp ∧ ∃ entry, states.Leads entry ∧ entry.2.abi = some new := by
  cases chosen with
  | kept serves => exact absurd rfl differs
  | led unserved leads known => exact ⟨unserved old index rfl, _, leads, known⟩
  | remembered noneLive => exact absurd rfl differs

theorem HubRun.step_fromLive {ctx : BuildCtx} (stitched : ctx.topology = .stitched)
    (unpinned : ctx.abiPin = none) {r r' : HubRun} {e : HubEvent} (step : r.step ctx e = some r')
    (live : FromLive r.hub.mem.canonical) : FromLive r'.hub.mem.canonical := by
  obtain ⟨states, now, -, rfl⟩ | ⟨back, now, v, -, -, rfl⟩ | ⟨index, head, lib, -, rfl⟩ :=
    HubRun.step_cases step
  · have chosen := chosen_chooseCanonical unpinned states r.hub.mem.canonical
    rw [← Hub.rebuild_canonical states now stitched] at chosen
    exact chosen.fromLive live
  · have unchanged : (r.hub.freshTip v now).2.mem.canonical = r.hub.mem.canonical :=
      freshTip_canonical ..
    exact unchanged.symm ▸ live
  · exact live

/-- Upstreams with an accepted ABI have the canonical one. -/
def FleetView.Accepts (v : FleetView) : Prop :=
  ∀ entry, v.abi = some entry → ∀ u ∈ v.upstreams, u.abiOk = true → u.abiFp = some entry.fp

theorem HubRun.published_accepts {ctx : BuildCtx} (excludes : ctx.abiMismatch = .exclude)
    {count start : Nat} {r : HubRun}
    (reachable : Reachable (hubMachine ctx count start) (fun _ _ => True) r) :
    ∀ v ∈ r.hub.published, v.Accepts := by
  refine reachable.invariant (P := fun r => ∀ v ∈ r.hub.published, v.Accepts) ?_ ?_
  · rintro _ rfl v listed entry canonical
    rw [List.mem_singleton.mp listed] at canonical
    cases canonical
  · intro r e r' _ accepts _ step
    obtain ⟨states, now, -, rfl⟩ | ⟨back, now, v, -, -, rfl⟩ | ⟨index, head, lib, -, rfl⟩ :=
      HubRun.step_cases step
    · intro v listed
      rcases r.hub.mem_published_rebuild ctx states now listed with before | ⟨generation, rfl⟩
      · exact accepts v before
      · intro entry canonical
        rw [Hub.rebuild_fst] at canonical ⊢
        exact buildView_accepts states now excludes r.hub.tips r.hub.mem canonical
    · exact accepts
    · exact accepts

/-- An upstream of the view, with this ABI, is the one the leg is planned on. -/
def FleetView.PlansOn (v : FleetView) (leg : ServeStep) (fp : UInt64) : Prop :=
  ∃ u ∈ v.upstreams, u.index = leg.up ∧ u.endpoint = leg.endpoint ∧ u.abiFp = some fp

theorem FleetView.Accepts.plansOn {p : Planning} (accepts : p.view.Accepts) {entry : AbiEntry}
    (canonical : p.view.abi = some entry) (sh : Shape) (start : Fin (2 ^ 32)) :
    (∀ leg, p.nextStep sh start = .serve leg → p.view.PlansOn leg entry.fp) ∧
      ∀ up leg, p.serveOn sh start up = some leg → p.view.PlansOn leg entry.fp := by
  have accepted {u : UpstreamView} (listed : u ∈ p.view.upstreams)
      (chosen : candidate p.view u sh start p.ex p.now) : u.abiFp = some entry.fp :=
    accepts entry canonical u listed (usable_of_candidate chosen).2.2.1
  constructor
  · intro leg served
    obtain ⟨-, -, u, listed, chosen, -, -, -, isLeg⟩ := Planning.nextStep_serve served
    rw [isLeg]
    exact ⟨u, listed, rfl, rfl, accepted listed chosen⟩
  · intro up leg served
    obtain ⟨-, -, -, u, listed, -, chosen, -, isLeg⟩ := Planning.serveOn_serve served
    rw [isLeg]
    exact ⟨u, listed, rfl, rfl, accepted listed chosen⟩

/-- In every run of a stitched listener without an `abi_file`: a canonical ABI of a live
upstream is followed by such ABIs only; a rebuild changes its fingerprint only if no live
upstream in service has it, to that of the leading one; other upstreams have no say; and
where other ABIs are excluded, every view plans on upstreams of its canonical ABI alone. -/
theorem canonical_abi_kept {ctx : BuildCtx} (stitched : ctx.topology = .stitched)
    (unpinned : ctx.abiPin = none) {count start : Nat} {r : HubRun}
    (reachable : Reachable (hubMachine ctx count start) (fun _ _ => True) r) :
    (FromLive r.hub.mem.canonical → ∀ r',
      Reachable ((hubMachine ctx count start).startingAt r) (fun _ _ => True) r' →
        FromLive r'.hub.mem.canonical) ∧
    (∀ states now,
      ((r.hub.rebuild ctx states now).1.abi =
          (r.hub.rebuild ctx states now).2.mem.canonical.map Prod.fst ∧
        (r.hub.rebuild ctx states now).1.abiSource =
          (r.hub.rebuild ctx states now).2.mem.canonical.map Prod.snd) ∧
      (∀ old index, r.hub.mem.canonical = some (old, .live index) → ∀ new source,
        (r.hub.rebuild ctx states now).2.mem.canonical = some (new, source) → new.fp ≠ old.fp →
          ¬ states.Serves old.fp ∧ ∃ entry, states.Leads entry ∧ entry.2.abi = some new) ∧
      ∀ current, r.hub.mem.canonical = some current → ∀ states', states.SameLive states' →
        (r.hub.rebuild ctx states' now).2.mem.canonical =
          (r.hub.rebuild ctx states now).2.mem.canonical) ∧
    (ctx.abiMismatch = .exclude → ∀ v,
      (v ∈ r.hub.published ∨ ∃ states now, v = (r.hub.rebuild ctx states now).1) →
      ∀ entry, v.abi = some entry → ∀ p : Planning, p.view = v → ∀ sh block,
        (∀ leg, p.nextStep sh block = .serve leg → v.PlansOn leg entry.fp) ∧
          ∀ up leg, p.serveOn sh block up = some leg → v.PlansOn leg entry.fp) := by
  refine ⟨fun live r' later => ?_, fun states now => ⟨?_, ?_, ?_⟩, ?_⟩
  · refine later.invariant (P := fun r' => FromLive r'.hub.mem.canonical) ?_ ?_
    · rintro _ rfl
      exact live
    · intro _ _ _ _ live _ step
      exact HubRun.step_fromLive stitched unpinned step live
  · rw [Hub.rebuild_canonical states now stitched, Hub.rebuild_fst]
    exact (buildView_canonical states now stitched r.hub.tips r.hub.mem).2
  · intro old index isOld new source isNew differs
    have chosen := chosen_chooseCanonical unpinned states r.hub.mem.canonical
    rw [← Hub.rebuild_canonical states now stitched, isOld, isNew] at chosen
    exact chosen.changed differs
  · intro current isCurrent states' same
    rw [Hub.rebuild_canonical states' now stitched, Hub.rebuild_canonical states now stitched,
      isCurrent]
    exact chooseCanonical_sameLive unpinned same current
  · rintro excludes v isView entry canonical p rfl sh block
    have accepts : p.view.Accepts := by
      rcases isView with published | ⟨states, now, isBuilt⟩
      · exact HubRun.published_accepts excludes reachable p.view published
      · rw [isBuilt, Hub.rebuild_fst]
        intro entry canonical
        exact buildView_accepts states now excludes r.hub.tips r.hub.mem canonical
    exact accepts.plansOn canonical sh block

section Samples

def sampleAbi : AbiEntry := ⟨"abi", 7, true⟩

/-- A stitched listener that excludes other ABIs. -/
def excludingCtx : BuildCtx := ⟨.stitched, none, none, .exclude⟩

/-- One live server with an ABI. -/
def abiMap : StateMap where
  entries := [("ws://live", { liveServer 0 1 100 90 with abi := some sampleAbi })]
  nodup := by decide
  distinct := by decide

/-- A live ABI stays canonical, whatever comes later. -/
theorem canonical_abi_kept_sample :
    ∃ r, Reachable (hubMachine excludingCtx 1 0) (fun _ _ => True) r ∧
      r.hub.mem.canonical = some (sampleAbi, .live 0) ∧
      ∀ r', Reachable ((hubMachine excludingCtx 1 0).startingAt r) (fun _ _ => True) r' →
        FromLive r'.hub.mem.canonical := by
  have found : ∃ r, Reachable (hubMachine excludingCtx 1 0) (fun _ _ => True) r ∧
      r.hub.mem.canonical = some (sampleAbi, .live 0) :=
    exists_reachable_of_run [.rebuild abiMap 1] rfl (by decide +kernel)
  obtain ⟨r, reachable, canonical⟩ := found
  refine ⟨r, reachable, canonical, fun r' later => ?_⟩
  exact (canonical_abi_kept rfl rfl reachable).1 ⟨_, _, canonical⟩ r' later

end Samples

end FleetRouter.Fleet
