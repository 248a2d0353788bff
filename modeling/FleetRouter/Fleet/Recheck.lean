import FleetRouter.Fleet.Legs

/-!
# Planning a leg and checking one that is being dialed

`nextStep` plans a leg and `serveOn` decides whether a leg that is already being
dialed may go on.  They are written apart and make the same case split: what one
serves the other serves, and where one gives up before it ranks any upstream the
other has nothing to offer.
-/

namespace FleetRouter.Fleet

open Ship Session

/-- An upstream is found by its index when the indices are distinct. -/
theorem FleetView.up_index {v : FleetView} (distinct : (v.upstreams.map UpstreamView.index).Nodup)
    {u : UpstreamView} (member : u ∈ v.upstreams) : v.up u.index = some u := by
  obtain ⟨w, found⟩ : ∃ w, v.up u.index = some w := by
    have search : (v.upstreams.find? fun w => w.index = u.index).isSome := by
      simpa using ⟨u, member, rfl⟩
    unfold up
    split
    · split
      · exact ⟨_, rfl⟩
      · exact Option.isSome_iff_exists.mp search
    · exact Option.isSome_iff_exists.mp search
  obtain ⟨isUpstream, same⟩ := up_mem found
  rw [found, List.inj_on_of_nodup_map distinct isUpstream member same]

namespace Planning

variable {p : Planning} {sh : Shape} {start : Fin (2 ^ 32)}

/-- The step `nextStep` decides before it ranks candidates. -/
def unranked (p : Planning) (sh : Shape) (start : Fin (2 ^ 32)) : Option Step :=
  let v := p.view
  if sh.end ≤ start then some .done
  else if !p.below start && !v.ids.has start then
    if v.idsBegin.isNone || (v.ids.top.end ≤ start && v.ids.liveTailBegin.isNone) then
      some (.wait start)
    else if 0 < v.frozenUnknown then some (.hold start .offline true)
    else some (.gap start)
  else if p.below start && 0 < v.frozenUnknown then some (.hold start .offline true)
  else if (v.upstreams.filter fun u => candidate v u sh start p.ex p.now).isEmpty then
    some (.hold start (p.holdReason start) (!tipRegion v start))
  else none

/-- When the candidates are ranked at all. -/
theorem unranked_eq_none : p.unranked sh start = none ↔
    ¬sh.end ≤ start ∧ ¬(!p.below start && !p.view.ids.has start) = true ∧
      ¬(p.below start && 0 < p.view.frozenUnknown) = true ∧
      ∃ u ∈ p.view.upstreams, candidate p.view u sh start p.ex p.now := by
  unfold unranked
  by_cases done : sh.end ≤ start
  · simp [done]
  by_cases unknown : (!p.below start && !p.view.ids.has start) = true
  · simp only [if_neg done, if_pos unknown]
    split_ifs <;> simp [unknown]
  by_cases silent : (p.below start && 0 < p.view.frozenUnknown) = true
  · simp only [if_neg done, if_neg unknown, if_pos silent]
    simp [silent]
  · simp only [if_neg done, if_neg unknown, if_neg silent]
    simp [done, unknown, silent]

/-- What is decided before the ranking is what `nextStep` returns. -/
theorem nextStep_of_unranked {step : Step} (early : p.unranked sh start = some step) :
    p.nextStep sh start = step := by
  simp only [unranked] at early
  simp only [nextStep]
  split at early
  · rename_i done
    rw [if_pos done]
    exact Option.some.inj early
  rename_i open_
  rw [if_neg open_]
  split at early
  · rename_i unknown
    rw [if_pos unknown]
    split_ifs at early ⊢ <;> exact Option.some.inj early
  rename_i known
  rw [if_neg known]
  split at early
  · rename_i silent
    rw [if_pos silent]
    exact Option.some.inj early
  rename_i reported
  rw [if_neg reported]
  split at early
  · rename_i empty
    have none : p.best sh start = none := by
      rw [best, minBy_eq_none, List.map_eq_nil_iff]
      exact List.isEmpty_iff.mp empty
    rw [none]
    exact Option.some.inj early
  · cases early

/-- A ranked candidate is served, or the session holds or waits. -/
theorem nextStep_of_ranked (ranked : p.unranked sh start = none) :
    p.nextStep sh start ≠ .done ∧ ∀ block, p.nextStep sh start ≠ .gap block := by
  obtain ⟨open_, known, reported, -⟩ := unranked_eq_none.mp ranked
  simp only [nextStep, if_neg open_, if_neg known, if_neg reported]
  cases p.best sh start with
  | none => simp
  | some chosen =>
      simp only
      split
      · simp
      split
      · simp
      split <;> simp

/-- A leg that `serveOn` returns is for a candidate, so nothing was decided before the
ranking. -/
theorem unranked_of_serveOn {up : Nat} {leg : ServeStep}
    (served : p.serveOn sh start up = some leg) :
    p.unranked sh start = none := by
  obtain ⟨open_, known, reported, u, listed, -, isCandidate, -⟩ := serveOn_serve served
  exact unranked_eq_none.mpr
    ⟨not_le.mpr open_, known_iff.mpr known, reported, u, listed, isCandidate⟩

/-- A leg `nextStep` serves is the one `serveOn` gives its upstream. -/
theorem serveOn_of_serve (distinct : (p.view.upstreams.map UpstreamView.index).Nodup)
    {leg : ServeStep} (served : p.nextStep sh start = .serve leg) :
    p.serveOn sh start leg.up = some leg := by
  obtain ⟨open_, known, u, member, isCandidate, -, -, gated, isLeg⟩ := nextStep_serve served
  have isKnown := known_iff.mpr known
  have reported : ¬(p.below start && 0 < p.view.frozenUnknown) = true := by
    intro silent
    simp only [nextStep, if_neg (not_le.mpr open_), if_neg isKnown, if_pos silent] at served
    cases served
  have nonempty : start < leg.reqEnd :=
    (gatedEnd_bounded open_ member isCandidate known gated).nonempty
  rw [isLeg]
  simp only [serveOn, FleetView.up_index distinct member, Option.filter_some, isCandidate, if_true,
    gated]
  have ranked : ¬((!p.below start && !p.view.ids.has start) ||
      (p.below start && 0 < p.view.frozenUnknown)) = true := by
    rw [Bool.or_eq_true]
    exact not_or.mpr ⟨isKnown, reported⟩
  rw [if_neg (not_le.mpr open_), if_neg ranked, if_pos nonempty]

end Planning

/-- Planning a leg and checking a dialed one agree.  A leg that is served is the one
its upstream is checked for; an upstream that passes the check leaves something to
serve; and where the planner gives up before it ranks candidates, no upstream passes. -/
theorem plan_and_recheck_agree {p : Planning} (isBuild : p.view.IsBuild) (sh : Shape)
    (start : Fin (2 ^ 32)) :
    (∀ leg, p.nextStep sh start = .serve leg → p.serveOn sh start leg.up = some leg) ∧
    (∀ up leg, p.serveOn sh start up = some leg →
      p.nextStep sh start ≠ .done ∧ ∀ block, p.nextStep sh start ≠ .gap block) ∧
    (p.nextStep sh start = .done ∨ (∃ block, p.nextStep sh start = .gap block) ∨
        (∃ step, p.unranked sh start = some step) →
      ∀ up, p.serveOn sh start up = none) ∧
    ∀ step, p.unranked sh start = some step → p.nextStep sh start = step := by
  refine ⟨?_, ?_, ?_, fun step early => Planning.nextStep_of_unranked early⟩
  · intro leg served
    exact Planning.serveOn_of_serve isBuild.distinct served
  · intro up leg served
    exact Planning.nextStep_of_ranked (Planning.unranked_of_serveOn served)
  · intro decided up
    cases served : p.serveOn sh start up with
    | none => rfl
    | some leg =>
        have ranked := Planning.unranked_of_serveOn served
        obtain ⟨notDone, notGap⟩ := Planning.nextStep_of_ranked ranked
        rcases decided with done | ⟨block, gap⟩ | ⟨step, early⟩
        · exact absurd done notDone
        · exact absurd gap (notGap block)
        · simp [ranked] at early

/-- An archive's leg, planned and checked. -/
theorem plan_and_recheck_agree_sample :
    ∃ leg, samplePlanning.nextStep sampleShape 10 = .serve leg ∧ leg.reqEnd = 100 ∧
      samplePlanning.serveOn sampleShape 10 leg.up = some leg := by
  have isBuild : samplePlanning.view.IsBuild := isBuild_sampleView
  exact ⟨_, nextStep_samplePlanning, rfl,
    (plan_and_recheck_agree isBuild sampleShape 10).1 _ nextStep_samplePlanning⟩

end FleetRouter.Fleet
