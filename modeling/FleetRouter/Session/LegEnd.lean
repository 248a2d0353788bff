import FleetRouter.Session.Stitched

/-!
# The end of an archive's leg

A frozen leg is clamped to the client's end, to the archive's own end and to the
fleet gate.  While the leg is served, every result that reaches the client is
below that end.  Nothing holds the results of a finished leg against it: they
are stopped only by the client's cursor, so the bound holds in the runs in which
no archive sends the client's next block on a link whose request is finished.
-/

namespace FleetRouter.Session

open Ship Fleet Transition

/-! ## Plans of a session -/

/-- Until the first result of a request, the cursor is the request's start. -/
def ClientSide.startsAtRequest (c : ClientSide) : Prop :=
  ∀ r, c.req = some r → c.deliveredForRequest = 0 → c.cursor = r.start

theorem ClientSide.startsAtRequest.requestStart_eq {c : ClientSide} {creq : BlocksRequest}
    (starts : c.startsAtRequest) (request : c.req = some creq) :
    requestStart c creq = c.cursor := by
  simp only [requestStart, ClientSide.fresh, decide_eq_true_eq]
  split
  · rename_i nothing
    exact (starts creq request nothing).symm
  · rfl

/-- The leg continues the client's request at its cursor, and its role is the
configured one. -/
structure PlannedLeg.Fits (roles : Nat → Role) (c : ClientSide) (pl : PlannedLeg) : Prop where
  shape : ∃ creq, c.req = some creq ∧ pl.shape = Shape.of creq
  starts : pl.leg.start = c.cursor
  role : pl.leg.role = roles pl.leg.up

/-- Every planning a session may use in one event. -/
def PlanEnv.plannings (env : PlanEnv) : List Planning :=
  env.first :: env.withoutLeft :: (env.withoutMove.toList ++ env.withoutRetired.toList)

/-- The role of an upstream is configuration: every view shows the same one. -/
def PlanEnv.agrees (roles : Nat → Role) (env : PlanEnv) : Prop :=
  ∀ p ∈ env.plannings, ∀ u ∈ p.view.upstreams, u.role = roles u.index

section
variable {roles : Nat → Role} {env : PlanEnv} {c : ClientSide} {pl : PlannedLeg}
  {p : Planning} {sh : Shape} {start : Fin (2 ^ 32)}

theorem PlannedStep.of_serve (served : PlannedStep.of p sh start = .serve pl) :
    pl.plan = p ∧ pl.shape = sh ∧ pl.leg.start = start := by
  unfold PlannedStep.of at served
  split at served
  · rename_i leg found
    cases served
    exact ⟨rfl, rfl, (Planning.nextStep_bounded found).1⟩
  all_goals cases served

theorem PlannedStep.orPlan_serve {step : PlannedStep} {again : Bool} {second : Option Planning}
    (served : step.orPlan again second sh start = .serve pl) :
    step = .serve pl ∨ ∃ p, second = some p ∧ PlannedStep.of p sh start = .serve pl := by
  unfold PlannedStep.orPlan at served
  split at served
  · rename_i p
    exact .inr ⟨p, rfl, served⟩
  · exact .inl served

theorem PlannedStep.reportBusy_serve {step : PlannedStep} {busy : Bool}
    (served : step.reportBusy busy = .serve pl) : step = .serve pl := by
  unfold PlannedStep.reportBusy at served
  split at served
  · cases served
  · exact served

theorem PlannedLeg.role_eq (agrees : env.agrees roles) (member : pl.plan ∈ env.plannings) :
    pl.leg.role = roles pl.leg.up := by
  obtain ⟨u, inView, index, role, -⟩ := pl.bounded.chosen
  rw [← role, ← index]
  exact agrees _ member u inView

theorem PlanEnv.plan_serve (served : env.plan c start = .serve pl) :
    ∃ creq, c.req = some creq ∧ pl.shape = Shape.of creq ∧ pl.leg.start = start ∧
      pl.plan ∈ env.plannings := by
  simp only [PlanEnv.plan] at served
  cases request : c.req with
  | none => simp [request] at served
  | some creq =>
      have planned (p : Planning) (member : p ∈ env.plannings)
          (found : PlannedStep.of p (Shape.of creq) start = .serve pl) :
          ∃ creq', some creq = some creq' ∧ pl.shape = Shape.of creq' ∧
            pl.leg.start = start ∧ pl.plan ∈ env.plannings := by
        obtain ⟨rfl, shape, starts⟩ := PlannedStep.of_serve found
        exact ⟨creq, rfl, shape, starts, member⟩
      simp only [request, Option.map_some] at served
      rcases PlannedStep.orPlan_serve (PlannedStep.reportBusy_serve served) with
        served | ⟨p, second, found⟩
      · rcases PlannedStep.orPlan_serve served with found | ⟨p, second, found⟩
        · exact planned _ (by simp [PlanEnv.plannings]) found
        · exact planned p (by simp [PlanEnv.plannings, second]) found
      · exact planned p (by simp [PlanEnv.plannings, second]) found

theorem PlanEnv.plan_fits (agrees : env.agrees roles)
    (served : env.plan c c.cursor = .serve pl) : pl.Fits roles c := by
  obtain ⟨creq, request, shape, starts, member⟩ := PlanEnv.plan_serve served
  exact ⟨⟨creq, request, shape⟩, starts, PlannedLeg.role_eq agrees member⟩

theorem PlanEnv.dialedLeg_fits {up : Nat} (agrees : env.agrees roles)
    (served : env.dialedLeg c up = some pl) : pl.Fits roles c ∧ pl.leg.up = up := by
  simp only [PlanEnv.dialedLeg] at served
  cases request : c.req with
  | none => simp [request] at served
  | some creq =>
      simp only [request, Option.map_some] at served
      split at served
      · rename_i leg found
        cases served
        obtain ⟨starts, sameUp, -⟩ := Planning.serveOn_bounded found
        exact ⟨⟨⟨creq, request, rfl⟩, starts,
          PlannedLeg.role_eq agrees (by simp [PlanEnv.plannings])⟩, sameUp⟩
      · cases served

theorem PlanEnv.onlineInsteadOf_fits {up : Nat} (agrees : env.agrees roles)
    (served : env.onlineInsteadOf c up = some pl) : pl.Fits roles c := by
  simp only [PlanEnv.onlineInsteadOf] at served
  split at served
  · cases served
  cases request : c.req with
  | none => simp [request] at served
  | some creq =>
      simp only [request, Option.map_some] at served
      split at served
      · rename_i other found
        obtain ⟨samePlan, shape, starts⟩ := PlannedStep.of_serve found
        split at served
        · cases served
          exact ⟨⟨creq, request, shape⟩, starts,
            PlannedLeg.role_eq agrees (by simp [PlanEnv.plannings, samePlan])⟩
        · cases served
      · cases served

end

/-! ## Links of a session -/

/-- The link has nothing left to send, and no window to drop replays in. -/
def Link.Finished (l : Link) : Prop := l.st.resumeFloor = none ∧ l.st.legDone = true

/-- The link serves a planned leg whose end is ahead of the client's cursor. -/
structure Link.Serving (c : ClientSide) (l : Link) (lr : LinkReq) : Prop where
  short : c.cursor < lr.end
  /-- Only inside the resume window is the upstream behind the client. -/
  cursor : ∃ u, l.st.upCursor = .exact u ∧ u ≤ c.cursor ∧
    (l.st.resumeFloor = none → u = c.cursor)
  floor : ∀ f, l.st.resumeFloor = some f → f = c.cursor
  planned : ∃ pl, l.planned = some pl ∧ (∃ creq, c.req = some creq ∧ pl.shape = Shape.of creq) ∧
    pl.leg.reqEnd = lr.end ∧ pl.leg.up = l.st.up ∧ pl.leg.role = .frozen

/-- A frozen link serves its leg or has finished it. -/
structure Link.Ok (roles : Nat → Role) (c : ClientSide) (l : Link) : Prop where
  role : l.st.role = roles l.st.up
  archive : l.st.role = .frozen → l.Finished ∨ ∃ lr, l.st.req = some lr ∧ l.Serving c lr

/-- A result from an archive was within the request it answers. -/
def ArchiveDelivery.Within (d : ArchiveDelivery) : Prop :=
  d.finished = false ∧ ∃ n, d.block = some n ∧ n < d.request.end ∧ n < d.clientEnd ∧
    ∃ pl, d.planned = some pl ∧ pl.leg.reqEnd = d.request.end ∧
      ∃ u ∈ pl.plan.view.upstreams, u.index = d.up ∧ n < u.maxEnd ∧
        ∃ gate, pl.plan.gate pl.shape = some gate ∧ n ≤ gate.num

section
variable {roles : Nat → Role} {c : ClientSide} {l : Link} {lr : LinkReq} {pl : PlannedLeg}
  {creq : BlocksRequest}

theorem Link.Serving.legDone_eq_false (serving : l.Serving c lr) (request : l.st.req = some lr) :
    l.st.legDone = false := by
  obtain ⟨u, exact_, behind, -⟩ := serving.cursor
  have short := serving.short
  simp only [LinkState.legDone, request, exact_, decide_eq_false_iff_not]
  omega

theorem Link.Ok.floor_none (ok : l.Ok roles c) (frozen : l.st.role = .frozen)
    (done : l.st.legDone = true) : l.st.resumeFloor = none := by
  rcases ok.archive frozen with finished | ⟨lr, request, serving⟩
  · exact finished.1
  · rw [serving.legDone_eq_false request] at done
    cases done

theorem Link.Ok.connected (roles : Nat → Role) (c : ClientSide) (up : Nat) :
    (Stitched.connected roles up).Ok roles c where
  role := rfl
  archive := fun _ => .inl ⟨rfl, rfl⟩

theorem Link.Ok.client {c' : ClientSide} (ok : l.Ok roles c) (request : c'.req = c.req)
    (cursor : c'.cursor = c.cursor) : l.Ok roles c' where
  role := ok.role
  archive frozen := by
    rcases ok.archive frozen with finished | ⟨lr, linkRequest, short, upCursor, floor, planned⟩
    · exact .inl finished
    · exact .inr ⟨lr, linkRequest, by rwa [cursor], by rwa [cursor], by rwa [cursor],
        by rwa [request]⟩

/-- A request for a planned leg. -/
theorem Link.Ok.sent {st : LinkState} (role : st.role = roles st.up)
    (starts : c.startsAtRequest) (request : c.req = some creq) (fits : pl.Fits roles c)
    (same : st.up = pl.leg.up) (purpose : Purpose) (target : Target) :
    Link.Ok roles c
      { st := (buildRequest c creq st pl.leg.reqEnd purpose target).2, planned := some pl } where
  role := role
  archive frozen := by
    have frozen : st.role = .frozen := frozen
    have start := starts.requestStart_eq request
    refine .inr ⟨_, rfl, ?_, ?_, ?_, ?_⟩
    · exact fits.starts ▸ pl.bounded.nonempty
    · refine ⟨c.cursor, ?_, le_rfl, fun _ => rfl⟩
      simp [buildRequest, frozen, positionsFor, start]
    · intro f isFloor
      simp only [buildRequest, Option.ite_none_right_eq_some, Option.some.injEq] at isFloor
      exact isFloor.2.symm
    · exact ⟨pl, rfl, fits.shape, rfl, same.symm, by rw [fits.role, ← same, ← role, frozen]⟩

/-- The request of an empty client request is finished as it is sent. -/
theorem Link.Ok.sentEmpty {st : LinkState} (role : st.role = roles st.up)
    (starts : c.startsAtRequest) (request : c.req = some creq) (fresh : c.fresh = true)
    (empty : creq.end ≤ c.cursor) (purpose : Purpose) (target : Target) :
    Link.Ok roles c
      { st := (buildRequest c creq st creq.end purpose target).2, planned := none } where
  role := role
  archive frozen := by
    have frozen : st.role = .frozen := frozen
    have start := starts.requestStart_eq request
    refine .inl ⟨by simp [buildRequest, fresh], ?_⟩
    simp [buildRequest, LinkState.legDone, frozen, positionsFor, start, empty]

/-- A replay moves the upstream's cursor up to the client's at most. -/
theorem Link.Ok.dropped {n : Fin (2 ^ 32)} (ok : l.Ok roles c) (below : n < c.cursor)
    (window : l.st.resumeFloor.isSome) :
    Link.Ok roles c { l with st := dropDuplicate l.st (some (nextBlock n)) } where
  role := ok.role
  archive frozen := by
    rcases ok.archive frozen with finished | ⟨lr, linkRequest, short, upCursor, floor, planned⟩
    · rw [finished.1] at window
      cases window
    · refine .inr ⟨lr, linkRequest, short, ⟨nextBlock n, rfl, ?_, ?_⟩, floor, planned⟩
      · have := nextBlock_val n
        omega
      · intro closed
        have closed : l.st.resumeFloor = none := closed
        rw [closed] at window
        cases window

/-- A result for the client's next block moves both cursors past it. -/
theorem Link.Ok.forwarded {h : ResultHead} {fw : Forward} {c' : ClientSide}
    (role : l.st.role = roles l.st.up) (serving : l.Serving c lr)
    (linkRequest : l.st.req = some lr) (at_ : fw.cls.n = some c.cursor)
    (next : fw.next = fw.cls.n.map nextBlock) (request : c'.req = c.req)
    (cursor : c'.cursor = nextBlock c.cursor) :
    Link.Ok roles c' { l with st := commitLink l.st h fw } where
  role := role
  archive _ := by
    have short := serving.short
    have advanced := nextBlock_val c.cursor
    have limit := lr.end.isLt
    have closed : (commitLink l.st h fw).resumeFloor = none := by
      cases floor : l.st.resumeFloor with
      | none => simp [commitLink, floor]
      | some f =>
          rw [serving.floor f floor] at floor
          simp [commitLink, floor, at_]
    have moved : (commitLink l.st h fw).upCursor = .exact (nextBlock c.cursor) := by
      simp [commitLink, next, at_]
    by_cases done : lr.end ≤ nextBlock c.cursor
    · refine .inl ⟨closed, ?_⟩
      simp only [LinkState.legDone, moved]
      simp [commitLink, linkRequest, done]
    · refine .inr ⟨lr, linkRequest, ?_, ?_, ?_, ?_⟩
      · rw [cursor]
        exact lt_of_not_ge done
      · exact ⟨nextBlock c.cursor, moved, cursor.ge, fun _ => cursor.symm⟩
      · intro f isFloor
        have isFloor : (commitLink l.st h fw).resumeFloor = some f := isFloor
        rw [closed] at isFloor
        cases isFloor
      · rw [request]
        exact serving.planned

/-- A result for the client's next block is within the leg that is served. -/
theorem Link.Serving.within (serving : l.Serving c lr) (linkRequest : l.st.req = some lr)
    (request : c.req = some creq) :
    ArchiveDelivery.Within
      { block := some c.cursor, up := l.st.up, request := lr, planned := l.planned
        clientEnd := creq.end, finished := l.st.legDone } := by
  obtain ⟨pl, planned, ⟨creq', request', shape⟩, sameEnd, sameUp, frozen⟩ := serving.planned
  cases request.symm.trans request'
  obtain ⟨u, member, index, -, archive⟩ := pl.bounded.chosen
  obtain ⟨own, gate, behind, gated⟩ := archive frozen
  have short := serving.short
  have asked : pl.leg.reqEnd ≤ creq.end := by
    have := pl.bounded.asked
    rwa [shape] at this
  have past := nextBlock_val gate.num
  rw [sameEnd] at asked own gated
  exact ⟨serving.legDone_eq_false linkRequest, c.cursor, rfl, short, short.trans_le asked, pl,
    planned, sameEnd, u, member, index.trans sameUp, short.trans_le own, gate, behind, by omega⟩

end

/-! ## Steps of a session -/

namespace Stitched

/-- What every step may rely on, also while a new request is being placed. -/
structure Base (roles : Nat → Role) (s : Stitched) : Prop where
  starts : s.c.startsAtRequest
  role : ∀ l, s.link = some l → l.st.role = roles l.st.up
  floor : ∀ l, s.link = some l → l.st.role = .frozen → l.st.legDone = true →
    l.st.resumeFloor = none
  past : ∀ d ∈ s.delivered, d.Within

/-- What holds between the events of a session. -/
structure Inv (roles : Nat → Role) (s : Stitched) : Prop where
  starts : s.c.startsAtRequest
  link : ∀ l, s.link = some l → l.Ok roles s.c
  /-- While a leg is dialed there is no link, so the cursor stays where the leg
  starts. -/
  dialing : ∀ purpose pl, s.phase = .dialing purpose (some pl) →
    s.link = none ∧ s.dial = some pl.leg.up ∧ pl.Fits roles s.c
  past : ∀ d ∈ s.delivered, d.Within

variable {roles : Nat → Role} {s : Stitched} {env : PlanEnv} {pl : PlannedLeg}

theorem Inv.base (inv : Inv roles s) : Base roles s where
  starts := inv.starts
  role := fun l isLink => (inv.link l isLink).role
  floor := fun l isLink => (inv.link l isLink).floor_none
  past := inv.past

theorem Base.close (base : Base roles s) : Inv roles s.close where
  starts := base.starts
  link := by simp [Stitched.close]
  dialing := by simp [Stitched.close]
  past := base.past

theorem Base.sendRequest (base : Base roles s) {l : Link} (isLink : s.link = some l)
    (fits : pl.Fits roles s.c) (same : l.st.up = pl.leg.up) (view : FleetView)
    (purpose : Purpose) :
    Inv roles (s.sendRequest view pl.leg.reqEnd purpose (some pl)) := by
  obtain ⟨creq, request, -⟩ := fits.shape
  simp only [Stitched.sendRequest, request, isLink]
  refine ⟨base.starts, ?_, ?_, base.past⟩
  · rintro _ ⟨⟩
    exact .sent (base.role l isLink) base.starts request fits same purpose _
  · intro purpose' pl' isDialing
    simp only at isDialing
    split at isDialing <;> cases isDialing

theorem Base.serve (base : Base roles s) (fits : pl.Fits roles s.c) (view : FleetView)
    (purpose : Purpose) (pre : Fin (2 ^ 32)) : Inv roles (s.serve roles view pl purpose pre) := by
  simp only [Stitched.serve]
  split
  · rename_i reuse
    obtain ⟨l, isLink, same⟩ := (Option.any_eq_true _ _).mp reuse
    rw [Bool.and_eq_true, decide_eq_true_eq] at same
    have ready : Base roles { s.discardStandby with dial := none } :=
      ⟨base.starts, base.role, base.floor, base.past⟩
    exact ready.sendRequest isLink fits same.1 view purpose
  · split
    · have ready : Base roles
          { s.discardStandby with
            dial := none, link := some (connected roles pl.leg.up) } := by
        refine ⟨base.starts, ?_, ?_, base.past⟩
        · rintro _ ⟨⟩
          rfl
        · rintro _ ⟨⟩ _ _
          rfl
      exact ready.sendRequest rfl fits rfl view purpose
    · split
      · refine ⟨base.starts, by simp, ?_, base.past⟩
        intro _ _ isDialing
        cases isDialing
        exact ⟨rfl, rfl, fits⟩
      · exact base.close

theorem legDone_of_settled {st : LinkState} {legacy : Bool} (frozen : st.role = .frozen)
    (quiet : settled st legacy = true) : st.legDone = true := by
  cases request : st.req with
  | none => simp [LinkState.legDone, request]
  | some req =>
      cases cursor : st.upCursor with
      | uncertain lo hi => simp [settled, request, cursor] at quiet
      | exact u =>
          simp only [settled, request, cursor, frozen] at quiet
          simpa [LinkState.legDone, request, cursor] using quiet

@[simp] theorem keepLinkIfSettled_c (s : Stitched) (view : FleetView) :
    (s.keepLinkIfSettled view).c = s.c := by
  unfold keepLinkIfSettled
  split
  · split <;> rfl
  · rfl

@[simp] theorem keepLinkIfSettled_delivered (s : Stitched) (view : FleetView) :
    (s.keepLinkIfSettled view).delivered = s.delivered := by
  unfold keepLinkIfSettled
  split
  · split <;> rfl
  · rfl

/-- A link that is kept has finished its request. -/
theorem Base.keep (base : Base roles s) {view : FleetView} {l : Link}
    (kept : (s.keepLinkIfSettled view).link = some l) : l.Ok roles s.c := by
  unfold keepLinkIfSettled at kept
  split at kept
  · rename_i l' isLink
    split at kept
    · rename_i quiet
      cases isLink.symm.trans kept
      refine ⟨base.role l isLink, fun frozen => .inl ?_⟩
      have done := legDone_of_settled frozen quiet
      exact ⟨base.floor l isLink frozen done, done⟩
    · cases kept
  · rename_i noLink
    cases noLink.symm.trans kept

theorem Base.kept (base : Base roles s) (view : FleetView) {phase : Phase}
    (notDialing : ∀ purpose pl, phase ≠ .dialing purpose (some pl)) :
    Inv roles { s.keepLinkIfSettled view with phase } where
  starts := by simpa using base.starts
  link l isLink := by simpa using base.keep isLink
  dialing purpose pl isDialing := absurd isDialing (notDialing purpose pl)
  past := by simpa using base.past

/-- Every planner step leaves a link that serves the new leg or has finished. -/
theorem Base.applyStep (base : Base roles s) {step : PlannedStep}
    (fits : ∀ pl, step = .serve pl → pl.Fits roles s.c) (view : FleetView) (purpose : Purpose)
    (pre : Fin (2 ^ 32)) : Inv roles (s.applyStep roles view step purpose pre) := by
  have ready (held : Bool) : Base roles { s.discardStandby with dial := none, held } :=
    ⟨base.starts, base.role, base.floor, base.past⟩
  cases step with
  | serve pl => exact base.serve (fits pl rfl) view purpose pre
  | gap block => exact base.close
  | done | wait => exact (ready false).kept view (by simp)
  | hold block why bounded =>
      simp only [Stitched.applyStep]
      split
      · exact ⟨base.starts, by simp [retireLink], by simp, base.past⟩
      · exact (ready true).kept view (by simp)

theorem Base.planAgain (base : Base roles s) (agrees : env.agrees roles) (purpose : Purpose) :
    Inv roles (s.planAgain roles env purpose) :=
  base.applyStep (fun _ served => PlanEnv.plan_fits agrees served) env.view purpose s.c.credit

theorem Inv.replan (inv : Inv roles s) (agrees : env.agrees roles) (purpose : Purpose) :
    Inv roles (s.replan roles env purpose) := by
  simp only [Stitched.replan]
  split
  · exact inv.base.planAgain agrees purpose
  · exact ⟨inv.starts, inv.link, by simp, inv.past⟩

theorem Inv.client (inv : Inv roles s) {c : ClientSide} (request : c.req = s.c.req)
    (cursor : c.cursor = s.c.cursor) (count : c.deliveredForRequest = s.c.deliveredForRequest) :
    Inv roles { s with c } where
  starts r isRequest nothing := by
    rw [cursor]
    exact inv.starts r (request ▸ isRequest) (count ▸ nothing)
  link l isLink := (inv.link l isLink).client request cursor
  dialing purpose pl isDialing := by
    obtain ⟨noLink, dial, ⟨creq, isRequest, shape⟩, starts, role⟩ :=
      inv.dialing purpose pl isDialing
    exact ⟨noLink, dial, ⟨creq, request.trans isRequest, shape⟩, starts.trans cursor.symm, role⟩
  past := inv.past

theorem Base.onEmptyRequest (base : Base roles s) {r : BlocksRequest}
    (request : s.c.req = some r) (fresh : s.c.fresh = true) (empty : r.end ≤ s.c.cursor)
    (view : FleetView) (pre : Fin (2 ^ 32)) : Inv roles (s.onEmptyRequest r view pre) := by
  simp only [Stitched.onEmptyRequest]
  split
  · rename_i l isLink
    have isLink : s.link = some l := isLink
    split
    · rename_i noRequest
      refine ⟨base.starts, ?_, by simp, base.past⟩
      intro l' isLink'
      cases isLink.symm.trans isLink'
      refine ⟨base.role l isLink, fun frozen => .inl ?_⟩
      have done : l.st.legDone = true := by
        rw [Option.isNone_iff_eq_none] at noRequest
        simp [LinkState.legDone, noRequest]
      exact ⟨base.floor l isLink frozen done, done⟩
    · split
      · simp only [Stitched.sendRequest, discardStandby, request, isLink]
        refine ⟨base.starts, ?_, ?_, base.past⟩
        · rintro _ ⟨⟩
          exact .sentEmpty (base.role l isLink) base.starts request fresh empty .initial _
        · intro purpose pl isDialing
          simp only at isDialing
          split at isDialing <;> cases isDialing
      · exact ⟨base.starts, by simp [retireLink], by simp, base.past⟩
  · rename_i noLink
    exact ⟨base.starts, by simp [noLink], by simp, base.past⟩

/-- A new request: the link is sent it, or kept only if it has finished. -/
theorem Inv.onRequest (inv : Inv roles s) (agrees : env.agrees roles) (r : BlocksRequest) :
    Inv roles (s.onRequest roles r env) := by
  have starts : (s.c.newRequest r).1.startsAtRequest := by
    intro r' isRequest _
    cases isRequest
    rfl
  have placed : Base roles
      { s with
        c := (s.c.newRequest r).1
        link := s.link.map fun link => { link with st := { link.st with resumeFloor := none } }
        held := false } := by
    refine ⟨starts, ?_, ?_, inv.past⟩
    · intro l isLink
      obtain ⟨old, isOld, rfl⟩ := Option.map_eq_some_iff.mp isLink
      exact (inv.link old isOld).role
    · intro l isLink _ _
      obtain ⟨old, isOld, rfl⟩ := Option.map_eq_some_iff.mp isLink
      rfl
  simp only [Stitched.onRequest]
  split
  · rename_i empty
    simp only [requestIsEmpty, Bool.and_eq_true, decide_eq_true_eq] at empty
    exact placed.onEmptyRequest rfl rfl empty.1 env.view s.c.credit
  · exact placed.applyStep (fun pl served => PlanEnv.plan_fits agrees served) env.view .initial _

theorem Inv.onLinkEnd (inv : Inv roles s) (reason : UpEnd) (closes : Bool) :
    Inv roles (s.onLinkEnd reason closes) := by
  simp only [Stitched.onLinkEnd]
  split
  · exact inv
  · rename_i l isLink
    split
    · refine ⟨inv.starts, by simp [retireLink], ?_, inv.past⟩
      intro purpose pl isDialing
      simp only at isDialing
      split at isDialing
      · cases isDialing
      · have noLink := (inv.dialing purpose pl isDialing).1
        cases noLink.symm.trans isLink
    · split
      · exact inv.base.close
      · exact ⟨inv.starts, by simp [retireLink], by simp, inv.past⟩

theorem Inv.afterResult (inv : Inv roles s) (agrees : env.agrees roles) (leg : LinkReq) :
    Inv roles (s.afterResult roles leg env) := by
  simp only [Stitched.afterResult]
  split
  · refine ⟨inv.starts, inv.link, ?_, inv.past⟩
    intro purpose pl isDialing
    simp only at isDialing
    split at isDialing
    · cases isDialing
    · exact inv.dialing purpose pl isDialing
  · split
    · exact inv.base.planAgain agrees .handoff
    · exact inv

/-- An archive that has finished its request names the client's next block. -/
def overrun (s : Stitched) (l : Link) (this : Option BlockPos) : Prop :=
  l.st.role = .frozen ∧ l.st.legDone = true ∧ this.map BlockPos.num = some s.c.cursor

instance (s : Stitched) (l : Link) (this : Option BlockPos) : Decidable (s.overrun l this) :=
  inferInstanceAs (Decidable (_ ∧ _ ∧ _))

/-- A forwarded result of a frozen link is one of the leg it serves. -/
theorem Inv.serving_of_forward (inv : Inv roles s) {l : Link} (isLink : s.link = some l)
    (frozen : l.st.role = .frozen) {creq : BlocksRequest} {lr : LinkReq}
    (linkRequest : l.st.req = some lr) {h : ResultHead} {lacking : Fin (2 ^ 32) → Lacks}
    {alternative : Fin (2 ^ 32) → Bool} {fw : Forward}
    (judged : judge s.c l.st creq lr h lacking alternative = .forward fw)
    (within : ¬s.overrun l h.thisBlock) : l.Serving s.c lr ∧ fw.cls.n = some s.c.cursor := by
  have at_ := forwarded_at_cursor frozen judged
  refine ⟨?_, at_⟩
  rcases (inv.link l isLink).archive frozen with finished | ⟨lr', request', serving⟩
  · exfalso
    obtain ⟨cls, -⟩ := judge_eq_forward judged
    rw [cls] at at_
    cases this : h.thisBlock with
    | some p =>
        rw [classifyResult_some this, Option.some.injEq] at at_
        exact within ⟨frozen, finished.2, by rw [this, Option.map_some, at_]⟩
    | none =>
        obtain ⟨exact_, -, short, -⟩ := classifyResult_idless this at_
        have done := finished.2
        simp only [LinkState.legDone, linkRequest, exact_, decide_eq_true_eq] at done
        omega
  · cases linkRequest.symm.trans request'
    exact serving

/-- The session right after a forwarded result, before the next leg is
planned. -/
theorem Inv.forwarded (inv : Inv roles s) {l : Link} (isLink : s.link = some l)
    {creq : BlocksRequest} {lr : LinkReq} (request : s.c.req = some creq)
    (linkRequest : l.st.req = some lr) {h : ResultHead} {lacking : Fin (2 ^ 32) → Lacks}
    {answers : FleetAnswers} {fw : Forward}
    (judged : judge s.c l.st creq lr h lacking answers.alternative = .forward fw)
    (within : ¬s.overrun l h.thisBlock) :
    Inv roles
      { s with
        c := commitClient
          (headLibFor s.c.charge.1 l.st.role h.head h.lib answers.tip answers.patch).1 h fw
        link := some { l with st := commitLink l.st h fw }
        delivered := s.deliveredAfter l fw } := by
  have next := forward_next (judge_eq_forward judged).1
  refine ⟨?_, ?_, ?_, ?_⟩
  · intro r _ nothing
    simp at nothing
  · rintro _ ⟨⟩
    have role := (inv.link l isLink).role
    cases kind : l.st.role with
    | live =>
        refine ⟨role, fun frozen => ?_⟩
        have frozen : l.st.role = .frozen := frozen
        rw [kind] at frozen
        cases frozen
    | frozen =>
        obtain ⟨serving, at_⟩ := inv.serving_of_forward isLink kind linkRequest judged within
        refine Link.Ok.forwarded role serving linkRequest at_ next ?_ ?_
        · rw [commitClient_req]
          rfl
        · rw [commitClient_cursor, next, at_]
          rfl
  · intro purpose pl isDialing
    have noLink := (inv.dialing purpose pl isDialing).1
    cases noLink.symm.trans isLink
  · intro d member
    cases kind : l.st.role with
    | live => exact inv.past d (by simpa [deliveredAfter, kind] using member)
    | frozen =>
        obtain ⟨serving, at_⟩ := inv.serving_of_forward isLink kind linkRequest judged within
        simp only [deliveredAfter, kind, linkRequest, request, List.mem_append,
          List.mem_singleton] at member
        rcases member with old | rfl
        · exact inv.past d old
        · rw [at_]
          exact serving.within linkRequest request

theorem Inv.onFrame (inv : Inv roles s) (agrees : env.agrees roles) {bytes : List UInt8}
    (within : ∀ l ∈ s.link, ¬s.overrun l (classifyUpstream bytes).thisBlock)
    (answers : FleetAnswers) (closes : Bool) :
    Inv roles (s.onFrame roles bytes answers env closes) := by
  simp only [Stitched.onFrame]
  split
  · rename_i l h isLink classified
    split
    · rename_i c st fw handled
      obtain ⟨creq, lr, request, linkRequest, judged, rfl, rfl⟩ :=
        onBlockResult_forwarded handled
      have after := inv.forwarded isLink request linkRequest judged
        (by simpa [classified, UpstreamMsg.thisBlock] using within l isLink)
      simp only [linkRequest]
      exact after.afterResult agrees lr
    · rename_i st handled
      obtain ⟨_, _, n, _, _, _, below, window, _, rfl⟩ := onBlockResult_dropped handled
      refine ⟨inv.starts, ?_, ?_, inv.past⟩
      · rintro _ ⟨⟩
        exact (inv.link l isLink).dropped below window
      · intro purpose pl isDialing
        have noLink := (inv.dialing purpose pl isDialing).1
        cases noLink.symm.trans isLink
    · exact inv.onLinkEnd _ closes
    · exact inv
  · split
    · exact inv.onLinkEnd _ closes
    · exact inv
  · exact inv

theorem Base.adoptLink (base : Base roles s) (links : ∀ l, s.link = some l → l.Ok roles s.c)
    (agrees : env.agrees roles) {up : Nat} {step : Option PlannedLeg}
    (fits : ∀ pl, step = some pl → pl.Fits roles s.c ∧ pl.leg.up = up) (purpose : Purpose)
    (abiExcluded : Bool) : Inv roles (s.adoptLink roles up step env purpose abiExcluded) := by
  simp only [Stitched.adoptLink]
  split
  · simp only [Stitched.replan]
    split
    · exact base.planAgain agrees purpose
    · exact ⟨base.starts, links, by simp, base.past⟩
  · have ready : Base roles { s with link := some (connected roles up) } := by
      refine ⟨base.starts, ?_, ?_, base.past⟩
      · rintro _ ⟨⟩
        rfl
      · rintro _ ⟨⟩ _ _
        rfl
    split
    · rename_i pl _
      exact ready.sendRequest rfl (fits pl rfl).1 (fits pl rfl).2.symm env.view purpose
    · refine ⟨base.starts, ?_, by simp, base.past⟩
      rintro _ ⟨⟩
      exact .connected roles _ up

theorem Inv.onDialed (inv : Inv roles s) (agrees : env.agrees roles) (abiExcluded : Bool) :
    Inv roles (s.onDialed roles env abiExcluded) := by
  have base : Base roles { s with dial := none } :=
    ⟨inv.starts, inv.base.role, inv.base.floor, inv.past⟩
  simp only [Stitched.onDialed]
  split
  · exact inv
  · rename_i up dialed
    have planned (pl : PlannedLeg) (isStep : s.phase.dialStep = some pl) :
        pl.Fits roles s.c ∧ pl.leg.up = up := by
      obtain ⟨purpose, isDialing⟩ : ∃ purpose, s.phase = .dialing purpose (some pl) := by
        cases phase : s.phase <;> simp_all [Phase.dialStep]
      obtain ⟨-, dial, fits⟩ := inv.dialing purpose pl isDialing
      exact ⟨fits, Option.some.inj (dial.symm.trans dialed)⟩
    split
    · rename_i pl _ isStep _
      split
      · rename_i current found
        obtain ⟨fits, same⟩ := PlanEnv.dialedLeg_fits agrees found
        refine base.adoptLink inv.link agrees ?_ _ abiExcluded
        rintro _ ⟨⟩
        exact ⟨fits, same.trans (planned pl isStep).2⟩
      · exact base.planAgain agrees _
    · split
      · rename_i pl served
        exact base.serve (PlanEnv.plan_fits agrees served) _ _ _
      · exact base.adoptLink inv.link agrees planned _ abiExcluded
    · exact base.adoptLink inv.link agrees planned _ abiExcluded

theorem Inv.onDialFailed (inv : Inv roles s) (agrees : env.agrees roles) (retry busy : Bool) :
    Inv roles (s.onDialFailed roles env retry busy) := by
  have base : Base roles { s with dial := none } :=
    ⟨inv.starts, inv.base.role, inv.base.floor, inv.past⟩
  simp only [Stitched.onDialFailed]
  split
  · exact inv
  · split
    · exact base.planAgain agrees _
    · exact base.applyStep (by simp) _ _ _

theorem Inv.keepDial (inv : Inv roles s) (agrees : env.agrees roles) {purpose : Purpose}
    (isDialing : s.phase = .dialing purpose (some pl)) {current : PlannedLeg}
    (found : env.dialedLeg s.c pl.leg.up = some current) :
    Inv roles (s.keepDial roles env purpose current) := by
  simp only [Stitched.keepDial]
  split
  · rename_i other served
    exact inv.base.serve (PlanEnv.onlineInsteadOf_fits agrees served) _ _ _
  · obtain ⟨noLink, dial, -⟩ := inv.dialing purpose pl isDialing
    obtain ⟨fits, same⟩ := PlanEnv.dialedLeg_fits agrees found
    refine ⟨inv.starts, inv.link, ?_, inv.past⟩
    intro _ _ isDialing'
    cases isDialing'
    exact ⟨noLink, by rw [same, dial], fits⟩

theorem Inv.onViewChange (inv : Inv roles s) (agrees : env.agrees roles) :
    Inv roles (s.onViewChange roles env) := by
  simp only [Stitched.onViewChange]
  split
  · exact inv.replan agrees _
  · split
    · exact inv
    · exact inv.base.applyStep (fun pl served => PlanEnv.plan_fits agrees served) _ _ _
  · rename_i purpose pl isDialing
    split
    · exact inv
    · split
      · rename_i current found
        exact inv.keepDial agrees isDialing found
      · split
        · split
          · exact inv
          · exact inv.base.applyStep (by simp) _ _ _
        · exact inv.base.applyStep (fun pl served => PlanEnv.plan_fits agrees served) _ _ _
  · exact inv

theorem Base.serveOrClose (base : Base roles s) (agrees : env.agrees roles)
    (purpose : Purpose) : Inv roles (s.serveOrClose roles env purpose) := by
  simp only [Stitched.serveOrClose]
  split
  · rename_i pl served
    exact base.serve (PlanEnv.plan_fits agrees served) _ _ _
  · exact base.close

theorem Inv.onHoldExpired (inv : Inv roles s) (agrees : env.agrees roles) (lastTry : Bool) :
    Inv roles (s.onHoldExpired roles env lastTry) := by
  simp only [Stitched.onHoldExpired]
  split
  · exact inv.base.close
  · split
    · exact inv.base.serveOrClose agrees _
    · rename_i purpose pl isDialing
      split
      · rename_i current found
        exact inv.keepDial agrees isDialing found
      · exact inv.base.serveOrClose agrees _
    · exact inv.base.serveOrClose agrees _
    · exact inv.base.close

/-! ## Runs of a session -/

/-- The views of an event show the configured roles. -/
def Event.agrees (roles : Nat → Role) : Event → Prop
  | .request _ env | .frame _ _ env _ | .backoffExpired env | .viewChange env
  | .retryHold env | .holdExpired env _ | .dialed env _ | .dialFailed env _ _ => env.agrees roles
  | _ => True

/-- No archive sends the client's next block on a link whose request is
finished. -/
def Event.keepsToLeg (s : Stitched) : Event → Prop
  | .frame bytes _ _ _ => ∀ l ∈ s.link, ¬s.overrun l (classifyUpstream bytes).thisBlock
  | _ => True

instance (roles : Nat → Role) (env : PlanEnv) : Decidable (env.agrees roles) :=
  inferInstanceAs (Decidable (∀ p ∈ env.plannings, ∀ u ∈ p.view.upstreams, _))

instance (roles : Nat → Role) : ∀ e : Event, Decidable (e.agrees roles)
  | .request _ env | .frame _ _ env _ | .backoffExpired env | .viewChange env
  | .retryHold env | .holdExpired env _ | .dialed env _ | .dialFailed env _ _ =>
      inferInstanceAs (Decidable (env.agrees roles))
  | .ack _ | .marks _ _ | .linkEnd _ _ | .predial _ | .standbyUp | .standbyGone
  | .lingerExpired => inferInstanceAs (Decidable True)

instance (s : Stitched) : ∀ e : Event, Decidable (e.keepsToLeg s)
  | .frame bytes _ _ _ =>
      inferInstanceAs (Decidable
        (∀ l ∈ s.link, ¬s.overrun l (classifyUpstream bytes).thisBlock))
  | .request _ _ | .backoffExpired _ | .viewChange _ | .retryHold _ | .holdExpired _ _
  | .dialed _ _ | .dialFailed _ _ _ | .ack _ | .marks _ _ | .linkEnd _ _ | .predial _
  | .standbyUp | .standbyGone | .lingerExpired => inferInstanceAs (Decidable True)

theorem Inv.step (inv : Inv roles s) {e : Event} {s' : Stitched} (agrees : e.agrees roles)
    (keeps : e.keepsToLeg s) (stepped : s.step roles e = some s') : Inv roles s' := by
  cases e with
  | request r env =>
      cases stepped
      exact inv.onRequest agrees r
  | ack | marks =>
      cases stepped
      exact inv.client rfl rfl rfl
  | frame bytes answers env closes =>
      cases stepped
      exact inv.onFrame agrees keeps answers closes
  | linkEnd reason closes =>
      cases stepped
      exact inv.onLinkEnd reason closes
  | backoffExpired env =>
      simp only [Stitched.step] at stepped
      split at stepped
      · cases stepped
        exact inv.replan agrees _
      · cases stepped
  | viewChange env =>
      cases stepped
      exact inv.onViewChange agrees
  | retryHold env =>
      simp only [Stitched.step] at stepped
      split at stepped
      · cases stepped
        exact inv.base.planAgain agrees _
      · cases stepped
        exact inv.replan agrees _
      · cases stepped
  | holdExpired env lastTry =>
      simp only [Stitched.step] at stepped
      split at stepped
      · cases stepped
        exact inv.onHoldExpired agrees lastTry
      · cases stepped
  | dialed env abiExcluded =>
      cases stepped
      exact inv.onDialed agrees abiExcluded
  | dialFailed env retry busy =>
      cases stepped
      exact inv.onDialFailed agrees retry busy
  | predial up =>
      simp only [Stitched.step] at stepped
      split at stepped
      · cases stepped
        exact ⟨inv.starts, inv.link, inv.dialing, inv.past⟩
      · cases stepped
  | standbyUp | standbyGone =>
      cases stepped
      exact ⟨inv.starts, inv.link, inv.dialing, inv.past⟩
  | lingerExpired =>
      simp only [Stitched.step] at stepped
      split at stepped
      · cases stepped
      · cases stepped
        exact ⟨inv.starts, by simp [retireLink],
          fun purpose pl isDialing => ⟨rfl, (inv.dialing purpose pl isDialing).2⟩, inv.past⟩

theorem inv_of_reachable
    (reachable : Reachable (machine roles) (fun s e => e.agrees roles ∧ e.keepsToLeg s) s) :
    Inv roles s := by
  refine reachable.invariant (P := Inv roles) ?_ ?_
  · rintro _ rfl
    exact ⟨by simp [ClientSide.startsAtRequest, fresh, ClientSide.default], by simp [fresh],
      by simp [fresh], by simp [fresh]⟩
  · intro s e s' _ inv isAllowed stepped
    simp only [machine] at stepped
    split at stepped
    · cases stepped
    · exact inv.step isAllowed.1 isAllowed.2 stepped

/-- In every run in which no archive sends the client's next block on a link
whose request is finished, each result that reaches the client from an archive
stands for a block below the end of the request last sent on that link, below
the client's own end and the archive's highest log end, and not above the gate
the leg was clamped to; and that request was not finished. -/
theorem archive_results_within_leg
    (reachable : Reachable (machine roles) (fun s e => e.agrees roles ∧ e.keepsToLeg s) s) :
    ∀ d ∈ s.delivered, d.Within :=
  (inv_of_reachable reachable).past

/-- A fleet of one archive with blocks 101 and 102. -/
def archiveFleet : FleetView :=
  let coverage : LogCoverage :=
    { LogCoverage.empty with components := [⟨101, 103⟩], top := ⟨101, 103⟩ }
  { FleetView.empty .stitched none with
    trace := coverage, chainState := coverage, ids := coverage
    upstreams :=
      [{ sampleArchive 101 with trace := ⟨101, 103⟩, chainState := ⟨101, 103⟩ }]
    ids_has := fun _ covered => .inl covered }

/-- Planning on that fleet while the fleet head is block 130. -/
def archivePlan : PlanEnv :=
  let p : Planning :=
    { view := archiveFleet, tip := (some (samplePos 130), some (samplePos 120))
      ex := { soft := none, hard := [] }, own := [], sid := 7, historyPreference := .frozen
      lag := 0, allowOffline := false, now := 0 }
  { first := p, withoutMove := none, withoutRetired := none, withoutLeft := p, busy := false }

/-- The archive's result for block `n`. -/
def archiveFrame (n : Fin (2 ^ 32)) : Event :=
  .frame (putResultHead (archiveResult (some (samplePos n)) none) ++ [0, 0, 0]) quietFleet
    archivePlan false

/-- The archive serves blocks 101 and 102; the session then waits for the fleet,
and keeps the finished link. -/
def archiveRun : List Event :=
  [.request streamRequest archivePlan, .dialed archivePlan false, archiveFrame 101,
    archiveFrame 102]

/-- On the finished link the archive sends block 103, which it was not asked for:
the client gets it. -/
theorem archive_overruns_leg :
    ∃ s, Reachable (machine fun _ => .frozen) (fun _ e => e.agrees fun _ => .frozen) s ∧
      ∃ d ∈ s.delivered, d.block = some 103 ∧ d.request.end = 103 ∧ d.finished = true :=
  exists_reachable_of_run (archiveRun ++ [archiveFrame 103]) rfl (by decide +kernel)

theorem archive_results_within_leg_sample :
    ∃ s, Reachable (machine fun _ => .frozen)
        (fun s e => (e.agrees fun _ => .frozen) ∧ e.keepsToLeg s) s ∧
      s.delivered.map ArchiveDelivery.block = [some 101, some 102] ∧
      ∀ d ∈ s.delivered, d.Within := by
  obtain ⟨s, reachable, blocks⟩ : ∃ s, Reachable (machine fun _ => .frozen)
      (fun s e => (e.agrees fun _ => .frozen) ∧ e.keepsToLeg s) s ∧
      s.delivered.map ArchiveDelivery.block = [some 101, some 102] :=
    exists_reachable_of_run archiveRun rfl (by decide +kernel)
  exact ⟨s, reachable, blocks, archive_results_within_leg reachable⟩

end Stitched

end FleetRouter.Session
