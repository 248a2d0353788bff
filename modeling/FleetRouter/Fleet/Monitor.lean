import FleetRouter.Lib.Transition
import FleetRouter.Ship.Zcd
import FleetRouter.Fleet.Build

/-!
# The monitor of the upstreams

Status frames and outages update the state map of a listener.  A pool without a
configured chain id compares a reported one with that of some other upstream that is
online, whichever the map happens to list first; all upstreams that are online still
report one chain.
-/

namespace FleetRouter.Fleet

open Ship Session Transition

/-- Warnings that are logged once. -/
structure MonitorWarnings where
  frozenAdvanced : Bool
  rangeMismatch : Bool
  deriving DecidableEq, Repr

/-- What the monitor keeps of an upstream besides what a view is built from. -/
structure Monitored extends ServerState where
  expectedChainId : Option Checksum
  requireChainId : Bool
  chainIdUnverifiedWarned : Bool
  statusAt : Option Nat
  statusHeadReference : Option (Fin (2 ^ 32))
  headLagBlocks : Option Nat
  offlineSince : Option Nat
  warned : MonitorWarnings
  deriving DecidableEq, Repr

namespace Monitored

/-- Records that the upstream is lost; its ranges, head and LIB are kept. -/
def markOffline (s : Monitored) (now : Nat) : Monitored :=
  { s with
    statusHeadReference := none
    headLagBlocks := none
    online := false
    chainId := none
    offlineSince := s.offlineSince.or (some now) }

/-- One past the highest block of any reported log. -/
def reportedEnd (s : Monitored) : Fin (2 ^ 32) :=
  max (max s.traceEndBlock s.chainStateEndBlock) s.finalityDataEndBlock

/-- Whether the reported ranges differ from the declared one beyond the shapes real logs
have. -/
def rangeMismatch (s : Monitored) : Bool :=
  match s.declared with
  | some declared =>
      let trace : Range := ⟨s.traceBeginBlock, s.traceEndBlock⟩
      let chainState : Range := ⟨s.chainStateBeginBlock, s.chainStateEndBlock⟩
      let fits (r : Range) : Bool :=
        (r.begin = declared.begin || (declared.begin = 1 && r.begin = 2)) &&
          (r.end = declared.end || r.end.val + 1 = declared.end.val) && !Range.isEmpty r
      s.rangesKnown &&
        !(fits trace && fits chainState && max trace.end chainState.end = declared.end)
  | none => false

/-- One-time hints about a frozen upstream. -/
def warnRoleHints (s : Monitored) (previousEnd : Option (Fin (2 ^ 32))) : Monitored :=
  if s.role ≠ .frozen then s
  else
    let frozenAdvanced :=
      s.warned.frozenAdvanced || previousEnd.any fun previous => previous < s.reportedEnd
    { s with warned := { frozenAdvanced, rangeMismatch := s.rangeMismatch } }

/-- An accepted status. -/
def accept (s : Monitored) (variant : UInt8) (r : StatusReport) (now : Nat) : Monitored :=
  let finality := r.finality.getD ⟨0, 0⟩
  let reported := (r.trace, r.chainState, finality, some r.head, some r.lib)
  let stored : Range × Range × Range × Option BlockPos × Option BlockPos :=
    (⟨s.traceBeginBlock, s.traceEndBlock⟩, ⟨s.chainStateBeginBlock, s.chainStateEndBlock⟩,
      ⟨s.finalityDataBeginBlock, s.finalityDataEndBlock⟩, s.head, s.lib)
  let previousEnd := if s.rangesKnown then some s.reportedEnd else none
  let headLagBlocks :=
    if s.role = .live then some ((s.statusHeadReference.getD r.head.num).val - r.head.num.val)
    else none
  let updated : Monitored :=
    { s with
      chainId := r.chainId.or s.chainId
      noBlockLog := s.noBlockLog && !(!s.online || reported ≠ stored)
      enabled := true
      online := true
      traceBeginBlock := r.trace.begin
      traceEndBlock := r.trace.end
      chainStateBeginBlock := r.chainState.begin
      chainStateEndBlock := r.chainState.end
      finalityDataBeginBlock := finality.begin
      finalityDataEndBlock := finality.end
      head := some r.head
      lib := some r.lib
      rangesKnown := true
      statusAt := some now
      headLagBlocks
      statusV1 := some (variant = 3)
      offlineSince := none }
  updated.warnRoleHints previousEnd

/-- A status with a head above 0.  A chain id other than the configured one, or than that
of a peer when none is configured, takes the upstream offline; so does none at all when
one is required. -/
def applyReport (s : Monitored) (peer : Option Checksum) (variant : UInt8) (r : StatusReport)
    (now : Nat) : Monitored :=
  match r.chainId with
  | some actual =>
      let s := { s with chainIdUnverifiedWarned := false }
      match s.expectedChainId with
      | some expected => if actual ≠ expected then s.markOffline now else s.accept variant r now
      | none =>
          match peer with
          | some pool => if actual ≠ pool then s.markOffline now else s.accept variant r now
          | none => s.accept variant r now
  | none =>
      if s.expectedChainId.isSome && s.requireChainId then s.markOffline now
      else { s with chainIdUnverifiedWarned := true }.accept variant r now

end Monitored

/-! ## The state map -/

/-- The upstreams of a listener by endpoint. -/
structure StateDb where
  entries : List (String × Monitored)
  nodup : (entries.map Prod.fst).Nodup

/-- A configured server. -/
structure Server where
  endpoint : String
  enabled : Bool
  hasShipEndpoint : Bool
  role : Role
  range : Option Range
  maxSessions : Option Nat
  priority : Nat
  weight : Nat

/-- The state of an upstream nothing is known of. -/
def Server.fresh (server : Server) (index : Nat) (expectedChainId : Option Checksum)
    (requireChainId : Bool) : Monitored where
  index := index
  role := server.role
  enabled := true
  operatorDisabled := false
  online := false
  stale := false
  priority := server.priority
  weight := max server.weight 1
  chainId := none
  traceBeginBlock := 0
  traceEndBlock := 0
  chainStateBeginBlock := 0
  chainStateEndBlock := 0
  finalityDataBeginBlock := 0
  finalityDataEndBlock := 0
  quarantines := []
  declared := server.range
  maxSessions := server.maxSessions
  connections := 0
  head := none
  lib := none
  rangesKnown := false
  statusV1 := none
  abi := none
  noBlockLog := false
  expectedChainId := expectedChainId
  requireChainId := requireChainId
  chainIdUnverifiedWarned := false
  statusAt := none
  statusHeadReference := none
  headLagBlocks := none
  offlineSince := none
  warned := ⟨false, false⟩

/-- The last sample of an upstream under a new configuration. -/
def Monitored.inherit (configured sample : Monitored) : Monitored :=
  { sample with
    index := configured.index
    role := configured.role
    declared := configured.declared
    maxSessions := configured.maxSessions
    priority := configured.priority
    weight := configured.weight }

/-- Collecting into a map keeps the last value of a key. -/
def collect {α : Type} : List (String × α) → List (String × α)
  | [] => []
  | entry :: rest =>
      if rest.any fun later => later.1 = entry.1 then collect rest else entry :: collect rest

theorem collect_sublist {α : Type} (entries : List (String × α)) :
    (collect entries).Sublist entries := by
  induction entries with
  | nil => exact .refl _
  | cons entry rest ih =>
      rw [collect]
      split
      · exact ih.cons _
      · exact ih.cons_cons _

theorem collect_nodup {α : Type} (entries : List (String × α)) :
    ((collect entries).map Prod.fst).Nodup := by
  induction entries with
  | nil => exact List.nodup_nil
  | cons entry rest ih =>
      rw [collect]
      split
      · exact ih
      · rename_i last
        rw [List.map_cons, List.nodup_cons]
        refine ⟨?_, ih⟩
        intro member
        obtain ⟨later, isLater, same⟩ := List.mem_map.mp member
        exact last (List.any_eq_true.mpr ⟨later, (collect_sublist rest).subset isLater, by simpa⟩)

namespace StateDb

def build (servers : List Server) (expectedChainId : Option Checksum) (requireChainId : Bool) :
    StateDb :=
  let kept := servers.filter fun s => s.enabled && s.hasShipEndpoint
  ⟨collect (kept.zipIdx.map fun (s, index) =>
      (s.endpoint, s.fresh index expectedChainId requireChainId)), collect_nodup _⟩

def get (db : StateDb) (endpoint : String) : Option Monitored :=
  (db.entries.find? fun e => e.1 = endpoint).map Prod.snd

/-- What a new generation of the listener takes over of the upstreams it shares with another. -/
def inheritObservations (db previous : StateDb) : StateDb where
  entries := db.entries.map fun e => (e.1, (previous.get e.1).elim e.2 e.2.inherit)
  nodup := by
    rw [List.map_map]
    exact db.nodup

/-- Updates the upstream of an endpoint, if there is one. -/
def modify (db : StateDb) (endpoint : String) (f : Monitored → Monitored) : StateDb where
  entries := db.entries.map fun e => if e.1 = endpoint then (e.1, f e.2) else e
  nodup := by
    have keys : (db.entries.map fun e => if e.1 = endpoint then (e.1, f e.2) else e).map Prod.fst =
        db.entries.map Prod.fst := by
      rw [List.map_map]
      apply List.map_congr_left
      intro e _
      simp only [Function.comp_apply]
      split <;> rfl
    rw [keys]
    exact db.nodup

/-- The chain id of the first other upstream that is online and reported one, in the
order the map is walked. -/
def peerChainId (iteration : List (String × Monitored)) (endpoint : String) : Option Checksum :=
  (iteration.filter fun e => e.1 ≠ endpoint && e.2.online).findSome? fun e => e.2.chainId

/-- Applies one binary frame of an upstream. -/
def applyStatusUpdate (db : StateDb) (iteration : List (String × Monitored)) (endpoint : String)
    (binMsg : List UInt8) (now : Nat) : Except ZcdError (Option UInt8) × StateDb :=
  match readStatusFrame binMsg with
  | .error err => (.error err, db)
  | .ok none => (.ok none, db)
  | .ok (some (variant, none)) => (.ok (some variant), db)
  | .ok (some (variant, some report)) =>
      (.ok (some variant), db.modify endpoint fun s =>
        s.applyReport (peerChainId iteration endpoint) variant report now)

end StateDb

/-! ## Runs of the monitor -/

inductive MonitorEvent where
  /-- A frame of an upstream, applied while the map is walked in some order. -/
  | frame (endpoint : String) (binMsg : List UInt8) (iteration : List (String × Monitored))
      (now : Nat)
  | markOffline (endpoint : String) (now : Nat)

/-- The map, and what the last decoded status with a head above 0 of each upstream said of
its chain. -/
structure Monitor where
  db : StateDb
  lastChainId : String → Option (Option Checksum)

namespace Monitor

def step (s : Monitor) : MonitorEvent → Option Monitor
  | .frame endpoint binMsg iteration now =>
      some
        { db := (s.db.applyStatusUpdate iteration endpoint binMsg now).2
          lastChainId :=
            match readStatusFrame binMsg with
            | .ok (some (_, some report)) =>
              Function.update s.lastChainId endpoint (some report.chainId)
            | _ => s.lastChainId }
  | .markOffline endpoint now =>
      some { s with db := s.db.modify endpoint fun state => state.markOffline now }

/-- A listener with these servers and this chain policy. -/
def machine (servers : List Server) (expectedChainId : Option Checksum) (requireChainId : Bool) :
    Machine Monitor MonitorEvent where
  init s := s = ⟨.build servers expectedChainId requireChainId, fun _ => none⟩
  step := step

/-- The map is walked in some order of its entries. -/
def walksMap (s : Monitor) : MonitorEvent → Prop
  | .frame _ _ iteration _ => iteration.Perm s.db.entries
  | .markOffline _ _ => True

instance (s : Monitor) (e : MonitorEvent) : Decidable (walksMap s e) :=
  match e with
  | .frame _ _ iteration _ => inferInstanceAs (Decidable (iteration.Perm s.db.entries))
  | .markOffline _ _ => .isTrue trivial

end Monitor

/-! ## What a status does to an upstream -/

namespace Monitored

variable {s : Monitored} {peer : Option Checksum} {variant : UInt8} {r : StatusReport} {now : Nat}

/-- What became of an upstream after a status: lost, or online with the chain id it
reported or had, which is the configured one or else that of its peer. -/
inductive Outcome (s : Monitored) (peer : Option Checksum) (r : StatusReport) (s' : Monitored) :
    Prop where
  | lost (offline : s'.online = false) (cleared : s'.chainId = none)
  | online (online : s'.online = true) (chainId : s'.chainId = r.chainId.or s.chainId)
      (configured : ∀ actual expected, r.chainId = some actual →
        s.expectedChainId = some expected → actual = expected)
      (agrees : ∀ actual pool, r.chainId = some actual → s.expectedChainId = none →
        peer = some pool → actual = pool)
      (given : s.expectedChainId ≠ none → s.requireChainId = true → r.chainId ≠ none)

@[simp] theorem warnRoleHints_toServerState (s : Monitored) (previousEnd : Option (Fin (2 ^ 32))) :
    (s.warnRoleHints previousEnd).toServerState = s.toServerState := by
  unfold warnRoleHints
  split <;> rfl

/-- A status is refused, or accepted when its chain id passes the checks. -/
theorem applyReport_cases {P : Monitored → Prop}
    (lost : ∀ warned, P ({ s with chainIdUnverifiedWarned := warned }.markOffline now))
    (accepted : ∀ warned,
      (∀ actual expected, r.chainId = some actual → s.expectedChainId = some expected →
        actual = expected) →
      (∀ actual pool, r.chainId = some actual → s.expectedChainId = none → peer = some pool →
        actual = pool) →
      (s.expectedChainId ≠ none → s.requireChainId = true → r.chainId ≠ none) →
      P ({ s with chainIdUnverifiedWarned := warned }.accept variant r now)) :
    P (s.applyReport peer variant r now) := by
  unfold applyReport
  split
  · simp only
    split
    · split
      · exact lost _
      · apply accepted <;> simp_all
    · split
      · split
        · exact lost _
        · apply accepted <;> simp_all
      · apply accepted <;> simp_all
  · split
    · exact lost _
    · apply accepted <;> simp_all [Option.isSome_iff_ne_none]

theorem index_applyReport (s : Monitored) (peer : Option Checksum) (variant : UInt8)
    (r : StatusReport) (now : Nat) : (s.applyReport peer variant r now).index = s.index := by
  apply applyReport_cases (P := fun s' => s'.index = s.index)
  · exact fun warned => rfl
  · intro warned _ _ _
    simp [accept]

theorem applyReport_outcome (s : Monitored) (peer : Option Checksum) (variant : UInt8)
    (r : StatusReport) (now : Nat) : Outcome s peer r (s.applyReport peer variant r now) := by
  apply applyReport_cases
  · intro warned
    exact .lost rfl rfl
  · intro warned configured agrees given
    refine .online ?_ ?_ configured agrees given <;> simp [accept]

/-- The chain policy of an upstream is never changed. -/
theorem applyReport_policy (s : Monitored) (peer : Option Checksum) (variant : UInt8)
    (r : StatusReport) (now : Nat) :
    (s.applyReport peer variant r now).expectedChainId = s.expectedChainId ∧
      (s.applyReport peer variant r now).requireChainId = s.requireChainId := by
  apply applyReport_cases (P := fun s' =>
    s'.expectedChainId = s.expectedChainId ∧ s'.requireChainId = s.requireChainId)
  · intro warned
    exact ⟨rfl, rfl⟩
  · intro warned _ _ _
    simp only [accept, warnRoleHints]
    split <;> exact ⟨rfl, rfl⟩

/-- An upstream with a chain id is online; it had that id, or reported it and passed the
checks. -/
theorem Outcome.of_stored {s' : Monitored} {id : Checksum} (outcome : Outcome s peer r s')
    (stored : s'.chainId = some id) :
    s'.online = true ∧ (s.chainId = some id ∨
      (∀ expected, s.expectedChainId = some expected → id = expected) ∧
        ∀ pool, s.expectedChainId = none → peer = some pool → id = pool) := by
  cases outcome with
  | lost _ cleared =>
      rw [cleared] at stored
      cases stored
  | online online chainId configured agrees _ =>
      constructor
      · exact online
      · rw [chainId] at stored
        cases reported : r.chainId with
        | none =>
            rw [reported, Option.none_or] at stored
            exact .inl stored
        | some actual =>
            rw [reported, Option.some_or, Option.some.injEq] at stored
            subst stored
            exact .inr ⟨fun _ => configured _ _ reported, fun _ => agrees _ _ reported⟩

end Monitored

/-! ## One chain online -/

section OneChain

variable {db : StateDb} {endpoint : String} {f : Monitored → Monitored} {e : String × Monitored}

theorem StateDb.mem_modify :
    e ∈ (db.modify endpoint f).entries ↔
      (e.1 ≠ endpoint ∧ e ∈ db.entries) ∨
        (e.1 = endpoint ∧ ∃ s, (endpoint, s) ∈ db.entries ∧ e.2 = f s) := by
  simp only [modify, List.mem_map]
  constructor
  · rintro ⟨old, member, rfl⟩
    split
    · rename_i same
      exact .inr ⟨same, old.2, same ▸ member, rfl⟩
    · rename_i other
      exact .inl ⟨other, member⟩
  · rintro (⟨other, member⟩ | ⟨same, s, member, isUpdated⟩)
    · exact ⟨e, member, if_neg other⟩
    · refine ⟨(endpoint, s), member, ?_⟩
      rw [if_pos rfl, ← same, ← isUpdated]

theorem StateDb.map_modify {β : Type} {g : String × Monitored → β}
    (keeps : ∀ e, g (e.1, f e.2) = g e) :
    (db.modify endpoint f).entries.map g = db.entries.map g := by
  rw [StateDb.modify, List.map_map]
  apply List.map_congr_left
  intro e _
  simp only [Function.comp_apply]
  split
  · exact keeps e
  · rfl

/-- There is one upstream for an endpoint. -/
theorem StateDb.unique {s t : Monitored} (first : (endpoint, s) ∈ db.entries)
    (second : (endpoint, t) ∈ db.entries) : s = t := by
  have same := List.inj_on_of_nodup_map db.nodup first second rfl
  exact (Prod.mk.injEq .. ▸ same).2

/-- A peer that is online with a chain id is found, if not this one then another. -/
theorem StateDb.exists_peerChainId {iteration : List (String × Monitored)} {id : Checksum}
    (walked : iteration.Perm db.entries) (member : e ∈ db.entries) (other : e.1 ≠ endpoint)
    (online : e.2.online = true) (reported : e.2.chainId = some id) :
    ∃ peer ∈ db.entries, ∃ pool, peer.2.chainId = some pool ∧
      peerChainId iteration endpoint = some pool := by
  have isCandidate : e ∈ iteration.filter fun e => e.1 ≠ endpoint && e.2.online :=
    List.mem_filter.mpr ⟨walked.mem_iff.mpr member, by simp [other, online]⟩
  have found : (peerChainId iteration endpoint).isSome := by
    rw [peerChainId, List.findSome?_isSome_iff]
    exact ⟨e, isCandidate, by simp [reported]⟩
  obtain ⟨pool, isPool⟩ := Option.isSome_iff_exists.mp found
  obtain ⟨peer, isPeer, reported⟩ := List.exists_of_findSome?_eq_some isPool
  exact ⟨peer, walked.mem_iff.mp (List.mem_filter.mp isPeer).1, pool, reported, isPool⟩

/-- What the state map keeps while frames and outages come. -/
structure Monitor.Sound (expectedChainId : Option Checksum) (requireChainId : Bool)
    (s : Monitor) : Prop where
  policy : ∀ e ∈ s.db.entries,
    e.2.expectedChainId = expectedChainId ∧ e.2.requireChainId = requireChainId
  online : ∀ e ∈ s.db.entries, ∀ id, e.2.chainId = some id → e.2.online = true
  agree : expectedChainId = none → ∀ e ∈ s.db.entries, ∀ e' ∈ s.db.entries, ∀ id id',
    e.2.chainId = some id → e'.2.chainId = some id' → id = id'
  pinned : ∀ expected, expectedChainId = some expected → ∀ e ∈ s.db.entries, ∀ id,
    e.2.chainId = some id → id = expected
  given : expectedChainId ≠ none → requireChainId = true → ∀ e ∈ s.db.entries,
    s.lastChainId e.1 = some none → e.2.online = false

namespace Monitor

variable {expectedChainId : Option Checksum} {requireChainId : Bool} {s : Monitor}

/-- The monitor never renumbers an upstream. -/
theorem map_step {s' : Monitor} {e : MonitorEvent} {β : Type} {g : String × Monitored → β}
    (step : s.step e = some s')
    (keeps : ∀ endpoint (state state' : Monitored), state'.index = state.index →
      g (endpoint, state') = g (endpoint, state)) :
    s'.db.entries.map g = s.db.entries.map g := by
  cases e with
  | markOffline endpoint now =>
      cases step
      exact StateDb.map_modify fun e => keeps e.1 e.2 _ rfl
  | frame endpoint binMsg iteration now =>
      cases step
      simp only [StateDb.applyStatusUpdate]
      split
      · rfl
      · rfl
      · rfl
      · exact StateDb.map_modify fun e => keeps e.1 e.2 _ (e.2.index_applyReport ..)

theorem Sound.start (servers : List Server) (expectedChainId : Option Checksum)
    (requireChainId : Bool) :
    Sound expectedChainId requireChainId
      ⟨.build servers expectedChainId requireChainId, fun _ => none⟩ := by
  have fresh (e : String × Monitored)
      (member : e ∈ (StateDb.build servers expectedChainId requireChainId).entries) :
      ∃ server : Server, ∃ index, e.2 = server.fresh index expectedChainId requireChainId := by
    obtain ⟨⟨server, index⟩, -, rfl⟩ := List.mem_map.mp ((collect_sublist _).subset member)
    exact ⟨server, index, rfl⟩
  have noChainId (e : String × Monitored)
      (member : e ∈ (StateDb.build servers expectedChainId requireChainId).entries)
      (id : Checksum) :
      e.2.chainId ≠ some id := by
    obtain ⟨server, index, same⟩ := fresh e member
    simp [same, Server.fresh]
  constructor
  · intro e member
    obtain ⟨server, index, same⟩ := fresh e member
    rw [same]
    exact ⟨rfl, rfl⟩
  · intro e member id reported
    exact absurd reported (noChainId e member id)
  · intro _ e member e' _ id id' reported
    exact absurd reported (noChainId e member id)
  · intro expected _ e member id reported
    exact absurd reported (noChainId e member id)
  · intro _ _ e member omitted
    cases omitted

/-- An upstream that is lost takes its chain id with it. -/
theorem Sound.markOffline (sound : s.Sound expectedChainId requireChainId) (endpoint : String)
    (now : Nat) :
    Sound expectedChainId requireChainId
      { s with db := s.db.modify endpoint fun state => state.markOffline now } := by
  -- A chain id that is left belongs to another upstream.
  have kept {e : String × Monitored} {id : Checksum}
      (member : e ∈ (s.db.modify endpoint fun state => state.markOffline now).entries)
      (reported : e.2.chainId = some id) : e ∈ s.db.entries := by
    rcases StateDb.mem_modify.mp member with ⟨-, old⟩ | ⟨-, state, -, isLost⟩
    · exact old
    · rw [isLost] at reported
      cases reported
  constructor
  · intro e member
    rcases StateDb.mem_modify.mp member with ⟨-, old⟩ | ⟨-, state, old, isLost⟩
    · exact sound.policy e old
    · rw [isLost]
      exact sound.policy _ old
  · intro e member id reported
    exact sound.online e (kept member reported) id reported
  · intro unpinned e member e' member' id id' reported reported'
    exact sound.agree unpinned e (kept member reported) e' (kept member' reported') id id' reported
      reported'
  · intro expected isPinned e member id reported
    exact sound.pinned expected isPinned e (kept member reported) id reported
  · intro isPinned required e member omitted
    rcases StateDb.mem_modify.mp member with ⟨-, old⟩ | ⟨-, state, -, isLost⟩
    · exact sound.given isPinned required e old omitted
    · rw [isLost]
      rfl

/-- A status leaves one chain online. -/
theorem Sound.report (sound : s.Sound expectedChainId requireChainId)
    {iteration : List (String × Monitored)} (walked : iteration.Perm s.db.entries)
    (endpoint : String) (variant : UInt8) (report : StatusReport) (now : Nat) :
    Sound expectedChainId requireChainId
      { db := s.db.modify endpoint fun state =>
          state.applyReport (StateDb.peerChainId iteration endpoint) variant report now
        lastChainId := Function.update s.lastChainId endpoint (some report.chainId) } := by
  have outcome (state : Monitored) := state.applyReport_outcome
    (StateDb.peerChainId iteration endpoint) variant report now
  -- The chain id of the updated upstream is that of every other one.
  have agrees {state : Monitored} {e : String × Monitored} {id id' : Checksum}
      (unpinned : expectedChainId = none) (old : (endpoint, state) ∈ s.db.entries)
      (reported : (state.applyReport (StateDb.peerChainId iteration endpoint) variant report
        now).chainId = some id)
      (other : e.1 ≠ endpoint) (member : e ∈ s.db.entries) (reported' : e.2.chainId = some id') :
      id = id' := by
    rcases ((outcome state).of_stored reported).2 with kept | ⟨-, agrees⟩
    · exact sound.agree unpinned _ old e member id id' kept reported'
    · obtain ⟨peer, isPeer, pool, isPool, found⟩ := StateDb.exists_peerChainId walked member
        other (sound.online e member id' reported') reported'
      rw [agrees pool ((sound.policy _ old).1.trans unpinned) found]
      exact sound.agree unpinned peer isPeer e member pool id' isPool reported'
  constructor
  case policy =>
    intro e member
    rcases StateDb.mem_modify.mp member with ⟨-, old⟩ | ⟨-, state, old, updated⟩
    · exact sound.policy e old
    · obtain ⟨expected, required⟩ := state.applyReport_policy
        (StateDb.peerChainId iteration endpoint) variant report now
      rw [updated, expected, required]
      exact sound.policy _ old
  case online =>
    intro e member id reported
    rcases StateDb.mem_modify.mp member with ⟨-, old⟩ | ⟨-, state, old, updated⟩
    · exact sound.online e old id reported
    · rw [updated] at reported ⊢
      exact ((outcome state).of_stored reported).1
  case agree =>
    intro unpinned e member e' member' id id' reported reported'
    rcases StateDb.mem_modify.mp member with ⟨other, old⟩ | ⟨-, state, old, updated⟩ <;>
      rcases StateDb.mem_modify.mp member' with ⟨other', old'⟩ | ⟨-, state', old', updated'⟩
    · exact sound.agree unpinned e old e' old' id id' reported reported'
    · rw [updated'] at reported'
      exact (agrees unpinned old' reported' other old reported).symm
    · rw [updated] at reported
      exact agrees unpinned old reported other' old' reported'
    · rw [updated, StateDb.unique old old', ← updated', reported', Option.some.injEq] at reported
      exact reported.symm
  case pinned =>
    intro expected isPinned e member id reported
    rcases StateDb.mem_modify.mp member with ⟨-, old⟩ | ⟨-, state, old, updated⟩
    · exact sound.pinned expected isPinned e old id reported
    · rw [updated] at reported
      rcases ((outcome state).of_stored reported).2 with kept | ⟨configured, -⟩
      · exact sound.pinned expected isPinned _ old id kept
      · exact configured expected ((sound.policy _ old).1.trans isPinned)
  case given =>
    intro isPinned required e member omitted
    simp only at omitted
    rcases StateDb.mem_modify.mp member with ⟨other, old⟩ | ⟨same, state, old, updated⟩
    · rw [Function.update_of_ne other] at omitted
      exact sound.given isPinned required e old omitted
    · rw [same, Function.update_self, Option.some.injEq] at omitted
      rw [updated]
      cases outcome state with
      | lost offline => exact offline
      | online _ _ _ _ given =>
          obtain ⟨expected, require⟩ := sound.policy _ old
          exact absurd omitted (given (expected ▸ isPinned) (require.trans required))

theorem Sound.step {s' : Monitor} {e : MonitorEvent}
    (sound : s.Sound expectedChainId requireChainId) (walks : walksMap s e)
    (step : s.step e = some s') : s'.Sound expectedChainId requireChainId := by
  cases e with
  | frame endpoint binMsg iteration now =>
      cases step
      unfold StateDb.applyStatusUpdate
      split <;> rename_i read <;> rw [read]
      · exact sound
      · exact sound
      · exact sound
      · exact sound.report walks ..
  | markOffline endpoint now =>
      cases step
      exact sound.markOffline endpoint now

theorem Sound.of_reachable {servers : List Server}
    (reachable : Reachable (machine servers expectedChainId requireChainId) walksMap s) :
    s.Sound expectedChainId requireChainId := by
  apply Reachable.invariant (P := Sound expectedChainId requireChainId) _ _ reachable
  · rintro s rfl
    exact Sound.start servers expectedChainId requireChainId
  · intro s e s' _ sound walks step
    exact sound.step walks step

end Monitor

/-- A pool without a configured chain id has one chain online; with one, no other is
stored, and none is left out where it is required.  A frame that does not decode changes
nothing. -/
theorem one_chain_online {servers : List Server} {expectedChainId : Option Checksum}
    {requireChainId : Bool} {s : Monitor}
    (reachable : Reachable (Monitor.machine servers expectedChainId requireChainId)
      Monitor.walksMap s) :
    (expectedChainId = none →
      (∀ e ∈ s.db.entries, e.2.chainId ≠ none → e.2.online = true) ∧
        ∀ e ∈ s.db.entries, ∀ e' ∈ s.db.entries, e.2.chainId ≠ none → e'.2.chainId ≠ none →
          e.2.chainId = e'.2.chainId) ∧
    (∀ expected, expectedChainId = some expected →
      (∀ e ∈ s.db.entries, e.2.chainId ≠ none → e.2.chainId = some expected) ∧
        (requireChainId = true → ∀ e ∈ s.db.entries, s.lastChainId e.1 = some none →
          e.2.online = false)) ∧
    ∀ iteration endpoint binMsg now err, readStatusFrame binMsg = .error err →
      s.db.applyStatusUpdate iteration endpoint binMsg now = (.error err, s.db) := by
  have sound := Monitor.Sound.of_reachable reachable
  refine ⟨?_, ?_, ?_⟩
  · intro unpinned
    constructor
    · intro e member reported
      obtain ⟨id, isId⟩ := Option.ne_none_iff_exists'.mp reported
      exact sound.online e member id isId
    · intro e member e' member' reported reported'
      obtain ⟨id, isId⟩ := Option.ne_none_iff_exists'.mp reported
      obtain ⟨id', isId'⟩ := Option.ne_none_iff_exists'.mp reported'
      rw [isId, isId', sound.agree unpinned e member e' member' id id' isId isId']
  · intro expected isPinned
    constructor
    · intro e member reported
      obtain ⟨id, isId⟩ := Option.ne_none_iff_exists'.mp reported
      rw [isId, sound.pinned expected isPinned e member id isId]
    · intro required
      exact sound.given (by simp [isPinned]) required
  · intro iteration endpoint binMsg now err undecoded
    rw [StateDb.applyStatusUpdate, undecoded]

end OneChain

/-- A live server with defaults. -/
def plainServer (endpoint : String) : Server where
  endpoint := endpoint
  enabled := true
  hasShipEndpoint := true
  role := .live
  range := none
  maxSessions := none
  priority := 0
  weight := 1

/-- A `get_status_result_v0` with head 1, this byte throughout its chain id and zeros elsewhere. -/
def statusOf (chain : UInt8) : List UInt8 :=
  0 :: 1 :: (List.replicate 87 0 ++ List.replicate 32 chain)

def zeroStatus : List UInt8 := statusOf 0

/-- What a sample run tells the monitor of an upstream: a status with this chain, or an outage. -/
def sampleEvents (s : Monitor) : List (String × Option UInt8) → List MonitorEvent
  | [] => []
  | (endpoint, told) :: rest =>
      let e : MonitorEvent :=
        match told with
        | some chain => .frame endpoint (statusOf chain) s.db.entries.reverse 1
        | none => .markOffline endpoint 1
      e :: sampleEvents ((s.step e).getD s) rest

/-- While the first upstream is out the second one moves the pool to another chain; the first is
taken back when it reports that chain. -/
theorem one_chain_online_sample :
    ∃ s, Reachable (Monitor.machine [plainServer "a", plainServer "b"] none false)
        Monitor.walksMap s ∧
      ∃ e ∈ s.db.entries, ∃ e' ∈ s.db.entries, e.1 = "a" ∧ e'.1 = "b" ∧
        e.2.online = true ∧ e'.2.online = true ∧ e.2.chainId ≠ none ∧
        e.2.chainId = e'.2.chainId := by
  have found : ∃ s, Reachable (Monitor.machine [plainServer "a", plainServer "b"] none false)
        Monitor.walksMap s ∧ ∃ e ∈ s.db.entries, ∃ e' ∈ s.db.entries, e.1 = "a" ∧ e'.1 = "b" ∧
          e.2.chainId ≠ none ∧ e'.2.chainId ≠ none :=
    exists_reachable_of_run
      (sampleEvents ⟨.build [plainServer "a", plainServer "b"] none false, fun _ => none⟩
        [("a", some 0), ("a", none), ("b", some 1), ("a", some 0), ("a", some 1)])
      rfl (by decide +kernel)
  obtain ⟨s, reachable, e, member, e', member', isFirst, isSecond, reported, reported'⟩ := found
  obtain ⟨online, agree⟩ := (one_chain_online reachable).1 rfl
  exact ⟨s, reachable, e, member, e', member', isFirst, isSecond, online e member reported,
    online e' member' reported', reported, agree e member e' member' reported reported'⟩

end FleetRouter.Fleet
