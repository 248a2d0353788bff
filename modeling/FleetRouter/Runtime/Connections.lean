import FleetRouter.Runtime.Replace

/-!
# Connections across a replacement

A connection is open only on a generation of the published table, and the engine's
lists follow that table, so that no generation with a connection is dropped.  What an
accept has counted is never less than what is open for its listener.
-/

namespace FleetRouter

open Transition Tally

/-- The table has a reference to the generation. -/
def Live.Refers (live : Live) (id : Nat) : Prop :=
  (∃ port, (port, id) ∈ targets live.bindings) ∨ id ∈ live.draining

namespace Runtime

/-! ## The invariant -/

variable {s s' : Runtime} {e : RuntimeEvent} {port : Port} {addr : SocketAddr} {id : Nat}

/-- How the engine's lists follow the published ones. -/
def Agrees (s : Runtime) : Prop :=
  match s.change with
  | .none | .closing _ _ =>
      s.engine.active = s.live.listeners ∧ s.engine.draining = s.live.draining
  | .publishing p =>
      s.engine.active = p.active ∧
        s.engine.draining =
          s.live.draining ++ s.live.listeners.filter (fun id => id ∉ p.active) ∧
        Serves s.heap p.active p.bindings ∧ ∀ id ∈ p.active, id ∉ s.live.draining
  | .reaping =>
      s.engine.active = s.live.listeners ∧ s.engine.draining.Sublist s.live.draining ∧
        ∀ id ∈ s.live.draining, id ∈ s.engine.draining ∨ ∀ port, s.held port id = 0

/-- An accept counts at least the connections that are open. -/
structure Accepting.Sound (s : Runtime) (a : Accepting) : Prop where
  leads : (s.live.bindings.lookup a.addr).bind Binding.target = some (a.port, a.generation)
  todo : a.todo.Sublist s.live.draining
  named : ∀ id ∈ a.todo, s.label id = s.label a.generation
  counted : s.total a.port (s.label a.generation) ≤ a.existing + tally (s.held a.port) a.todo

structure Inv (s : Runtime) : Prop where
  serves : Serves s.heap s.live.listeners s.live.bindings
  nodup : (s.live.listeners ++ s.live.draining).Nodup
  known : ∀ id ∈ s.live.draining, id < s.heap.length
  /-- A connection is open only on a generation of the published table. -/
  listed : ∀ port id, 0 < s.held port id → id ∈ s.live.listeners ∨ id ∈ s.live.draining
  agrees : s.Agrees
  accepts : ∀ a ∈ s.accepting, Accepting.Sound s a
  addresses : (s.accepting.map Accepting.addr).Nodup
  /-- Shutting down is not part of these runs. -/
  running : s.engine.stopping = false

theorem empty_iff (s : Runtime) (id : Nat) : s.empty id = true ↔ ∀ port, s.held port id = 0 := by
  unfold empty held
  cases s.heap[id]? with
  | none => simp
  | some g => simpa using g.empty_iff

/-- A table with the same listeners and names. -/
theorem serves_congr {heap heap' : List Generation} {listeners : List Nat}
    {bindings : List (SocketAddr × Binding)} (serves : Serves heap listeners bindings)
    (length : heap.length ≤ heap'.length)
    (label : ∀ id ∈ listeners, labelAt heap' id = labelAt heap id) :
    Serves heap' listeners bindings where
  known id member := (serves.known id member).trans_le length
  nodup := serves.nodup
  names a aMember b bMember same :=
    serves.names a aMember b bMember (by rw [← label a aMember, ← label b bMember, same])
  bound := serves.bound
  single := serves.single

theorem Inv.start : Inv .start where
  serves := ⟨by simp [Runtime.start], by simp [Runtime.start], by simp [Runtime.start],
    by simp [Runtime.start, targets], by simp [Runtime.start, targets]⟩
  nodup := by simp [Runtime.start]
  known := by simp [Runtime.start]
  listed := by simp [Runtime.start, held]
  agrees := ⟨rfl, rfl⟩
  accepts := by simp [Runtime.start]
  addresses := by simp [Runtime.start]
  running := rfl

/-- The generation an accept leads to is published. -/
theorem Inv.generation_mem (inv : s.Inv) {a : Accepting} (sound : Accepting.Sound s a) :
    a.generation ∈ s.live.listeners := by
  obtain ⟨binding, member, leads⟩ := mem_of_lookup sound.leads
  exact inv.serves.bound _ (mem_targets member leads)

theorem Inv.not_draining (inv : s.Inv) (member : id ∈ s.live.listeners) : id ∉ s.live.draining := by
  intro drains
  exact (List.nodup_append.mp inv.nodup).2.2 id member id drains rfl

/-! ## Accepting -/

/-- A step that only moves accepts. -/
theorem Inv.accepting (inv : s.Inv) {accepting : List Accepting}
    (accepts : ∀ a ∈ accepting, Accepting.Sound s a)
    (addresses : (accepting.map Accepting.addr).Nodup) : Inv { s with accepting } where
  serves := inv.serves
  nodup := inv.nodup
  known := inv.known
  listed := inv.listed
  agrees := inv.agrees
  accepts a member := { accepts a member with }
  addresses := addresses
  running := inv.running

theorem Inv.others (inv : s.Inv) (addr : SocketAddr) :
    Inv { s with accepting := s.others addr } := by
  apply inv.accepting
  · intro a member
    exact inv.accepts a (List.mem_of_mem_filter member)
  · exact List.Nodup.sublist (List.filter_sublist.map _) inv.addresses

/-- An accept goes on, or starts, where no other one has its address. -/
theorem Inv.cons (inv : s.Inv) {a : Accepting} (sound : Accepting.Sound s a)
    (alone : ∀ b ∈ s.accepting, b.addr ≠ a.addr) :
    Inv { s with accepting := a :: s.accepting } := by
  apply inv.accepting
  · rw [List.forall_mem_cons]
    exact ⟨sound, inv.accepts⟩
  · rw [List.map_cons, List.nodup_cons]
    refine ⟨fun member => ?_, inv.addresses⟩
    obtain ⟨b, isB, same⟩ := List.mem_map.mp member
    exact alone b isB same

theorem Inv.dispatch (inv : s.Inv) (step : s.dispatch addr = some s') : s'.Inv := by
  unfold Runtime.dispatch at step
  split at step
  · cases step
  · rename_i alone
    split at step
    · cases step
      exact inv
    · rename_i port generation leads
      split at step
      · cases step
        refine inv.cons ⟨leads, List.filter_sublist, ?_, ?_⟩ ?_
        · intro id member
          simpa using (List.mem_filter.mp member).2
        · dsimp only
          rw [← tally_cons]
          apply tally_le_of_counted (List.nodup_range.filter _)
          intro id member counts
          have named : s.label id = s.label generation := by
            simpa using (List.mem_filter.mp member).2
          rw [List.mem_cons, List.mem_filter]
          rcases inv.listed port id counts with listener | drains
          · obtain ⟨binding, member, leads⟩ := mem_of_lookup leads
            have published := inv.serves.bound _ (mem_targets member leads)
            exact .inl (inv.serves.names id listener generation published named)
          · exact .inr ⟨drains, by simpa using named⟩
        · simpa using alone
      · cases step
        exact inv

/-- The accept on an address. -/
theorem find_accepting {a : Accepting}
    (found : s.accepting.find? (fun a => a.addr = addr) = some a) :
    a ∈ s.accepting ∧ a.addr = addr :=
  ⟨List.mem_of_find?_eq_some found, by simpa using List.find?_some found⟩

theorem Inv.count (inv : s.Inv) (step : s.count addr = some s') : s'.Inv := by
  unfold Runtime.count at step
  split at step
  · cases step
  · rename_i a found
    obtain ⟨member, rfl⟩ := find_accepting found
    have sound := inv.accepts a member
    split at step
    · cases step
    · rename_i id todo remains
      cases step
      have counted := sound.counted
      have named := sound.named
      have sublist := sound.todo
      rw [remains] at counted named sublist
      rw [tally_cons] at counted
      refine (inv.others a.addr).cons ⟨sound.leads, (List.sublist_cons_self id todo).trans sublist,
        ?_, ?_⟩ ?_
      · intro other later
        exact named other (List.mem_cons_of_mem _ later)
      · exact counted.trans (Nat.add_assoc _ _ _).ge
      · intro b other
        simpa using (List.mem_filter.mp other).2

/-- One count changes, and what is idle stays idle. -/
theorem Inv.ofCounts (inv : s.Inv) {id value : Nat} (counts : Counts s s' port id value)
    (listed : ∀ port id, 0 < s'.held port id → id ∈ s.live.listeners ∨ id ∈ s.live.draining)
    (idle : ∀ id ∈ s.live.draining, (∀ port, s.held port id = 0) → ∀ port, s'.held port id = 0)
    (counted : ∀ a ∈ s.accepting, s'.total a.port (s.label a.generation) ≤
      a.existing + tally (s'.held a.port) a.todo) : s'.Inv := by
  obtain ⟨live, engine, accepting, change⟩ := counts.rest
  have serves {listeners : List Nat} {bindings : List (SocketAddr × Binding)}
      (serves : Serves s.heap listeners bindings) : Serves s'.heap listeners bindings :=
    serves_congr serves counts.length.ge fun id _ => congrFun counts.label id
  constructor
  · rw [live]
    exact serves inv.serves
  · rw [live]
    exact inv.nodup
  · rw [live, counts.length]
    exact inv.known
  · rw [live]
    exact listed
  · have agrees := inv.agrees
    unfold Agrees at agrees ⊢
    rw [change, engine, live]
    split at agrees
    · exact agrees
    · exact agrees
    · exact ⟨agrees.1, agrees.2.1, serves agrees.2.2.1, agrees.2.2.2⟩
    · refine ⟨agrees.1, agrees.2.1, fun id member => ?_⟩
      exact (agrees.2.2 id member).imp_right (idle id member)
  · rw [accepting]
    intro a member
    have sound := inv.accepts a member
    refine ⟨?_, ?_, ?_, ?_⟩
    · rw [live]
      exact sound.leads
    · rw [live]
      exact sound.todo
    · rw [counts.label]
      exact sound.named
    · rw [counts.label]
      exact counted a member
  · rw [accepting]
    exact inv.addresses
  · rw [engine]
    exact inv.running

/-- The total of a listener after one count changed. -/
theorem Counts.total_of_named {id value : Nat} (counts : Counts s s' port id value)
    {label : Option String} (named : s.label id = label) :
    s'.total port label + s.held port id = s.total port label + value := by
  rw [total, total, counts.length, counts.label, counts.held]
  apply tally_update_of_mem _ value (List.nodup_range.filter _)
  simp [counts.known, named]

theorem Counts.total_of_other {id value : Nat} (counts : Counts s s' port id value)
    {other : Port} {label : Option String} (differs : other = port → s.label id ≠ label) :
    s'.total other label = s.total other label := by
  rw [total, total, counts.length, counts.label]
  by_cases here : other = port
  · subst here
    rw [counts.held]
    apply tally_update_of_not_mem
    simp [differs rfl]
  · rw [counts.others other here]

theorem Inv.close (inv : s.Inv) (step : s.close port id = some s') : s'.Inv := by
  have counts := close_counts step
  have fewer : ∀ other id', s'.held other id' ≤ s.held other id' := by
    intro other id'
    by_cases here : other = port
    · subst here
      rw [counts.held]
      by_cases same : id' = id
      · subst same
        rw [Function.update_self]
        exact Nat.sub_le _ _
      · rw [Function.update_of_ne same]
    · rw [counts.others other here]
  apply inv.ofCounts counts
  · intro other id' opens
    exact inv.listed other id' (opens.trans_le (fewer other id'))
  · intro id' _ idle other
    exact Nat.le_zero.mp (idle other ▸ fewer other id')
  · intro a member
    have sound := inv.accepts a member
    have counted := sound.counted
    by_cases here : a.port = port
    · subst here
      rw [counts.held]
      by_cases waits : id ∈ a.todo
      · have nodup : a.todo.Nodup :=
          List.Nodup.sublist sound.todo (List.nodup_append.mp inv.nodup).2.1
        have rest := tally_update_of_mem (s.held a.port) (s.held a.port id - 1) nodup waits
        have all := counts.total_of_named (sound.named id waits)
        omega
      · rw [tally_update_of_not_mem _ _ waits]
        refine Nat.le_trans ?_ counted
        by_cases named : s.label id = s.label a.generation
        · have all := counts.total_of_named named
          omega
        · exact (counts.total_of_other fun _ => named).le
    · rw [counts.total_of_other fun same => absurd same here, counts.others a.port here]
      exact counted

/-- A connection opens on a published generation that no other accept is for. -/
theorem Inv.open (inv : s.Inv)
    (counts : Counts s s' port id (s.held port id + 1)) (published : id ∈ s.live.listeners)
    (alone : ∀ a ∈ s.accepting, a.port = port → a.generation ≠ id) : s'.Inv := by
  have elsewhere : ∀ other id', id' ≠ id → s'.held other id' = s.held other id' := by
    intro other id' differs
    by_cases here : other = port
    · subst here
      rw [counts.held, Function.update_of_ne differs]
    · rw [counts.others other here]
  apply inv.ofCounts counts
  · intro other id' opens
    by_cases same : id' = id
    · exact .inl (same ▸ published)
    · rw [elsewhere other id' same] at opens
      exact inv.listed other id' opens
  · intro id' drains idle other
    have differs : id' ≠ id := by
      rintro rfl
      exact inv.not_draining published drains
    rw [elsewhere other id' differs, idle other]
  · intro a member
    have sound := inv.accepts a member
    have notCounted : id ∉ a.todo := fun waits =>
      inv.not_draining published (sound.todo.subset waits)
    by_cases here : a.port = port
    · have differs : s.label id ≠ s.label a.generation := by
        intro same
        exact alone a member here
          (inv.serves.names id published _ (inv.generation_mem sound) same).symm
      rw [counts.total_of_other fun _ => differs]
      subst here
      rw [counts.held, tally_update_of_not_mem _ _ notCounted]
      exact sound.counted
    · rw [counts.total_of_other fun same => absurd same here, counts.others a.port here]
      exact sound.counted

/-- An accept that ends is refused, or opens a connection within the limit. -/
theorem takePermit_cases (step : s.takePermit addr = some s') :
    ∃ a ∈ s.accepting, a.addr = addr ∧ a.todo = [] ∧
      (s' = { s with accepting := s.others addr } ∨
        a.existing < s.limit a.port a.generation ∧
          Counts { s with accepting := s.others addr } s' a.port a.generation
            (s.held a.port a.generation + 1)) := by
  unfold takePermit at step
  split at step
  · cases step
  · rename_i a found
    obtain ⟨member, atAddr⟩ := find_accepting found
    dsimp only at step
    split at step
    · cases step
    · rename_i counted
      refine ⟨a, member, atAddr, not_not.mp counted, ?_⟩
      split at step
      · exact .inl (Option.some.inj step).symm
      · rename_i below
        cases modified : modify { s with accepting := s.others addr } a.generation
            fun g => g.tryAcquire a.port with
        | none =>
            rw [modified] at step
            exact .inl (Option.some.inj step).symm
        | some opened =>
            rw [modified] at step
            cases step
            refine .inr ⟨Nat.lt_of_not_le below, ?_⟩
            exact modify_counts (fun held => held + 1)
              (fun _ _ acquired => Generation.tryAcquire_counts acquired) modified

/-- Another accept is for another generation, or for another port. -/
theorem Inv.alone (inv : s.Inv) {a b : Accepting} (isA : a ∈ s.accepting)
    (isB : b ∈ s.others a.addr) (samePort : b.port = a.port) : b.generation ≠ a.generation := by
  intro same
  obtain ⟨member, differs⟩ := List.mem_filter.mp isB
  obtain ⟨first, isFirst, firstLeads⟩ := mem_of_lookup (inv.accepts a isA).leads
  obtain ⟨second, isSecond, secondLeads⟩ := mem_of_lookup (inv.accepts b member).leads
  rw [samePort, same] at secondLeads
  have equal := eq_of_nodup_targets inv.serves.single isSecond isFirst secondLeads firstLeads
  exact absurd (congrArg Prod.fst equal) (by simpa using differs)

theorem Inv.takePermit (inv : s.Inv) (step : s.takePermit addr = some s') : s'.Inv := by
  obtain ⟨a, member, rfl, -, rfl | ⟨-, counts⟩⟩ := takePermit_cases step
  · exact inv.others _
  · apply (inv.others a.addr).open counts
    · exact inv.generation_mem (inv.accepts a member)
    · intro b isB samePort
      exact inv.alone member isB samePort

/-! ## Replacing and reaping -/

/-- Fresh generations have no connections. -/
theorem held_append {more : List Generation} (unused : ∀ g ∈ more, ∀ port, g.held port = 0)
    (port : Port) :
    (fun id : Nat => (s.heap ++ more)[id]?.elim 0 fun g => g.held port) = s.held port := by
  funext id
  rw [held]
  by_cases known : id < s.heap.length
  · rw [List.getElem?_append_left known]
  · rw [List.getElem?_append_right (Nat.le_of_not_lt known),
      List.getElem?_eq_none (Nat.le_of_not_lt known)]
    cases read : more[id - s.heap.length]? with
    | none => rfl
    | some g => exact unused g (List.mem_of_getElem? read) port

/-- Fresh generations add nothing to what is open for a listener. -/
theorem total_append_le (more : List Generation) (port : Port) (label : Option String) :
    tally (s.held port) ((List.range (s.heap ++ more).length).filter
      fun id => labelAt (s.heap ++ more) id = label) ≤ s.total port label := by
  apply tally_le_of_counted (List.nodup_range.filter _)
  intro id named counts
  have known : id < s.heap.length := by
    by_contra unknown
    simp [Runtime.held, List.getElem?_eq_none (Nat.le_of_not_lt unknown)] at counts
  rw [List.mem_filter, labelAt_append known] at named
  exact List.mem_filter.mpr ⟨List.mem_range.mpr known, named.2⟩

/-- A commit fails to prepare, or moves the lists. -/
theorem commit_cases {config : ServerConfig} {env : Surroundings} {source : String}
    (step : s.commit config env source = some s') :
    s.change = .none ∧ (s' = s ∨ ∃ p, prepare s.heap s.engine env config = some p ∧
      s' = { s with
        heap := s.heap ++ p.fresh
        engine :=
          { s.engine with
            revision := s.engine.revision + 1
            source
            active := p.active
            draining := s.engine.draining ++ s.engine.active.filter fun id => id ∉ p.active }
        change := .publishing p }) := by
  unfold commit at step
  split at step
  · rename_i free
    refine ⟨free, ?_⟩
    split at step
    · exact .inl (Option.some.inj step).symm
    · rename_i p prepared
      exact .inr ⟨p, prepared, (Option.some.inj step).symm⟩
  · cases step

theorem Inv.agrees_none (inv : s.Inv) (free : s.change = .none) :
    s.engine.active = s.live.listeners ∧ s.engine.draining = s.live.draining := by
  have agrees := inv.agrees
  rw [Agrees, free] at agrees
  exact agrees

theorem Inv.commit (inv : s.Inv) {config : ServerConfig} {env : Surroundings} {source : String}
    (step : s.commit config env source = some s') : s'.Inv := by
  obtain ⟨free, rfl | ⟨p, prepared, rfl⟩⟩ := commit_cases step
  · exact inv
  · obtain ⟨serves, origin, unused⟩ := prepare_serves prepared
    obtain ⟨active, draining⟩ := inv.agrees_none free
    have labelled : ∀ id, id < s.heap.length → labelAt (s.heap ++ p.fresh) id = s.label id :=
      fun id known => labelAt_append known
    have same := held_append (s := s) unused
    constructor
    · apply serves_congr inv.serves (by simp)
      intro id member
      exact labelled id (inv.serves.known id member)
    · exact inv.nodup
    · intro id member
      have known := inv.known id member
      simp only [List.length_append]
      omega
    · intro port id opens
      apply inv.listed port id
      rw [← same]
      exact opens
    · refine ⟨rfl, ?_, serves, ?_⟩
      · simp only [active, draining]
      · intro id member drains
        rcases origin id member with old | fresh
        · exact inv.not_draining (active ▸ old) drains
        · exact absurd (inv.known id drains) (Nat.not_lt.mpr fresh)
    · intro a member
      have sound := inv.accepts a member
      have named := labelled _ (inv.serves.known _ (inv.generation_mem sound))
      refine ⟨sound.leads, sound.todo, ?_, ?_⟩
      · intro id waits
        exact (labelled id (inv.known id (sound.todo.subset waits))).trans
          ((sound.named id waits).trans named.symm)
      · show tally (fun id : Nat => (s.heap ++ p.fresh)[id]?.elim 0 fun g => g.held a.port)
            ((List.range (s.heap ++ p.fresh).length).filter fun id =>
              labelAt (s.heap ++ p.fresh) id = labelAt (s.heap ++ p.fresh) a.generation) ≤
          a.existing + tally
            (fun id : Nat => (s.heap ++ p.fresh)[id]?.elim 0 fun g => g.held a.port) a.todo
        rw [same, named]
        exact (s.total_append_le p.fresh _ _).trans sound.counted
    · exact inv.addresses
    · exact inv.running

theorem publish_eq (step : s.publish = some s') :
    ∃ p, s.change = .publishing p ∧ s.accepting = [] ∧
      s' = { s with
        engine := { s.engine with draining := s.engine.draining.filter fun id => !s.empty id }
        live :=
          { listeners := s.engine.active
            bindings := p.bindings
            draining := s.engine.draining.filter fun id => !s.empty id }
        change := .closing s.live p.sockets } := by
  unfold publish at step
  split at step
  · rename_i p publishing
    split at step
    · cases step
    · rename_i quiet
      exact ⟨p, publishing, not_not.mp quiet, (Option.some.inj step).symm⟩
  · cases step

/-- What a commit that waits to publish has moved. -/
theorem Inv.agrees_publishing (inv : s.Inv) {p : Prepared} (publishing : s.change = .publishing p) :
    s.engine.active = p.active ∧
      s.engine.draining = s.live.draining ++ s.live.listeners.filter (fun id => id ∉ p.active) ∧
      Serves s.heap p.active p.bindings ∧ ∀ id ∈ p.active, id ∉ s.live.draining := by
  have agrees := inv.agrees
  rw [Agrees, publishing] at agrees
  exact agrees

theorem Inv.publish (inv : s.Inv) (step : s.publish = some s') : s'.Inv := by
  obtain ⟨p, publishing, quiet, rfl⟩ := publish_eq step
  obtain ⟨active, draining, serves, apart⟩ := inv.agrees_publishing publishing
  obtain ⟨listenersNodup, drainingNodup, disjoint⟩ := List.nodup_append.mp inv.nodup
  have leaves : ∀ id, id ∈ s.engine.draining →
      id ∈ s.live.draining ∨ id ∈ s.live.listeners ∧ id ∉ p.active := by
    intro id member
    rw [draining, List.mem_append, List.mem_filter] at member
    simpa using member
  constructor
  · rw [active]
    exact serves
  · have drains : s.engine.draining.Nodup := by
      rw [draining, List.nodup_append]
      refine ⟨drainingNodup, listenersNodup.filter _, ?_⟩
      rintro id drains other listener rfl
      exact disjoint id (List.mem_of_mem_filter listener) id drains rfl
    rw [active, List.nodup_append]
    refine ⟨serves.nodup, drains.filter _, ?_⟩
    rintro id member other drains rfl
    rcases leaves id (List.mem_of_mem_filter drains) with old | ⟨-, removed⟩
    · exact apart id member old
    · exact removed member
  · intro id member
    rcases leaves id (List.mem_of_mem_filter member) with old | ⟨listener, -⟩
    · exact inv.known id old
    · exact inv.serves.known id listener
  · intro port id opens
    have kept : id ∈ s.engine.draining →
        id ∈ s.engine.draining.filter fun id => !s.empty id := by
      intro drains
      refine List.mem_filter.mpr ⟨drains, ?_⟩
      rw [Bool.not_eq_true', ← Bool.not_eq_true, empty_iff]
      intro idle
      exact absurd (idle port) opens.ne'
    rcases inv.listed port id opens with listener | drains
    · by_cases stays : id ∈ p.active
      · exact .inl (active ▸ stays)
      · exact .inr (kept (by simp [draining, listener, stays]))
    · exact .inr (kept (by simp [draining, drains]))
  · exact ⟨rfl, rfl⟩
  · simp [quiet]
  · simp [quiet]
  · exact inv.running

theorem finish_eq (step : s.finish = some s') :
    ∃ old sockets, s.change = .closing old sockets ∧
      s' = { s with
        engine :=
          { s.engine with
            sockets := (s.engine.sockets ++ sockets).filter fun addr =>
              (s.live.bindings.lookup addr).isSome }
        change := .none } := by
  unfold finish at step
  split at step
  · rename_i old sockets closing
    exact ⟨old, sockets, closing, (Option.some.inj step).symm⟩
  · cases step

theorem Inv.finish (inv : s.Inv) (step : s.finish = some s') : s'.Inv := by
  obtain ⟨old, sockets, closing, rfl⟩ := finish_eq step
  have agrees := inv.agrees
  rw [Agrees, closing] at agrees
  exact { inv with agrees := agrees, accepts := fun a member => { inv.accepts a member with } }

/-- A reap finds nothing to drop, or drops the generations that are empty. -/
theorem reap_cases (step : s.reap = some s') :
    s.change = .none ∧ (s' = s ∧ (s.engine.stopping = true ∨
        (s.engine.draining.filter fun id => !s.empty id) = s.engine.draining) ∨
      s' = { s with
        engine := { s.engine with draining := s.engine.draining.filter fun id => !s.empty id }
        change := .reaping }) := by
  unfold reap at step
  split at step
  · rename_i free
    refine ⟨free, ?_⟩
    split at step
    · rename_i stopping
      exact .inl ⟨(Option.some.inj step).symm, .inl stopping⟩
    · dsimp only at step
      split at step
      · rename_i same
        exact .inl ⟨(Option.some.inj step).symm, .inr (List.filter_sublist.eq_of_length same)⟩
      · exact .inr (Option.some.inj step).symm
  · cases step

theorem Inv.reap (inv : s.Inv) (step : s.reap = some s') : s'.Inv := by
  obtain ⟨free, ⟨rfl, -⟩ | rfl⟩ := reap_cases step
  · exact inv
  · obtain ⟨active, draining⟩ := inv.agrees_none free
    refine { inv with agrees := ?_, accepts := fun a member => { inv.accepts a member with } }
    refine ⟨active, ?_, ?_⟩
    · simp only [draining]
      exact List.filter_sublist
    · intro id member
      by_cases idle : s.empty id = true
      · exact .inr ((s.empty_iff id).mp idle)
      · left
        simp only [draining]
        exact List.mem_filter.mpr ⟨member, by simpa using idle⟩

theorem publishReap_eq (step : s.publishReap = some s') :
    s.change = .reaping ∧ s.accepting = [] ∧
      s' = { s with
        live :=
          { listeners := s.engine.active
            bindings := s.live.bindings
            draining := s.engine.draining }
        change := .none } := by
  unfold publishReap at step
  split at step
  · rename_i reaping
    split at step
    · cases step
    · rename_i quiet
      exact ⟨reaping, not_not.mp quiet, (Option.some.inj step).symm⟩
  · cases step

theorem Inv.publishReap (inv : s.Inv) (step : s.publishReap = some s') : s'.Inv := by
  obtain ⟨reaping, quiet, rfl⟩ := publishReap_eq step
  have agrees := inv.agrees
  rw [Agrees, reaping] at agrees
  obtain ⟨active, fewer, dropped⟩ := agrees
  constructor
  · rw [active]
    exact inv.serves
  · rw [active]
    exact List.Nodup.sublist ((List.Sublist.refl _).append fewer) inv.nodup
  · intro id member
    exact inv.known id (fewer.subset member)
  · intro port id opens
    rw [active]
    refine (inv.listed port id opens).imp_right fun drains => ?_
    rcases dropped id drains with kept | idle
    · exact kept
    · exact absurd (idle port) opens.ne'
  · exact ⟨rfl, rfl⟩
  · simp [quiet]
  · simp [quiet]
  · exact inv.running

theorem Inv.step (inv : s.Inv) (step : s.step e = some s') : s'.Inv := by
  cases e with
  | dispatch addr => exact inv.dispatch step
  | count addr => exact inv.count step
  | takePermit addr => exact inv.takePermit step
  | close port id => exact inv.close step
  | commit config env source => exact inv.commit step
  | publish => exact inv.publish step
  | finish => exact inv.finish step
  | reap => exact inv.reap step
  | publishReap => exact inv.publishReap step

theorem Inv.of_reachable {allowed : Runtime → RuntimeEvent → Prop}
    (reachable : Reachable runtimeMachine allowed s) : s.Inv := by
  refine reachable.invariant ?_ ?_
  · rintro _ rfl
    exact .start
  · intro s e s' _ inv _ step
    exact inv.step step

/-! ## References -/

/-- Something other than its own connections refers to the generation: the engine's
lists, the published table, an accept, or the table a commit has prepared or
replaced. -/
def Refers (s : Runtime) (id : Nat) : Prop :=
  id ∈ s.engine.active ∨ id ∈ s.engine.draining ∨ s.live.Refers id ∨
    (∃ a ∈ s.accepting, a.generation = id) ∨
    match s.change with
    | .none | .reaping => False
    | .publishing p => ∃ port, (port, id) ∈ targets p.bindings
    | .closing old _ => old.Refers id

/-- The last reference to the generation is gone, which stops its monitors. -/
def Dropped (s : Runtime) (id : Nat) : Prop := id < s.heap.length ∧ ¬ s.Refers id

/-- The engine lists the generation. -/
def Retained (s : Runtime) (id : Nat) : Prop := id ∈ s.engine.active ∨ id ∈ s.engine.draining

theorem Inv.retained_of_open (inv : s.Inv) (opens : 0 < s.held port id) : s.Retained id := by
  have listed := inv.listed port id opens
  have agrees := inv.agrees
  unfold Agrees at agrees
  split at agrees
  · rwa [Retained, agrees.1, agrees.2]
  · rwa [Retained, agrees.1, agrees.2]
  · rename_i p _
    obtain ⟨active, draining, -⟩ := agrees
    rw [Retained, active, draining, List.mem_append, List.mem_filter]
    rcases listed with listener | drains
    · by_cases stays : id ∈ p.active
      · exact .inl stays
      · exact .inr (.inr ⟨listener, by simpa using stays⟩)
    · exact .inr (.inl drains)
  · obtain ⟨active, -, dropped⟩ := agrees
    rw [Retained, active]
    refine listed.imp_right fun drains => ?_
    rcases dropped id drains with kept | idle
    · exact kept
    · exact absurd (idle port) opens.ne'

/-- With the engine's lock free, the engine lists every generation that is referred
to. -/
theorem Inv.retained_of_refers (inv : s.Inv) (free : s.change = .none)
    (refers : s.Refers id) : s.Retained id := by
  obtain ⟨active, draining⟩ := inv.agrees_none free
  rw [Refers, free] at refers
  rcases refers with isActive | drains | ⟨⟨port, bound⟩ | drains⟩ | ⟨a, member, rfl⟩ | none
  · exact .inl isActive
  · exact .inr drains
  · exact .inl (active ▸ inv.serves.bound _ bound)
  · exact .inr (draining ▸ drains)
  · exact .inl (active ▸ inv.generation_mem (inv.accepts a member))
  · exact none.elim

/-- The steps of an accept before its last one. -/
theorem accepting_eq (step : s.dispatch addr = some s' ∨ s.count addr = some s') :
    ∃ accepting, s' = { s with accepting } := by
  rcases step with step | step
  · unfold dispatch at step
    split at step
    · cases step
    · split at step
      · exact ⟨s.accepting, (Option.some.inj step).symm⟩
      · split at step
        · exact ⟨_, (Option.some.inj step).symm⟩
        · exact ⟨s.accepting, (Option.some.inj step).symm⟩
  · unfold count at step
    split at step
    · cases step
    · split at step
      · cases step
      · exact ⟨_, (Option.some.inj step).symm⟩

/-- What an event leaves as it was, or takes from what was there. -/
structure Moves (s : Runtime) (e : RuntimeEvent) (s' : Runtime) : Prop where
  length : s.heap.length ≤ s'.heap.length
  active : ∀ id < s.heap.length, id ∈ s'.engine.active → id ∈ s.engine.active
  draining : ∀ id ∈ s'.engine.draining, s.Retained id
  listeners : s'.live.listeners = s.live.listeners ∨ s'.live.listeners = s.engine.active
  bindings : e = .publish ∨ s'.live.bindings = s.live.bindings

/-- An event that does not touch the lists. -/
theorem Moves.same (length : s'.heap.length = s.heap.length)
    (live : s'.live = s.live) (active : s'.engine.active = s.engine.active)
    (draining : s'.engine.draining ⊆ s.engine.draining) : Moves s e s' where
  length := length.ge
  active id _ isActive := active ▸ isActive
  draining id drains := .inr (draining drains)
  listeners := .inl (by rw [live])
  bindings := .inr (by rw [live])

theorem Counts.moves {id value : Nat} (counts : Counts s s' port id value) : Moves s e s' := by
  obtain ⟨live, engine, -, -⟩ := counts.rest
  exact .same counts.length live (by rw [engine]) (by simp [engine])

theorem step_moves (step : s.step e = some s') : Moves s e s' := by
  have same {accepting : List Accepting} {e : RuntimeEvent} : Moves s e { s with accepting } :=
    .same rfl rfl rfl (List.Subset.refl _)
  cases e with
  | dispatch addr =>
      obtain ⟨accepting, rfl⟩ := accepting_eq (.inl step)
      exact same
  | count addr =>
      obtain ⟨accepting, rfl⟩ := accepting_eq (.inr step)
      exact same
  | takePermit addr =>
      obtain ⟨a, -, -, -, rfl | ⟨-, counts⟩⟩ := takePermit_cases step
      · exact same
      · exact { counts.moves with }
  | close port id => exact (close_counts step).moves
  | commit config env source =>
      obtain ⟨-, rfl | ⟨p, prepared, rfl⟩⟩ := commit_cases step
      · exact same
      · obtain ⟨-, origin, -⟩ := prepare_serves prepared
        refine ⟨by simp, ?_, ?_, .inl rfl, .inr rfl⟩
        · intro id known active
          rcases origin id active with old | fresh
          · exact old
          · exact absurd known (Nat.not_lt.mpr fresh)
        · intro id drains
          rcases List.mem_append.mp drains with old | removed
          · exact .inr old
          · exact .inl (List.mem_of_mem_filter removed)
  | publish =>
      obtain ⟨p, -, -, rfl⟩ := publish_eq step
      exact ⟨le_rfl, fun _ _ active => active, fun _ drains => .inr (List.mem_of_mem_filter drains),
        .inr rfl, .inl rfl⟩
  | finish =>
      obtain ⟨old, sockets, -, rfl⟩ := finish_eq step
      exact .same rfl rfl rfl (List.Subset.refl _)
  | reap =>
      obtain ⟨-, ⟨rfl, -⟩ | rfl⟩ := reap_cases step
      · exact same
      · exact .same rfl rfl rfl List.filter_sublist.subset
  | publishReap =>
      obtain ⟨-, -, rfl⟩ := publishReap_eq step
      exact ⟨le_rfl, fun _ _ active => active, fun _ drains => .inr drains, .inr rfl, .inr rfl⟩

/-- A generation the engine does not list is not listed again. -/
theorem not_retained_later {allowed : Runtime → RuntimeEvent → Prop}
    (known : id < s.heap.length) (gone : ¬ s.Retained id)
    (later : Reachable (runtimeMachine.startingAt s) allowed s') :
    id < s'.heap.length ∧ ¬ s'.Retained id := by
  refine later.invariant (P := fun s' => id < s'.heap.length ∧ ¬ s'.Retained id) ?_ ?_
  · rintro _ rfl
    exact ⟨known, gone⟩
  · rintro s e s' - ⟨known, gone⟩ - step
    have moves := step_moves step
    refine ⟨known.trans_le moves.length, fun retained => gone ?_⟩
    exact retained.elim (fun active => .inl (moves.active id known active)) (moves.draining id)

/-- Publishing and reaping drop every generation that has no connection and is not
active. -/
theorem Inv.collects (inv : s.Inv) (collecting : e = .publish ∨ e = .reap)
    (step : s.step e = some s') (inactive : id ∉ s'.engine.active)
    (idle : ∀ port, s.held port id = 0) : ¬ s'.Retained id := by
  have left : id ∉ s.engine.draining.filter fun id => !s.empty id := by
    intro member
    simpa [(s.empty_iff id).mpr idle] using (List.mem_filter.mp member).2
  rintro (active | drains)
  · exact inactive active
  · rcases collecting with rfl | rfl
    · obtain ⟨p, -, -, rfl⟩ := publish_eq step
      exact left drains
    · obtain ⟨-, ⟨rfl, stopping | same⟩ | rfl⟩ := reap_cases step
      · simp [inv.running] at stopping
      · rw [same] at left
        exact left drains
      · exact left drains

/-! ## New connections -/

theorem Counts.eq_of_lt {port other : Port} {id id' value : Nat}
    (counts : Counts s s' port id value) (opens : s.held other id' < s'.held other id') :
    other = port ∧ id' = id ∧ s.held port id < value := by
  by_cases here : other = port
  · subst here
    rw [counts.held] at opens
    by_cases same : id' = id
    · subst same
      rw [Function.update_self] at opens
      exact ⟨rfl, rfl, opens⟩
    · simp [Function.update_of_ne same] at opens
  · simp [counts.others other here] at opens

/-- Only the end of an accept opens a connection. -/
theorem opens_cases (step : s.step e = some s') (opens : s.held port id < s'.held port id) :
    ∃ a ∈ s.accepting, e = .takePermit a.addr ∧ a.todo = [] ∧ a.port = port ∧ a.generation = id ∧
      a.existing < s.limit port id ∧
      Counts { s with accepting := s.others a.addr } s' port id (s.held port id + 1) := by
  have same : s'.held = s.held → False := fun same => by simp [same] at opens
  cases e with
  | dispatch addr =>
      obtain ⟨accepting, rfl⟩ := accepting_eq (.inl step)
      exact (same rfl).elim
  | count addr =>
      obtain ⟨accepting, rfl⟩ := accepting_eq (.inr step)
      exact (same rfl).elim
  | takePermit addr =>
      obtain ⟨a, member, rfl, counted, rfl | ⟨below, counts⟩⟩ := takePermit_cases step
      · exact (same rfl).elim
      · obtain ⟨rfl, rfl, -⟩ := counts.eq_of_lt opens
        exact ⟨a, member, rfl, counted, rfl, rfl, below, counts⟩
  | close port' id' =>
      obtain ⟨-, -, more⟩ := (close_counts step).eq_of_lt opens
      omega
  | commit config env source =>
      obtain ⟨-, rfl | ⟨p, prepared, rfl⟩⟩ := commit_cases step
      · exact (same rfl).elim
      · obtain ⟨-, -, unused⟩ := prepare_serves prepared
        exact (same (funext (held_append unused))).elim
  | publish =>
      obtain ⟨p, -, -, rfl⟩ := publish_eq step
      exact (same rfl).elim
  | finish =>
      obtain ⟨old, sockets, -, rfl⟩ := finish_eq step
      exact (same rfl).elim
  | reap =>
      obtain ⟨-, ⟨rfl, -⟩ | rfl⟩ := reap_cases step
      · exact (same rfl).elim
      · exact (same rfl).elim
  | publishReap =>
      obtain ⟨-, -, rfl⟩ := publishReap_eq step
      exact (same rfl).elim

/-- A new connection is within the limit of its generation. -/
theorem Inv.within_limit (inv : s.Inv) (step : s.step e = some s')
    (opens : s.held port id < s'.held port id) :
    s'.total port (s'.label id) ≤ s'.limit port id := by
  obtain ⟨a, member, -, counted, rfl, rfl, below, counts⟩ := opens_cases step opens
  have before := (inv.accepts a member).counted
  rw [counted, tally_nil, Nat.add_zero] at before
  have after : s'.total a.port (s.label a.generation) + s.held a.port a.generation =
      s.total a.port (s.label a.generation) + (s.held a.port a.generation + 1) :=
    counts.total_of_named rfl
  rw [counts.label, counts.limit]
  show s'.total a.port (s.label a.generation) ≤ s.limit a.port a.generation
  omega

/-- A new connection is on a generation its address leads to. -/
theorem Inv.opens_bound (inv : s.Inv) (step : s.step e = some s')
    (opens : s.held port id < s'.held port id) :
    ∃ addr, e = .takePermit addr ∧
      (s.live.bindings.lookup addr).bind Binding.target = some (port, id) := by
  obtain ⟨a, member, rfl, -, rfl, rfl, -⟩ := opens_cases step opens
  exact ⟨a.addr, rfl, (inv.accepts a member).leads⟩

/-- A generation that is out of service and has no connection. -/
structure Quiet (s : Runtime) (id : Nat) : Prop where
  known : id < s.heap.length
  inactive : id ∉ s.engine.active
  unlisted : id ∉ s.live.listeners
  idle : ∀ port, s.held port id = 0

theorem Quiet.step (quiet : s.Quiet id) (inv : s.Inv)
    (step : s.step e = some s') : s'.Quiet id := by
  have moves := step_moves step
  constructor
  · exact quiet.known.trans_le moves.length
  · intro active
    exact quiet.inactive (moves.active id quiet.known active)
  · rcases moves.listeners with same | published
    · rw [same]
      exact quiet.unlisted
    · rw [published]
      exact quiet.inactive
  · intro port
    by_contra opened
    -- A connection would have been accepted for a published generation.
    have opens : s.held port id < s'.held port id := by
      rw [quiet.idle port]
      exact Nat.pos_of_ne_zero opened
    obtain ⟨addr, -, leads⟩ := inv.opens_bound step opens
    obtain ⟨binding, member, leads⟩ := mem_of_lookup leads
    exact quiet.unlisted (inv.serves.bound _ (mem_targets member leads))

/-- Replacing the configuration strands no connection and keeps the limits.  A
generation with an open connection is listed by the engine and not dropped.  Between
two publications connections are opened only on what the first one bound.  A
generation that is not active and has no connection when a commit publishes, or when
a reap looks, is dropped once the engine's lock is free; until then it stays as it
is.  And when a connection has been accepted, the open connections of its port over
all generations of the listener are within the limit of the accepting generation. -/
theorem replacement_keeps_connections {s : Runtime}
    (reachable : Reachable runtimeMachine (fun _ _ => True) s) :
    (∀ port id, 0 < s.held port id →
      (id ∈ s.engine.active ∨ id ∈ s.engine.draining) ∧ ¬ s.Dropped id) ∧
    (∀ p published, s.change = .publishing p → s.step .publish = some published →
      ∀ later, Reachable (runtimeMachine.startingAt published) (fun _ e => e ≠ .publish) later →
      ∀ e opened port id, later.step e = some opened → later.held port id < opened.held port id →
        ∃ addr, (p.bindings.lookup addr).bind Binding.target = some (port, id)) ∧
    (∀ id < s.heap.length, s.change = .none → id ∉ s.engine.active →
      (∀ port, s.held port id = 0) →
      ∀ later, Reachable (runtimeMachine.startingAt s) (fun _ _ => True) later →
        id ∉ later.engine.active ∧ ∀ port, later.held port id = 0) ∧
    (∀ e collected, e = .publish ∨ e = .reap → s.step e = some collected →
      ∀ id < s.heap.length, id ∉ collected.engine.active → (∀ port, s.held port id = 0) →
      ∀ later, Reachable (runtimeMachine.startingAt collected) (fun _ _ => True) later →
        later.change = .none → later.Dropped id) ∧
    ∀ e opened port id, s.step e = some opened → s.held port id < opened.held port id →
      opened.total port (opened.label id) ≤ opened.limit port id := by
  have inv := Inv.of_reachable reachable
  have invLater {allowed : Runtime → RuntimeEvent → Prop} {e : RuntimeEvent}
      {middle later : Runtime}
      (step : s.step e = some middle)
      (run : Reachable (runtimeMachine.startingAt middle) allowed later) : later.Inv :=
    .of_reachable ((Reachable.next reachable trivial step).later (fun _ _ _ => trivial) run)
  refine ⟨?_, ?_, ?_, ?_, ?_⟩
  · intro port id opens
    have retained := inv.retained_of_open opens
    refine ⟨retained, fun dropped => dropped.2 ?_⟩
    exact retained.elim .inl fun drains => .inr (.inl drains)
  · intro p published publishing step later run e opened port id opening opens
    have bindings : later.live.bindings = p.bindings := by
      refine run.invariant (P := fun later => later.live.bindings = p.bindings) ?_ ?_
      · rintro _ rfl
        obtain ⟨p', isPublishing, -, rfl⟩ := publish_eq step
        rw [publishing] at isPublishing
        cases isPublishing
        rfl
      · intro s e s' _ bindings other step
        rw [(step_moves step).bindings.resolve_left other, bindings]
    obtain ⟨addr, -, leads⟩ := (invLater step run).opens_bound opening opens
    exact ⟨addr, bindings ▸ leads⟩
  · intro id known free inactive idle later run
    have quiet : s.Quiet id :=
      ⟨known, inactive, (inv.agrees_none free).1 ▸ inactive, idle⟩
    have stays : later.Inv ∧ later.Quiet id := by
      refine run.invariant (P := fun later => later.Inv ∧ later.Quiet id) ?_ ?_
      · rintro _ rfl
        exact ⟨inv, quiet⟩
      · rintro s e s' - ⟨inv, quiet⟩ - step
        exact ⟨inv.step step, quiet.step inv step⟩
    exact ⟨stays.2.inactive, stays.2.idle⟩
  · intro e collected collecting step id known inactive idle later run free
    have gone := inv.collects collecting step inactive idle
    obtain ⟨known, gone⟩ := not_retained_later (known.trans_le (step_moves step).length) gone run
    exact ⟨known, fun refers => gone ((invLater step run).retained_of_refers free refers)⟩
  · intro e opened port id step opens
    exact inv.within_limit step opens

/-- One listener on one address. -/
def sampleListener (settings : String) : ServerConfig where
  listeners := [⟨some "eos", "0.0.0.0:8080", 2, none, settings⟩]
  metrics := none
  distinct := by simp

def sampleAddr : SocketAddr := ⟨"0.0.0.0", 8080⟩

def sampleSurroundings : Surroundings where
  lookup _ := some [sampleAddr]
  bind _ := some sampleAddr
  loads _ := true

/-- The configuration is replaced under an open connection. -/
def sampleReplacement : List RuntimeEvent :=
  [ .commit (sampleListener "first") sampleSurroundings "first", .publish, .finish
  , .dispatch sampleAddr, .takePermit sampleAddr
  , .commit (sampleListener "second") sampleSurroundings "second", .publish, .finish ]

theorem replacement_keeps_connections_sample :
    ∃ s, Reachable runtimeMachine (fun _ _ => True) s ∧ s.engine.active = [1] ∧
      s.held .ship 0 = 1 ∧ (0 ∈ s.engine.active ∨ 0 ∈ s.engine.draining) ∧ ¬ s.Dropped 0 := by
  have found : ∃ s, Reachable runtimeMachine (fun _ _ => True) s ∧
      (s.engine.active = [1] ∧ s.held .ship 0 = 1) :=
    exists_reachable_of_run sampleReplacement (show runtimeMachine.init .start from rfl)
      (by decide +kernel)
  obtain ⟨s, reachable, active, opens⟩ := found
  exact ⟨s, reachable, active, opens,
    (replacement_keeps_connections reachable).1 .ship 0 (by rw [opens]; decide)⟩

end Runtime

end FleetRouter
