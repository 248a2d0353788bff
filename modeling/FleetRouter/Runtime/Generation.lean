import FleetRouter.Lib.Semaphore

/-!
# Generations of a configuration

A generation is one listener of an applied configuration, with the connections it has
accepted.  A new configuration is prepared before anything changes: a listener whose
settings are all as before keeps its active generation, every other one gets a fresh
generation, and every port gets the address it is bound to.
-/

namespace FleetRouter

structure SocketAddr where
  ip : String
  port : Nat
  deriving DecidableEq, Repr

/-- The chain API of a listener; `settings` is the rest of what is compared when
a generation is reused. -/
structure ChainConfig where
  bind : String
  maxConnections : Nat
  settings : String
  deriving DecidableEq, Repr

/-- A resolved listener. -/
structure ListenerConfig where
  name : Option String
  bind : String
  maxConnections : Nat
  chain : Option ChainConfig
  settings : String
  deriving DecidableEq, Repr

/-- The ports a generation may serve. -/
inductive Port where
  | ship
  | chain
  deriving DecidableEq, Repr

namespace ListenerConfig

/-- `default` in single-port mode. -/
def label (c : ListenerConfig) : String := c.name.getD "default"

/-- The most connections of a port. -/
def limit (c : ListenerConfig) : Port → Nat
  | .ship => c.maxConnections
  | .chain => c.chain.elim 0 ChainConfig.maxConnections

end ListenerConfig

/-- A configuration that passed validation: listener names are unique. -/
structure ServerConfig where
  listeners : List ListenerConfig
  /-- Where the dashboard and the metrics are served. -/
  metrics : Option String
  distinct : (listeners.map ListenerConfig.label).Nodup

structure Generation where
  resolved : ListenerConfig
  /-- The revision it was made for. -/
  configGeneration : Nat
  /-- One permit for each open connection. -/
  slots : (port : Port) → Semaphore (resolved.limit port)

namespace Generation

def new (resolved : ListenerConfig) (revision : Nat) : Generation where
  resolved
  configGeneration := revision
  slots _ := .new _

/-- The open connections of a port. -/
def held (g : Generation) (port : Port) : Nat := (g.slots port).held

def serves (g : Generation) : Port → Bool
  | .ship => true
  | .chain => g.resolved.chain.isSome

def tryAcquire (g : Generation) (port : Port) : Option Generation :=
  (g.slots port).tryAcquire.map fun slots => { g with slots := Function.update g.slots port slots }

def release (g : Generation) (port : Port) : Option Generation :=
  (g.slots port).release.map fun slots => { g with slots := Function.update g.slots port slots }

/-- No connection is open. -/
def empty (g : Generation) : Bool :=
  (g.slots .ship).available = g.resolved.maxConnections &&
    g.resolved.chain.all fun c => (g.slots .chain).available = c.maxConnections

theorem empty_iff (g : Generation) : g.empty = true ↔ ∀ port, g.held port = 0 := by
  have ship := (g.slots .ship).le
  have chain := (g.slots .chain).le
  have each : (∀ port, g.held port = 0) ↔ g.held .ship = 0 ∧ g.held .chain = 0 := by
    constructor
    · intro none
      exact ⟨none .ship, none .chain⟩
    · rintro ⟨noShip, noChain⟩ (_ | _)
      · exact noShip
      · exact noChain
  rw [each]
  simp only [empty, held, Semaphore.held, ListenerConfig.limit, Bool.and_eq_true,
    decide_eq_true_eq, Option.all_eq_true] at ship chain ⊢
  generalize (g.slots .ship).available = ships at *
  generalize (g.slots .chain).available = chains at *
  cases configured : g.resolved.chain with
  | none =>
      simp only [configured, Option.elim_none] at chain ⊢
      simp
      omega
  | some c =>
      simp only [configured, Option.elim_some, Option.some.injEq, forall_eq'] at chain ⊢
      omega

/-- What taking or giving back a permit changes. -/
structure Counts (g g' : Generation) (port : Port) : Prop where
  resolved : g'.resolved = g.resolved
  others : ∀ other, other ≠ port → g'.held other = g.held other

theorem counts_update (g : Generation) (port : Port) (slots : Semaphore (g.resolved.limit port)) :
    Counts g { g with slots := Function.update g.slots port slots } port where
  resolved := rfl
  others other differs := by simp [held, Function.update_of_ne differs]

theorem tryAcquire_counts {g g' : Generation} {port : Port}
    (acquired : g.tryAcquire port = some g') :
    Counts g g' port ∧ g'.held port = g.held port + 1 := by
  obtain ⟨slots, taken, rfl⟩ := Option.map_eq_some_iff.mp acquired
  refine ⟨counts_update g port slots, ?_⟩
  simpa [held] using Semaphore.held_tryAcquire taken

theorem release_counts {g g' : Generation} {port : Port} (released : g.release port = some g') :
    Counts g g' port ∧ g'.held port + 1 = g.held port := by
  obtain ⟨slots, given, rfl⟩ := Option.map_eq_some_iff.mp released
  refine ⟨counts_update g port slots, ?_⟩
  simpa [held] using Semaphore.held_release given

end Generation

/-! ## The published table and the engine -/

/-- What an address serves; generations are named by their place on the heap. -/
inductive Binding where
  | ship (generation : Nat)
  | chain (generation : Nat)
  | dashboard
  deriving DecidableEq, Repr

/-- The generation behind an address, and its port. -/
def Binding.target : Binding → Option (Port × Nat)
  | .ship generation => some (.ship, generation)
  | .chain generation => some (.chain, generation)
  | .dashboard => none

/-- The routing table accepts read. -/
structure Live where
  /-- The generations of the applied configuration. -/
  listeners : List Nat
  bindings : List (SocketAddr × Binding)
  draining : List Nat
  deriving DecidableEq, Repr

structure Engine where
  revision : Nat
  source : String
  active : List Nat
  draining : List Nat
  sockets : List SocketAddr
  stopping : Bool
  deriving DecidableEq, Repr

/-! ## Preparing a configuration -/

structure Prepared where
  active : List Nat
  fresh : List Generation
  bindings : List (SocketAddr × Binding)
  sockets : List SocketAddr

/-- What preparing meets outside: the lookup of a bind address, the address a new
socket is bound to, and whether the certificates of a listener load. -/
structure Surroundings where
  lookup : String → Option (List SocketAddr)
  bind : String → Option SocketAddr
  loads : ListenerConfig → Bool

section Prepare

variable (heap : List Generation) (engine : Engine) (env : Surroundings)

/-- A bind address uses the socket that is open for it, or a new one. -/
def prepareBind (p : Prepared) (bind : String) (target : Binding) : Option Prepared :=
  match env.lookup bind with
  | none => none
  | some addresses =>
      match addresses.find? fun addr => engine.sockets.contains addr with
      | some addr =>
          if (p.bindings.lookup addr).isSome then none
          else some { p with bindings := p.bindings ++ [(addr, target)] }
      | none =>
          match env.bind bind with
          | none => none
          | some addr =>
              if (p.bindings.lookup addr).isSome then none
              else some { p with
                bindings := p.bindings ++ [(addr, target)], sockets := p.sockets ++ [addr] }

/-- The active generation with the same settings. -/
def reused (resolved : ListenerConfig) : Option Nat :=
  engine.active.find? fun id => heap[id]?.any fun g => g.resolved = resolved

/-- The generation of a listener: reused, or fresh. -/
def prepareGeneration (p : Prepared) (resolved : ListenerConfig) : Option (Nat × Prepared) :=
  match reused heap engine resolved with
  | some id => some (id, p)
  | none =>
      if env.loads resolved then
        some (heap.length + p.fresh.length,
          { p with fresh := p.fresh ++ [.new resolved (engine.revision + 1)] })
      else none

/-- The second address of a listener with a chain API. -/
def prepareChain (p : Prepared) (id : Nat) : Option ChainConfig → Option Prepared
  | none => some p
  | some chain => prepareBind engine env p chain.bind (.chain id)

def prepareListener (p : Prepared) (resolved : ListenerConfig) : Option Prepared := do
  let (id, p) ← prepareGeneration heap engine env p resolved
  let p ← prepareBind engine env p resolved.bind (.ship id)
  let p ← prepareChain engine env p id resolved.chain
  return { p with active := p.active ++ [id] }

def prepareListeners (p : Prepared) : List ListenerConfig → Option Prepared
  | [] => some p
  | resolved :: rest =>
      (prepareListener heap engine env p resolved).bind fun p => prepareListeners p rest

/-- Nothing is prepared while the router shuts down. -/
def prepare (config : ServerConfig) : Option Prepared :=
  if engine.stopping then none
  else
    (prepareListeners heap engine env ⟨[], [], [], []⟩ config.listeners).bind fun p =>
      match config.metrics with
      | none => some p
      | some bind => prepareBind engine env p bind .dashboard

end Prepare

/-! ## What a prepared configuration serves -/

/-- The listener name of a generation. -/
def labelAt (heap : List Generation) (id : Nat) : Option String :=
  heap[id]?.map fun g => g.resolved.label

theorem labelAt_append {heap more : List Generation} {id : Nat} (known : id < heap.length) :
    labelAt (heap ++ more) id = labelAt heap id := by
  rw [labelAt, labelAt, List.getElem?_append_left known]

theorem lt_of_labelAt {heap : List Generation} {id : Nat} {label : String}
    (named : labelAt heap id = some label) : id < heap.length := by
  obtain ⟨g, found, -⟩ := Option.map_eq_some_iff.mp named
  exact (List.getElem?_eq_some_iff.mp found).1

/-- The ports that have an address. -/
def targets (bindings : List (SocketAddr × Binding)) : List (Port × Nat) :=
  bindings.filterMap fun entry => entry.2.target

theorem mem_targets {bindings : List (SocketAddr × Binding)} {entry : SocketAddr × Binding}
    {target : Port × Nat} (member : entry ∈ bindings) (leads : entry.2.target = some target) :
    target ∈ targets bindings :=
  List.mem_filterMap.mpr ⟨entry, member, leads⟩

theorem mem_of_lookup {bindings : List (SocketAddr × Binding)} {addr : SocketAddr}
    {target : Port × Nat} (found : (bindings.lookup addr).bind Binding.target = some target) :
    ∃ binding, (addr, binding) ∈ bindings ∧ binding.target = some target := by
  obtain ⟨binding, isBinding, leads⟩ := Option.bind_eq_some_iff.mp found
  obtain ⟨before, after, split, -⟩ := List.lookup_eq_some_iff.mp isBinding
  exact ⟨binding, by simp [split], leads⟩

/-- A port has one address. -/
theorem eq_of_nodup_targets {bindings : List (SocketAddr × Binding)}
    {first second : SocketAddr × Binding} {target : Port × Nat} (nodup : (targets bindings).Nodup)
    (isFirst : first ∈ bindings) (isSecond : second ∈ bindings)
    (firstLeads : first.2.target = some target) (secondLeads : second.2.target = some target) :
    first = second := by
  induction bindings with
  | nil => cases isFirst
  | cons entry bindings ih =>
      have rest : (targets bindings).Nodup :=
        List.Nodup.sublist ((List.sublist_cons_self entry bindings).filterMap _) nodup
      -- An entry for a target of the rest would list that target twice.
      have alone : ∀ other ∈ bindings, other.2.target = some target →
          entry.2.target ≠ some target := by
        intro other member leads same
        simp only [targets, List.filterMap_cons, same, List.nodup_cons] at nodup
        exact nodup.1 (mem_targets member leads)
      rcases List.mem_cons.mp isFirst with rfl | inFirst
      · rcases List.mem_cons.mp isSecond with rfl | inSecond
        · rfl
        · exact absurd firstLeads (alone second inSecond secondLeads)
      · rcases List.mem_cons.mp isSecond with rfl | inSecond
        · exact absurd secondLeads (alone first inFirst firstLeads)
        · exact ih rest inFirst inSecond

/-- A table serves some listeners: their names differ, every address leads to one of
them, and every port has one address. -/
structure Serves (heap : List Generation) (listeners : List Nat)
    (bindings : List (SocketAddr × Binding)) : Prop where
  known : ∀ id ∈ listeners, id < heap.length
  nodup : listeners.Nodup
  names : ∀ a ∈ listeners, ∀ b ∈ listeners, labelAt heap a = labelAt heap b → a = b
  bound : ∀ target ∈ targets bindings, target.2 ∈ listeners
  single : (targets bindings).Nodup

/-- The table after the first listeners are prepared. -/
structure Prepared.SoFar (heap : List Generation) (engine : Engine)
    (done : List ListenerConfig) (p : Prepared) : Prop where
  known : ∀ id ∈ p.active, id < (heap ++ p.fresh).length
  labels : p.active.map (labelAt (heap ++ p.fresh)) = done.map fun c => some c.label
  origin : ∀ id ∈ p.active, id ∈ engine.active ∨ heap.length ≤ id
  unused : ∀ g ∈ p.fresh, ∀ port, g.held port = 0
  bound : ∀ target ∈ targets p.bindings, target.2 ∈ p.active
  single : (targets p.bindings).Nodup

section Prepare

variable {heap : List Generation} {engine : Engine} {env : Surroundings} {p p' : Prepared}

theorem prepareBind_eq {bind : String} {target : Binding}
    (prepared : prepareBind engine env p bind target = some p') :
    p'.active = p.active ∧ p'.fresh = p.fresh ∧
      ∃ addr, p'.bindings = p.bindings ++ [(addr, target)] := by
  unfold prepareBind at prepared
  split at prepared
  · cases prepared
  · split at prepared
    · split at prepared
      · cases prepared
      · cases prepared
        exact ⟨rfl, rfl, _, rfl⟩
    · split at prepared
      · cases prepared
      · split at prepared
        · cases prepared
        · cases prepared
          exact ⟨rfl, rfl, _, rfl⟩

/-- The generation has the listener's settings; a fresh one has no connections. -/
theorem prepareGeneration_eq {resolved : ListenerConfig} {id : Nat}
    (prepared : prepareGeneration heap engine env p resolved = some (id, p')) :
    p'.active = p.active ∧ p'.bindings = p.bindings ∧
      (∃ more, p'.fresh = p.fresh ++ more ∧ ∀ g ∈ more, ∀ port, g.held port = 0) ∧
      labelAt (heap ++ p'.fresh) id = some resolved.label ∧
      (id ∈ engine.active ∨ heap.length ≤ id) := by
  unfold prepareGeneration reused at prepared
  split at prepared
  · rename_i found
    cases prepared
    have settings := List.find?_some found
    simp only [Option.any_eq_true, decide_eq_true_eq] at settings
    obtain ⟨g, isG, same⟩ := settings
    have known := (List.getElem?_eq_some_iff.mp isG).1
    have named : labelAt heap id = some resolved.label := by
      rw [labelAt, isG, Option.map_some, same]
    exact ⟨rfl, rfl, ⟨[], by simp, by simp⟩, by rw [labelAt_append known, named],
      .inl (List.mem_of_find?_eq_some found)⟩
  · split at prepared
    · cases prepared
      refine ⟨rfl, rfl, ⟨_, rfl, ?_⟩, ?_, .inr (Nat.le_add_right _ _)⟩
      · simp [Generation.held, Generation.new]
      · simp [labelAt, Generation.new, ← List.append_assoc]
    · cases prepared

theorem prepareBind_targets {bind : String} {target : Binding}
    (prepared : prepareBind engine env p bind target = some p') :
    targets p'.bindings = targets p.bindings ++ target.target.toList := by
  obtain ⟨-, -, addr, bindings⟩ := prepareBind_eq prepared
  rw [bindings, targets, List.filterMap_append]
  cases target <;> rfl

/-- The targets a listener adds. -/
theorem prepareChain_eq {chain : Option ChainConfig} {id : Nat}
    (prepared : prepareChain engine env p id chain = some p') :
    p'.active = p.active ∧ p'.fresh = p.fresh ∧ ∃ more, more ⊆ [(Port.chain, id)] ∧
      more.Nodup ∧ targets p'.bindings = targets p.bindings ++ more := by
  cases chain with
  | none =>
      cases prepared
      exact ⟨rfl, rfl, [], by simp, by simp, by simp⟩
  | some chain =>
      obtain ⟨active, fresh, -⟩ := prepareBind_eq prepared
      exact ⟨active, fresh, [(Port.chain, id)], by simp, by simp, prepareBind_targets prepared⟩

/-- What the preparation of one listener adds. -/
theorem prepareListener_eq {resolved : ListenerConfig}
    (prepared : prepareListener heap engine env p resolved = some p') :
    ∃ id more chained, p'.active = p.active ++ [id] ∧ p'.fresh = p.fresh ++ more ∧
      (∀ g ∈ more, ∀ port, g.held port = 0) ∧
      labelAt (heap ++ p'.fresh) id = some resolved.label ∧
      (id ∈ engine.active ∨ heap.length ≤ id) ∧
      targets p'.bindings = targets p.bindings ++ (Port.ship, id) :: chained ∧
      (∀ target ∈ chained, target = (Port.chain, id)) ∧ chained.Nodup := by
  simp only [prepareListener, Option.bind_eq_bind, Option.bind_eq_some_iff] at prepared
  obtain ⟨⟨id, p₁⟩, generation, p₂, ship, p₃, chain, last⟩ := prepared
  obtain ⟨active₁, bindings₁, ⟨more, fresh₁, unused⟩, named, origin⟩ :=
    prepareGeneration_eq generation
  obtain ⟨active₂, fresh₂, -⟩ := prepareBind_eq ship
  obtain ⟨active₃, fresh₃, chained, onlyChain, chainNodup, targets₃⟩ := prepareChain_eq chain
  cases last
  refine ⟨id, more, chained, ?_, ?_, unused, ?_, origin, ?_, ?_, chainNodup⟩
  · rw [active₃, active₂, active₁]
  · rw [fresh₃, fresh₂, fresh₁]
  · rw [fresh₃, fresh₂]
    exact named
  · rw [targets₃, prepareBind_targets ship, bindings₁]
    simp [Binding.target]
  · intro target member
    simpa using onlyChain member

theorem prepareListener_soFar {done : List ListenerConfig} {resolved : ListenerConfig}
    (soFar : p.SoFar heap engine done)
    (new : resolved.label ∉ done.map ListenerConfig.label)
    (prepared : prepareListener heap engine env p resolved = some p') :
    p'.SoFar heap engine (done ++ [resolved]) := by
  obtain ⟨id, more, chained, active, fresh, unused, named, origin, added, fromChain, chainNodup⟩ :=
    prepareListener_eq prepared
  have kept : p.active.map (labelAt (heap ++ p'.fresh)) = done.map fun c => some c.label := by
    rw [← soFar.labels, fresh, ← List.append_assoc]
    apply List.map_congr_left
    intro id member
    exact labelAt_append (soFar.known id member)
  have fresh_id : id ∉ p.active := by
    intro member
    have listed := List.mem_map_of_mem (f := labelAt (heap ++ p'.fresh)) member
    rw [kept, named] at listed
    simp only [List.mem_map, Option.some.injEq] at listed
    exact new (List.mem_map.mpr listed)
  constructor
  · intro id' member
    rw [active, List.mem_append, List.mem_singleton] at member
    rcases member with old | rfl
    · have known := soFar.known id' old
      simp only [fresh, List.length_append] at known ⊢
      omega
    · exact lt_of_labelAt named
  · simp [active, kept, named]
  · intro id' member
    rw [active, List.mem_append, List.mem_singleton] at member
    rcases member with old | rfl
    · exact soFar.origin id' old
    · exact origin
  · intro g member
    rw [fresh, List.mem_append] at member
    exact member.elim (soFar.unused g) (unused g)
  · intro target member
    rw [added, List.mem_append, List.mem_cons] at member
    rw [active, List.mem_append, List.mem_singleton]
    rcases member with old | rfl | chain
    · exact .inl (soFar.bound target old)
    · exact .inr rfl
    · exact .inr (by rw [fromChain target chain])
  · rw [added, List.nodup_append]
    refine ⟨soFar.single, ?_, ?_⟩
    · rw [List.nodup_cons]
      refine ⟨fun member => ?_, chainNodup⟩
      cases fromChain _ member
    · intro old isOld added isAdded same
      subst same
      have leads : old.2 = id := by
        rcases List.mem_cons.mp isAdded with rfl | chain
        · rfl
        · rw [fromChain old chain]
      exact fresh_id (leads ▸ soFar.bound old isOld)

theorem prepareListeners_soFar {done listeners : List ListenerConfig}
    (soFar : p.SoFar heap engine done)
    (distinct : ((done ++ listeners).map ListenerConfig.label).Nodup)
    (prepared : prepareListeners heap engine env p listeners = some p') :
    p'.SoFar heap engine (done ++ listeners) := by
  induction listeners generalizing p done with
  | nil =>
      cases prepared
      simpa using soFar
  | cons resolved rest ih =>
      obtain ⟨middle, first, later⟩ := Option.bind_eq_some_iff.mp prepared
      have new : resolved.label ∉ done.map ListenerConfig.label := by
        intro member
        rw [List.map_append, List.map_cons, List.nodup_append] at distinct
        exact distinct.2.2 _ member _ List.mem_cons_self rfl
      have split : done ++ resolved :: rest = (done ++ [resolved]) ++ rest := by simp
      rw [split] at distinct ⊢
      exact ih (prepareListener_soFar soFar new first) distinct later

/-- A prepared configuration serves its listeners, each with an active generation or
with one that has no connections. -/
theorem prepare_serves {config : ServerConfig}
    (prepared : prepare heap engine env config = some p) :
    Serves (heap ++ p.fresh) p.active p.bindings ∧
      (∀ id ∈ p.active, id ∈ engine.active ∨ heap.length ≤ id) ∧
      ∀ g ∈ p.fresh, ∀ port, g.held port = 0 := by
  have start : Prepared.SoFar heap engine [] ⟨[], [], [], []⟩ :=
    ⟨by simp, rfl, by simp, by simp, by simp [targets], by simp [targets]⟩
  simp only [prepare, Option.ite_none_left_eq_some, Option.bind_eq_some_iff] at prepared
  obtain ⟨-, last, listeners, metrics⟩ := prepared
  have soFar := prepareListeners_soFar start config.distinct listeners
  have same : p.active = last.active ∧ p.fresh = last.fresh ∧
      targets p.bindings = targets last.bindings := by
    cases dashboard : config.metrics with
    | none =>
        simp only [dashboard, Option.some.injEq] at metrics
        simp [metrics]
    | some bind =>
        simp only [dashboard] at metrics
        obtain ⟨active, fresh, -⟩ := prepareBind_eq metrics
        exact ⟨active, fresh, by simp [prepareBind_targets metrics, Binding.target]⟩
  obtain ⟨active, fresh, bindings⟩ := same
  have labelled : (last.active.map (labelAt (heap ++ last.fresh))).Nodup := by
    rw [soFar.labels, List.nil_append]
    have distinct := config.distinct.map (f := some) fun _ _ => Option.some.inj
    rwa [List.map_map] at distinct
  rw [active, fresh]
  refine ⟨⟨soFar.known, labelled.of_map, ?_, ?_, ?_⟩, soFar.origin, soFar.unused⟩
  · intro a aMember b bMember same
    exact List.inj_on_of_nodup_map labelled aMember bMember same
  · rw [bindings]
    exact soFar.bound
  · rw [bindings]
    exact soFar.single

end Prepare

end FleetRouter
