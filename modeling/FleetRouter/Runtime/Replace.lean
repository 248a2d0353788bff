import FleetRouter.Lib.Transition
import FleetRouter.Runtime.Generation

/-!
# Replacing the configuration

Accepts read the published table under its read lock, publication takes its write
lock, and the engine's lists change under a lock of their own.  Each function is cut
where another one can get in between: an accept loads one count at a time, a commit
moves the lists before it publishes, and a reap drops generations before it does.
-/

namespace FleetRouter

open Transition Tally

/-! ## The runtime -/

/-- An accept under the read lock: the generation its address leads to, the draining
generations it has not counted yet, and the connections counted so far. -/
structure Accepting where
  addr : SocketAddr
  port : Port
  generation : Nat
  todo : List Nat
  existing : Nat
  deriving DecidableEq, Repr

/-- What the holder of the engine's lock is doing. -/
inductive Change where
  | none
  /-- A commit has moved the lists and waits for the write lock. -/
  | publishing (prepared : Prepared)
  /-- A commit has published and still has the table from before. -/
  | closing (old : Live) (sockets : List SocketAddr)
  /-- A reap has dropped generations and waits for the write lock. -/
  | reaping

structure Runtime where
  /-- Every generation that was ever made. -/
  heap : List Generation
  live : Live
  engine : Engine
  accepting : List Accepting
  change : Change

namespace Runtime

def start : Runtime where
  heap := []
  live := ⟨[], [], []⟩
  engine := ⟨0, "", [], [], [], false⟩
  accepting := []
  change := .none

variable (s : Runtime)

def label (id : Nat) : Option String := labelAt s.heap id

/-- The open connections of a generation. -/
def held (port : Port) (id : Nat) : Nat := s.heap[id]?.elim 0 fun g => g.held port

def limit (port : Port) (id : Nat) : Nat := s.heap[id]?.elim 0 fun g => g.resolved.limit port

def empty (id : Nat) : Bool := s.heap[id]?.all Generation.empty

/-- A generation is replaced on the heap. -/
def modify (id : Nat) (f : Generation → Option Generation) : Option Runtime :=
  match s.heap[id]? with
  | none => none
  | some g => (f g).map fun g' => { s with heap := s.heap.set id g' }

/-! ## Accepting -/

/-- The accepts on other addresses. -/
def others (addr : SocketAddr) : List Accepting :=
  s.accepting.filter fun a => a.addr ≠ addr

/-- The accept starts: it finds the generation and loads its own count.  Each
address has one task that accepts. -/
def dispatch (addr : SocketAddr) : Option Runtime :=
  if s.accepting.any fun a => a.addr = addr then none
  else
    match (s.live.bindings.lookup addr).bind Binding.target with
    | none => some s
    | some (port, generation) =>
        if s.heap[generation]?.any fun g => g.serves port then
          some { s with
            accepting :=
              { addr, port, generation
                todo := s.live.draining.filter fun id => s.label id = s.label generation
                existing := s.held port generation } :: s.accepting }
        else some s

/-- The accept loads the count of the next draining generation of its listener. -/
def count (addr : SocketAddr) : Option Runtime :=
  match s.accepting.find? fun a => a.addr = addr with
  | none => none
  | some a =>
      match a.todo with
      | [] => none
      | id :: todo =>
          some { s with
            accepting :=
              { a with todo, existing := a.existing + s.held a.port id } :: s.others addr }

/-- The accept ends: at the limit, or without a permit, the connection is refused. -/
def takePermit (addr : SocketAddr) : Option Runtime :=
  match s.accepting.find? fun a => a.addr = addr with
  | none => none
  | some a =>
      let s : Runtime := { s with accepting := s.others addr }
      if a.todo ≠ [] then none
      else if s.limit a.port a.generation ≤ a.existing then some s
      else some ((s.modify a.generation fun g => g.tryAcquire a.port).getD s)

/-- An open connection ends. -/
def close (port : Port) (id : Nat) : Option Runtime := s.modify id fun g => g.release port

/-! ## Replacing and reaping -/

/-- A commit takes over what was prepared: generations that are no longer active
drain.  A configuration that cannot be prepared changes nothing. -/
def commit (config : ServerConfig) (env : Surroundings) (source : String) : Option Runtime :=
  match s.change with
  | .none =>
      match prepare s.heap s.engine env config with
      | none => some s
      | some p =>
          some { s with
            heap := s.heap ++ p.fresh
            engine :=
              { s.engine with
                revision := s.engine.revision + 1
                source
                active := p.active
                draining := s.engine.draining ++ s.engine.active.filter fun id => id ∉ p.active }
            change := .publishing p }
  | _ => none

/-- Under the write lock no accept is under way.  Empty generations retire at once. -/
def publish : Option Runtime :=
  match s.change with
  | .publishing p =>
      if s.accepting ≠ [] then none
      else
        let draining := s.engine.draining.filter fun id => !s.empty id
        some { s with
          engine := { s.engine with draining }
          live := { listeners := s.engine.active, bindings := p.bindings, draining }
          change := .closing s.live p.sockets }
  | _ => none

/-- New sockets open, sockets without a binding close, and the table from before goes. -/
def finish : Option Runtime :=
  match s.change with
  | .closing _ sockets =>
      some { s with
        engine :=
          { s.engine with
            sockets := (s.engine.sockets ++ sockets).filter fun addr =>
              (s.live.bindings.lookup addr).isSome }
        change := .none }
  | _ => none

/-- The generations that have drained go; the table is published again if there were
any. -/
def reap : Option Runtime :=
  match s.change with
  | .none =>
      if s.engine.stopping then some s
      else
        let draining := s.engine.draining.filter fun id => !s.empty id
        if draining.length = s.engine.draining.length then some s
        else some { s with engine := { s.engine with draining }, change := .reaping }
  | _ => none

def publishReap : Option Runtime :=
  match s.change with
  | .reaping =>
      if s.accepting ≠ [] then none
      else some { s with
        live :=
          { listeners := s.engine.active
            bindings := s.live.bindings
            draining := s.engine.draining }
        change := .none }
  | _ => none

end Runtime

inductive RuntimeEvent where
  | dispatch (addr : SocketAddr)
  | count (addr : SocketAddr)
  | takePermit (addr : SocketAddr)
  | close (port : Port) (id : Nat)
  | commit (config : ServerConfig) (env : Surroundings) (source : String)
  | publish
  | finish
  | reap
  | publishReap

def Runtime.step (s : Runtime) : RuntimeEvent → Option Runtime
  | .dispatch addr => s.dispatch addr
  | .count addr => s.count addr
  | .takePermit addr => s.takePermit addr
  | .close port id => s.close port id
  | .commit config env source => s.commit config env source
  | .publish => s.publish
  | .finish => s.finish
  | .reap => s.reap
  | .publishReap => s.publishReap

def runtimeMachine : Machine Runtime RuntimeEvent where
  init s := s = .start
  step := Runtime.step

namespace Runtime

/-! ## Open connections -/

/-- The open connections of a port over all generations of a listener. -/
def total (s : Runtime) (port : Port) (label : Option String) : Nat :=
  tally (s.held port) ((List.range s.heap.length).filter fun id => s.label id = label)

/-- One count changes. -/
structure Counts (s s' : Runtime) (port : Port) (id : Nat) (value : Nat) : Prop where
  length : s'.heap.length = s.heap.length
  label : s'.label = s.label
  limit : s'.limit = s.limit
  held : s'.held port = Function.update (s.held port) id value
  others : ∀ other, other ≠ port → s'.held other = s.held other
  known : id < s.heap.length
  rest : s'.live = s.live ∧ s'.engine = s.engine ∧ s'.accepting = s.accepting ∧
    s'.change = s.change

theorem elim_set {β : Type} {heap : List Generation} {id : Nat} (known : id < heap.length)
    (g : Generation) (absent : β) (f : Generation → β) :
    (fun other : Nat => (heap.set id g)[other]?.elim absent f) =
      Function.update (fun other : Nat => heap[other]?.elim absent f) id (f g) := by
  funext other
  by_cases same : other = id
  · subst same
    rw [List.getElem?_set_self known, Option.elim_some, Function.update_self]
  · rw [List.getElem?_set_ne (Ne.symm same), Function.update_of_ne same]

/-- What a replaced generation has in common with the one before is unchanged. -/
theorem elim_set_same {β : Type} {heap : List Generation} {id : Nat} {g g' : Generation}
    (found : heap[id]? = some g) (absent : β) {f : Generation → β} (same : f g' = f g) :
    (fun other : Nat => (heap.set id g')[other]?.elim absent f) =
      fun other : Nat => heap[other]?.elim absent f := by
  rw [elim_set (List.getElem?_eq_some_iff.mp found).1, Function.update_eq_self_iff, found, same]
  rfl

theorem modify_counts {s s' : Runtime} {id : Nat} {port : Port}
    {f : Generation → Option Generation} (value : Nat → Nat)
    (changes : ∀ g g', f g = some g' → Generation.Counts g g' port ∧
      g'.held port = value (g.held port))
    (modified : s.modify id f = some s') :
    Counts s s' port id (value (s.held port id)) := by
  unfold modify at modified
  split at modified
  · cases modified
  · rename_i g found
    obtain ⟨g', changed, rfl⟩ := Option.map_eq_some_iff.mp modified
    obtain ⟨counts, now⟩ := changes g g' changed
    have known := (List.getElem?_eq_some_iff.mp found).1
    have label (heap : List Generation) :
        labelAt heap = fun id => heap[id]?.elim none fun g => some g.resolved.label := by
      funext id
      cases read : heap[id]? <;> simp [labelAt, read]
    constructor
    · simp
    · show labelAt _ = labelAt _
      rw [label, label]
      exact elim_set_same found none (congrArg (fun c => some c.label) counts.resolved)
    · funext port
      exact elim_set_same found 0 (congrArg (fun c => c.limit port) counts.resolved)
    · have before : value (s.held port id) = g'.held port := by rw [now, Runtime.held, found]; rfl
      rw [before]
      exact elim_set known g' 0 fun g => g.held port
    · intro other differs
      exact elim_set_same found 0 (counts.others other differs)
    · exact known
    · exact ⟨rfl, rfl, rfl, rfl⟩

theorem close_counts {s s' : Runtime} {port : Port} {id : Nat}
    (closed : s.close port id = some s') :
    Counts s s' port id (s.held port id - 1) := by
  refine modify_counts (fun held => held - 1) ?_ closed
  intro g g' released
  obtain ⟨counts, fewer⟩ := Generation.release_counts released
  exact ⟨counts, by omega⟩

end Runtime

end FleetRouter
