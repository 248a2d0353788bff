import Mathlib.Data.List.Find
import FleetRouter.Config.Servers
import FleetRouter.Config.Tls
import FleetRouter.Fleet.Hub
import FleetRouter.ChainApi.Probe

/-!
# The chain APIs of a listener's servers

The servers of a listener are numbered four times: for the state map, the hub's tips, the
chain API's upstreams and the slots of its directory.  Servers with a SHiP endpoint come
first, in the order of the configuration, and those with a chain API only come after them.
-/

namespace FleetRouter.ChainApi

open Ship Session Fleet Config Transition Chars

/-! ## Upstream APIs -/

/-- What the resolution reads of a `chain_api` section. -/
structure ChainApiConfig where
  listenPort : Fin (2 ^ 16)
  listenAddress : Option String
  pushServers : List String
  tls : Option Tls.TlsConfig

/-- One server's chain API as the router routes to it. -/
structure ApiUpstream where
  index : Nat
  name : String
  /-- The key of the server's state. -/
  endpoint : String
  role : Role
  api : ApiEndpoint
  priority : Nat
  weight : Nat
  range : Option Range

structure ResolvedChainApi where
  listener : Option String
  listenAddress : String
  bind : String
  cfg : ChainApiConfig
  /-- The indices of the push servers, in order. -/
  push : List Nat
  upstreams : List ApiUpstream
  tls : Option Tls.TlsConfig

/-- An IPv6 host gets its brackets. -/
def formatBindAddr (host : String) (port : Fin (2 ^ 16)) : String :=
  let host := trim host.toList
  if ':' ∈ host && host.head? ≠ some '[' then
    "[" ++ .ofList host ++ "]:" ++ toString port.val
  else .ofList host ++ ":" ++ toString port.val

/-- The upstream of a server that has a chain API. -/
def apiUpstream (http : UriParser) (index : Nat) (s : ServerEntry) : Option ApiUpstream :=
  s.apiEndpoint.bind fun raw => (ApiEndpoint.parse http raw.toList).toOption.map fun api =>
    { index
      name := s.name
      endpoint := s.endpoint
      role := s.role
      api
      priority := s.priority
      weight := max s.weight 1
      range := s.range }

/-- Numbers the enabled servers with two counters, whether they have a chain API or not. -/
def apiUpstreams (http : UriParser) (nextShipIdx nextHttpOnlyIdx : Nat) :
    List ServerEntry → List ApiUpstream
  | [] => []
  | s :: rest =>
      if s.hasShipEndpoint then
        (apiUpstream http nextShipIdx s).toList
          ++ apiUpstreams http (nextShipIdx + 1) nextHttpOnlyIdx rest
      else
        (apiUpstream http nextHttpOnlyIdx s).toList
          ++ apiUpstreams http nextShipIdx (nextHttpOnlyIdx + 1) rest

/-- The enabled servers with a SHiP endpoint. -/
def shipServers (servers : List ServerEntry) : List ServerEntry :=
  servers.filter fun s => s.enabled && s.hasShipEndpoint

def resolveChainApi (http : UriParser) (api : Option ChainApiConfig) (listener : Option String)
    (listenerAddress : String) (servers : List ServerEntry) (listenerTls : Option Tls.TlsConfig) :
    Option ResolvedChainApi :=
  api.map fun cfg =>
    let listenAddress :=
      (cfg.listenAddress.map fun address => String.ofList (trim address.toList)).getD
        listenerAddress
    let upstreams := apiUpstreams http 0 (shipServers servers).length (servers.filter (·.enabled))
    { listener
      listenAddress
      bind := formatBindAddr listenAddress cfg.listenPort
      cfg
      push := cfg.pushServers.filterMap fun name =>
        (upstreams.find? fun u => u.name = name && u.role = .live).map ApiUpstream.index
      upstreams
      tls := cfg.tls.or listenerTls }

/-! ## The hub and the directory -/

/-- What the hub knows of an upstream from the configuration. -/
structure UpstreamStatic where
  endpoint : String
  name : String
  url : String

/-- The hub's statics; it has one observed tip for each. -/
def hubStatics (servers : List ServerEntry) : List UpstreamStatic :=
  (shipServers servers).map fun s => ⟨s.endpoint, s.name, .ofList (dialUrl s.endpoint.toList)⟩

def ApiSlot.new (u : ApiUpstream) : ApiSlot where
  index := u.index
  endpoint := .ofList u.api.canonical
  role := u.role
  priority := u.priority
  weight := max u.weight 1
  declared := if u.role = .frozen then u.range else none

/-- A slot of the directory with what changes of it. -/
structure ApiCell where
  slot : ApiSlot
  state : ApiState
  cap : Nat
  inFlight : Nat

def directoryNew (upstreams : List ApiUpstream) (cap : Nat) : List ApiCell :=
  upstreams.map fun u => ⟨ApiSlot.new u, .default, max cap 1, 0⟩

theorem slots_directoryNew (upstreams : List ApiUpstream) (cap : Nat) :
    (directoryNew upstreams cap).map ApiCell.slot = upstreams.map ApiSlot.new := by
  rw [directoryNew, List.map_map]
  rfl

/-- Every API as a request sees it: view and tips are read at the index of its slot. -/
def directorySnapshot (cells : List ApiCell) (v : FleetView) (tips : List ObservedTip) (now : Nat) :
    List ApiView :=
  cells.map fun c =>
    snapshot c.slot c.state c.cap ⟨v.up c.slot.index, tips[c.slot.index]?, now, c.inFlight⟩

/-! ## Numbers -/

section Numbers

variable {http : UriParser} {servers : List ServerEntry} {u : ApiUpstream}
    {s : ServerEntry} {i j : Nat}

/-- The upstream has the data of the server and its API. -/
structure ApiUpstream.Of (http : UriParser) (u : ApiUpstream) (s : ServerEntry) : Prop where
  name : u.name = s.name
  endpoint : u.endpoint = s.endpoint
  role : u.role = s.role
  priority : u.priority = s.priority
  weight : u.weight = max s.weight 1
  range : u.range = s.range
  api : ∃ raw, s.apiEndpoint = some raw ∧ ApiEndpoint.parse http raw.toList = .ok u.api

theorem of_apiUpstream (found : apiUpstream http i s = some u) : u.Of http s ∧ u.index = i := by
  obtain ⟨raw, isRaw, parsed⟩ := Option.bind_eq_some_iff.mp found
  obtain ⟨api, isApi, rfl⟩ := Option.map_eq_some_iff.mp parsed
  refine ⟨⟨rfl, rfl, rfl, rfl, rfl, rfl, raw, isRaw, ?_⟩, rfl⟩
  cases read : ApiEndpoint.parse http raw.toList with
  | error err =>
      rw [read] at isApi
      cases isApi
  | ok api' =>
      rw [read] at isApi
      cases isApi
      rfl

/-- Where the number of an upstream comes from: the place of its server among those with a
SHiP endpoint, or the second counter. -/
structure ApiUpstream.Numbered (u : ApiUpstream) (servers : List ServerEntry) (i j : Nat)
    (s : ServerEntry) : Prop where
  ship : s.hasShipEndpoint = true →
    ∃ k, (servers.filter ServerEntry.hasShipEndpoint)[k]? = some s ∧ u.index = i + k
  httpOnly : s.hasShipEndpoint = false → j ≤ u.index

theorem numbered_apiUpstreams (member : u ∈ apiUpstreams http i j servers) :
    ∃ s ∈ servers, u.Of http s ∧ u.Numbered servers i j s := by
  induction servers generalizing i j with
  | nil => cases member
  | cons s rest ih =>
      rw [apiUpstreams] at member
      split at member
      · rename_i isShip
        rcases List.mem_append.mp member with here | later
        · obtain ⟨isOf, index⟩ := of_apiUpstream (Option.mem_toList.mp here)
          refine ⟨s, List.mem_cons_self .., isOf, fun _ => ⟨0, ?_, index⟩, ?_⟩
          · rw [List.filter_cons_of_pos isShip, List.getElem?_cons_zero]
          · exact fun httpOnly => absurd isShip (by simp [httpOnly])
        · obtain ⟨s', listed, isOf, numbered⟩ := ih later
          refine ⟨s', List.mem_cons_of_mem _ listed, isOf, fun ship => ?_, numbered.httpOnly⟩
          obtain ⟨k, isAt, index⟩ := numbered.ship ship
          refine ⟨k + 1, ?_, by omega⟩
          rwa [List.filter_cons_of_pos isShip, List.getElem?_cons_succ]
      · rename_i notShip
        rcases List.mem_append.mp member with here | later
        · obtain ⟨isOf, index⟩ := of_apiUpstream (Option.mem_toList.mp here)
          exact ⟨s, List.mem_cons_self .., isOf, fun ship => absurd ship notShip, fun _ => index.ge⟩
        · obtain ⟨s', listed, isOf, numbered⟩ := ih later
          refine ⟨s', List.mem_cons_of_mem _ listed, isOf, fun ship => ?_, fun httpOnly => ?_⟩
          · rw [List.filter_cons_of_neg notShip]
            exact numbered.ship ship
          · exact (Nat.le_succ j).trans (numbered.httpOnly httpOnly)

/-- The first counter stays below the second. -/
theorem index_bounds (member : u ∈ apiUpstreams http i j servers) :
    (i ≤ u.index ∧ u.index < i + (servers.filter ServerEntry.hasShipEndpoint).length) ∨
      j ≤ u.index := by
  obtain ⟨s, -, -, numbered⟩ := numbered_apiUpstreams member
  cases kind : s.hasShipEndpoint with
  | false => exact .inr (numbered.httpOnly kind)
  | true =>
      obtain ⟨k, isAt, index⟩ := numbered.ship kind
      have bound := (List.getElem?_eq_some_iff.mp isAt).1
      exact .inl (by omega)

theorem nodup_apiUpstreams (room : i + (servers.filter ServerEntry.hasShipEndpoint).length ≤ j) :
    ((apiUpstreams http i j servers).map ApiUpstream.index).Nodup := by
  induction servers generalizing i j with
  | nil => exact List.nodup_nil
  | cons s rest ih =>
      have fresh (index : Nat) {later : List ApiUpstream}
          (distinct : (later.map ApiUpstream.index).Nodup)
            (differs : ∀ u ∈ later, u.index ≠ index) :
          (((apiUpstream http index s).toList ++ later).map ApiUpstream.index).Nodup := by
        cases found : apiUpstream http index s with
        | none => exact distinct
        | some u =>
            refine List.nodup_cons.mpr ⟨fun member => ?_, distinct⟩
            obtain ⟨w, isLater, same⟩ := List.mem_map.mp member
            exact differs w isLater (same.trans (of_apiUpstream found).2)
      rw [apiUpstreams]
      split
      · rename_i isShip
        rw [List.filter_cons_of_pos isShip, List.length_cons] at room
        apply fresh i (ih (by omega))
        intro u member
        have bounds := index_bounds member
        omega
      · rename_i notShip
        rw [List.filter_cons_of_neg notShip] at room
        apply fresh j (ih (by omega))
        intro u member
        have bounds := index_bounds member
        omega

end Numbers

/-! ## Endpoints -/

section Endpoints

variable {http : UriParser} {listenerCtx : Option String} {servers : List ServerEntry}

/-- A server that passes is not dialed, or has a new dial target. -/
theorem checkServers_cons {seen : List (Chars.Text × String)} {s : ServerEntry}
    (valid : checkServers http listenerCtx seen (s :: servers) = .ok ()) :
    ((s.enabled && s.hasShipEndpoint) = false ∧
      checkServers http listenerCtx seen servers = .ok ()) ∨
    ((s.enabled && s.hasShipEndpoint) = true ∧
      ∃ identity, upstreamIdentity http s.endpoint.toList = .ok identity ∧
        seen.lookup identity = none ∧
        checkServers http listenerCtx ((identity, s.endpoint) :: seen) servers = .ok ()) := by
  rw [checkServers] at valid
  cases kind : s.hasShipEndpoint with
  | false =>
      simp only [kind, Bool.not_false, if_true] at valid
      refine .inl ⟨Bool.and_false _, ?_⟩
      split at valid
      · split at valid
        · cases valid
        · split at valid
          · cases valid
          · exact valid
      · split at valid
        · cases valid
        · exact valid
  | true =>
      simp only [kind, Bool.not_true, Bool.false_eq_true, if_false] at valid
      split at valid
      · cases valid
      · rename_i identity isIdentity
        split at valid
        · cases valid
        · split at valid
          · rename_i disabled
            exact .inl ⟨by simpa using disabled, valid⟩
          · rename_i enabled
            split at valid
            · cases valid
            · exact .inr ⟨by simpa using enabled, identity, isIdentity, ‹_›, valid⟩

/-- The keys differ from one another and from those seen before. -/
structure Fresh {κ α : Type} [BEq κ] (seen : List (κ × α)) (keys : List κ) : Prop where
  nodup : keys.Nodup
  unseen : ∀ key ∈ keys, seen.lookup key = none

theorem Fresh.nil {κ α : Type} [BEq κ] (seen : List (κ × α)) : Fresh seen [] :=
  ⟨List.nodup_nil, List.forall_mem_nil _⟩

theorem Fresh.cons {κ α : Type} [BEq κ] [LawfulBEq κ] {seen : List (κ × α)} {key : κ} {a : α}
    {keys : List κ} (unseen : seen.lookup key = none) (later : Fresh ((key, a) :: seen) keys) :
    Fresh seen (key :: keys) := by
  constructor
  · refine List.nodup_cons.mpr ⟨fun again => ?_, later.nodup⟩
    have absent := later.unseen key again
    rw [List.lookup_cons_self] at absent
    cases absent
  · refine List.forall_mem_cons.mpr ⟨unseen, fun other member => ?_⟩
    have absent := later.unseen other member
    rw [List.lookup_cons] at absent
    split at absent
    · cases absent
    · exact absent

/-- The servers that are dialed have different dial targets. -/
theorem identities_of_checkServers {seen : List (Chars.Text × String)}
    (valid : checkServers http listenerCtx seen servers = .ok ()) :
    ∃ identities, Fresh seen identities ∧
      (shipServers servers).map (fun s => upstreamIdentity http s.endpoint.toList) =
        identities.map .ok := by
  induction servers generalizing seen with
  | nil => exact ⟨[], .nil seen, rfl⟩
  | cons s rest ih =>
      rcases checkServers_cons valid with
        ⟨skipped, later⟩ | ⟨kept, identity, isIdentity, unseen, later⟩
      · rw [shipServers, List.filter_cons_of_neg (by simp [skipped])]
        exact ih later
      · obtain ⟨identities, fresh, same⟩ := ih later
        refine ⟨identity :: identities, fresh.cons unseen, ?_⟩
        have cons : shipServers (s :: rest) = s :: shipServers rest := List.filter_cons_of_pos kept
        rw [cons, List.map_cons, List.map_cons, isIdentity, same]

/-- Servers with one endpoint have one dial target, which validation refuses. -/
theorem nodup_of_validateServers (valid : validateServers http listenerCtx servers = .ok ()) :
    ((shipServers servers).map ServerEntry.endpoint).Nodup := by
  rw [validateServers] at valid
  split at valid
  · cases valid
  · split at valid
    · cases valid
    · obtain ⟨identities, fresh, same⟩ := identities_of_checkServers valid
      apply List.Nodup.of_map fun endpoint => upstreamIdentity http endpoint.toList
      rw [List.map_map]
      exact same ▸ fresh.nodup.map fun _ _ => Except.ok.inj

/-- The chain API of a server, if it has one that can be read. -/
def apiOf (http : UriParser) (s : ServerEntry) : Option ApiEndpoint :=
  s.apiEndpoint.bind fun raw => (ApiEndpoint.parse http raw.toList).toOption

/-- A server that passes has no chain API, is disabled, or has a new address. -/
theorem checkApiEndpoints_cons {seen : List ((Chars.Text × Fin (2 ^ 16)) × String)}
    {s : ServerEntry} (valid : checkApiEndpoints http listenerCtx seen (s :: servers) = .ok ()) :
    ((s.apiEndpoint = none ∨ s.enabled = false) ∧
      checkApiEndpoints http listenerCtx seen servers = .ok ()) ∨
    (s.enabled = true ∧ ∃ api, apiOf http s = some api ∧ seen.lookup api.key = none ∧
      checkApiEndpoints http listenerCtx ((api.key, s.name) :: seen) servers = .ok ()) := by
  rw [checkApiEndpoints] at valid
  split at valid
  · exact .inl ⟨.inl ‹_›, valid⟩
  · rename_i raw isRaw
    split at valid
    · cases valid
    · cases valid
    · rename_i api parsed
      split at valid
      · rename_i disabled
        exact .inl ⟨.inr (by simpa using disabled), valid⟩
      · rename_i enabled
        split at valid
        · cases valid
        · refine .inr ⟨by simpa using enabled, api, ?_, ‹_›, valid⟩
          rw [apiOf, isRaw, Option.bind_some, parsed]
          rfl

/-- The addresses of the enabled servers can be read and differ. -/
theorem apis_of_checkApiEndpoints {seen : List ((Chars.Text × Fin (2 ^ 16)) × String)}
    (valid : checkApiEndpoints http listenerCtx seen servers = .ok ()) :
    Fresh seen (((servers.filter (·.enabled)).filterMap (apiOf http)).map ApiEndpoint.key) ∧
      ∀ s ∈ servers.filter (·.enabled), s.apiEndpoint ≠ none → (apiOf http s).isSome = true := by
  induction servers generalizing seen with
  | nil => exact ⟨.nil seen, List.forall_mem_nil _⟩
  | cons s rest ih =>
      rcases checkApiEndpoints_cons valid with
        ⟨noApi | disabled, later⟩ | ⟨enabled, api, isApi, unseen, later⟩
      · obtain ⟨fresh, read⟩ := ih later
        have unread : apiOf http s = none := by rw [apiOf, noApi, Option.bind_none]
        rw [List.filter_cons]
        split
        · rw [List.filterMap_cons_none unread]
          exact ⟨fresh, List.forall_mem_cons.mpr ⟨fun has => absurd noApi has, read⟩⟩
        · exact ⟨fresh, read⟩
      · rw [List.filter_cons_of_neg (by simp [disabled])]
        exact ih later
      · obtain ⟨fresh, read⟩ := ih later
        rw [List.filter_cons_of_pos enabled, List.filterMap_cons_some isApi, List.map_cons]
        refine ⟨fresh.cons unseen, List.forall_mem_cons.mpr ⟨fun _ => ?_, read⟩⟩
        rw [isApi, Option.isSome_some]

theorem api_apiUpstream (index : Nat) (s : ServerEntry) :
    (apiUpstream http index s).map ApiUpstream.api = apiOf http s := by
  simp [apiUpstream, apiOf, Option.map_bind, Function.comp_def]

theorem unnumbered_apiUpstream (index : Nat) (s : ServerEntry) :
    (apiUpstream http index s).map (fun u => { u with index := 0 }) = apiUpstream http 0 s := by
  simp [apiUpstream, Option.map_bind, Function.comp_def]

/-- Apart from their numbers, the upstreams are those of the servers in order. -/
theorem unnumbered_apiUpstreams (i j : Nat) :
    (apiUpstreams http i j servers).map (fun u => { u with index := 0 }) =
      servers.filterMap (apiUpstream http 0) := by
  induction servers generalizing i j with
  | nil => rfl
  | cons s rest ih =>
      rw [apiUpstreams, List.filterMap_cons]
      split <;> rw [List.map_append, ih, ← Option.toList_map, unnumbered_apiUpstream] <;>
        cases apiUpstream http 0 s <;> rfl

theorem apis_apiUpstreams (i j : Nat) :
    (apiUpstreams http i j servers).map ApiUpstream.api = servers.filterMap (apiOf http) := by
  have same : servers.filterMap (apiOf http) =
      (servers.filterMap (apiUpstream http 0)).map ApiUpstream.api := by
    simp [List.map_filterMap, api_apiUpstream]
  rw [same, ← unnumbered_apiUpstreams i j, List.map_map]
  rfl

theorem exists_apiUpstream {s : ServerEntry} (listed : s ∈ servers)
    (isApi : (apiOf http s).isSome = true) (i j : Nat) :
    ∃ u ∈ apiUpstreams http i j servers, u.Of http s := by
  rw [← api_apiUpstream 0, Option.isSome_map] at isApi
  obtain ⟨v, isUpstream⟩ := Option.isSome_iff_exists.mp isApi
  have found := List.mem_filterMap.mpr ⟨s, listed, isUpstream⟩
  rw [← unnumbered_apiUpstreams i j] at found
  obtain ⟨u, member, rfl⟩ := List.mem_map.mp found
  obtain ⟨isOf, -⟩ := of_apiUpstream isUpstream
  exact ⟨u, member, { isOf with }⟩

/-- Every enabled server with a chain API has one among the resolved ones, and no two of these
have one address. -/
theorem addresses_distinct {listener : Option String} {listenerAddress : String}
    {listenerTls : Option Tls.TlsConfig} {cfg : ChainApiConfig} {resolved : ResolvedChainApi}
    (valid : validateApiEndpoints http listenerCtx servers = .ok ())
    (isResolved : resolveChainApi http (some cfg) listener listenerAddress servers listenerTls =
      some resolved) :
    (resolved.upstreams.map fun u => u.api.key).Nodup ∧
      ∀ s ∈ servers, s.enabled = true → s.apiEndpoint ≠ none →
        ∃ u ∈ resolved.upstreams, u.Of http s := by
  obtain ⟨fresh, read⟩ := apis_of_checkApiEndpoints valid
  cases isResolved
  constructor
  · rw [← apis_apiUpstreams 0 (shipServers servers).length, List.map_map] at fresh
    exact fresh.nodup
  · intro s listed enabled has
    have member := List.mem_filter.mpr ⟨listed, enabled⟩
    exact exists_apiUpstream member (read s member has) ..

end Endpoints

/-! ## The state map -/

section States

variable {servers : List ServerEntry} {expectedChainId : Option Checksum} {requireChainId : Bool}

/-- Each endpoint with the index of its state. -/
def dbPairs (db : StateDb) : List (String × Nat) := db.entries.map fun e => (e.1, e.2.index)

def statePairs (states : StateMap) : List (String × Nat) :=
  states.entries.map fun e => (e.1, e.2.index)

/-- The state map the listener starts with. -/
def stateDb (servers : List ServerEntry)
    (expectedChainId : Option Checksum) (requireChainId : Bool) :
    StateDb :=
  .build (servers.map ServerEntry.monitored) expectedChainId requireChainId

theorem collect_eq_self {α : Type} {entries : List (String × α)}
    (distinct : (entries.map Prod.fst).Nodup) : collect entries = entries := by
  induction entries with
  | nil => rfl
  | cons entry rest ih =>
      obtain ⟨fresh, later⟩ := List.nodup_cons.mp distinct
      rw [collect, ih later, if_neg]
      intro again
      obtain ⟨other, member, same⟩ := List.any_eq_true.mp again
      exact fresh (List.mem_map.mpr ⟨other, member, of_decide_eq_true same⟩)

/-- States are numbered as the servers with a SHiP endpoint stand in the configuration. -/
theorem dbPairs_stateDb (distinct : ((shipServers servers).map ServerEntry.endpoint).Nodup) :
    dbPairs (stateDb servers expectedChainId requireChainId) =
      (shipServers servers).zipIdx.map fun entry => (entry.1.endpoint, entry.2) := by
  have kept : ((servers.map ServerEntry.monitored).filter fun s => s.enabled && s.hasShipEndpoint) =
      (shipServers servers).map ServerEntry.monitored := List.filter_map
  rw [dbPairs, stateDb, StateDb.build]
  simp only [kept]
  rw [collect_eq_self, List.zipIdx_map, List.map_map, List.map_map]
  · rfl
  · rw [← List.zipIdx_map_fst 0 (shipServers servers), List.map_map] at distinct
    rw [List.zipIdx_map, List.map_map, List.map_map]
    exact distinct

theorem mem_dbPairs (distinct : ((shipServers servers).map ServerEntry.endpoint).Nodup)
    {endpoint : String} {index : Nat} :
    (endpoint, index) ∈ dbPairs (stateDb servers expectedChainId requireChainId) ↔
      ∃ s, (shipServers servers)[index]? = some s ∧ s.endpoint = endpoint := by
  rw [dbPairs_stateDb distinct]
  simp only [List.mem_map, List.mem_zipIdx_iff_getElem?, Prod.mk.injEq, Prod.exists]
  constructor
  · rintro ⟨s, _, isAt, same, rfl⟩
    exact ⟨s, isAt, same⟩
  · rintro ⟨s, isAt, same⟩
    exact ⟨s, index, isAt, same, rfl⟩

theorem lookup_of_mem_dbPairs {db : StateDb} {endpoint : String} {index : Nat}
    (member : (endpoint, index) ∈ dbPairs db) :
    (db.entries.lookup endpoint).map (fun state => state.index) = some index := by
  obtain ⟨⟨key, state⟩, listed, same⟩ := List.mem_map.mp member
  obtain ⟨rfl, rfl⟩ := Prod.mk.inj same
  obtain ⟨before, after, split⟩ := List.append_of_mem listed
  have found : db.entries.lookup key = some state := by
    refine List.lookup_eq_some_iff.mpr ⟨before, after, split, fun entry earlier => ?_⟩
    have nodup := db.nodup
    rw [split, List.map_append, List.map_cons] at nodup
    have differs := (List.nodup_append.mp nodup).2.2 entry.1 (List.mem_map_of_mem earlier) key
      (List.mem_cons_self ..)
    exact bne_iff_ne.mpr differs.symm
  rw [found]
  rfl

theorem dbPairs_of_reachable {allowed : Monitor → MonitorEvent → Prop} {m : Monitor}
    (reachable : Reachable
      (Monitor.machine (servers.map ServerEntry.monitored) expectedChainId requireChainId)
      allowed m) :
    dbPairs m.db = dbPairs (stateDb servers expectedChainId requireChainId) := by
  apply reachable.invariant (P := fun m =>
    dbPairs m.db = dbPairs (stateDb servers expectedChainId requireChainId))
  · rintro m rfl
    rfl
  · intro m e m' _ before _ step
    have same := Monitor.map_step (g := fun e => (e.1, e.2.index)) step
      fun endpoint _ _ kept => congrArg (Prod.mk endpoint) kept
    exact same.trans before

end States

/-! ## Runs of the hub -/

/-- The state maps a hub is rebuilt from keep the endpoints and indices of the first one. -/
def KeepsPairs (db : StateDb) (_ : HubRun) : HubEvent → Prop
  | .rebuild states _ => (statePairs states).Perm (dbPairs db)
  | .freshTip _ _ | .observe _ _ _ => True

/-- The upstreams of the view are servers with a SHiP endpoint, at their places. -/
structure ViewNumbered (servers : List ServerEntry) (v : FleetView) : Prop where
  distinct : (v.upstreams.map UpstreamView.index).Nodup
  numbered : ∀ w ∈ v.upstreams,
    ∃ s, (shipServers servers)[w.index]? = some s ∧ s.endpoint = w.endpoint

section Runs

variable {servers : List ServerEntry} {expectedChainId : Option Checksum} {requireChainId : Bool}
  {ctx : BuildCtx} {start : Nat} {r : HubRun} {v : FleetView}

theorem viewNumbered_rebuild (distinct : ((shipServers servers).map ServerEntry.endpoint).Nodup)
    {states : StateMap}
    (pairs : (statePairs states).Perm (dbPairs (stateDb servers expectedChainId requireChainId)))
    (hub : Hub) (now generation : Nat) :
    ViewNumbered servers { (hub.rebuild ctx states now).1 with generation } := by
  rw [Hub.rebuild_fst]
  obtain ⟨ok, upstreams⟩ := exists_upstreams_buildView ctx states hub.tips hub.mem now
  constructor
  · exact FleetView.IsBuild.distinct (v := (buildView ctx states hub.tips hub.mem now).1)
      ⟨ctx, states, hub.tips, hub.mem, now, rfl⟩
  · intro w member
    change w ∈ (buildView ctx states hub.tips hub.mem now).1.upstreams at member
    rw [upstreams] at member
    obtain ⟨entry, listed, rfl⟩ := List.mem_map.mp member
    have paired : (entry.1, entry.2.index) ∈ statePairs states :=
      List.mem_map_of_mem (f := fun e : String × ServerState => (e.1, e.2.index))
        (mem_sorted.mp listed)
    exact (mem_dbPairs distinct).mp (pairs.mem_iff.mp paired)

/-- What a run of the hub keeps. -/
structure HubNumbered (servers : List ServerEntry) (r : HubRun) : Prop where
  tips : r.hub.tips.length = (hubStatics servers).length
  views : ∀ v ∈ r.hub.published, ViewNumbered servers v

theorem hubNumbered_of_reachable (distinct : ((shipServers servers).map ServerEntry.endpoint).Nodup)
    (reachable : Reachable (hubMachine ctx (hubStatics servers).length start)
      (KeepsPairs (stateDb servers expectedChainId requireChainId)) r) : HubNumbered servers r := by
  apply reachable.invariant (P := HubNumbered servers)
  · rintro r rfl
    constructor
    · exact List.length_replicate
    · intro v published
      rw [List.mem_singleton.mp published]
      exact ⟨List.nodup_nil, List.forall_mem_nil _⟩
  · intro r e r' _ before keeps step
    rcases HubRun.step_cases step with ⟨states, now, rfl, rfl⟩ | ⟨back, now, v, rfl, -, rfl⟩ |
      ⟨index, head, lib, rfl, rfl⟩
    · constructor
      · exact (congrArg List.length (Hub.rebuild_tips ..)).trans before.tips
      · intro v published
        rcases Hub.mem_published_rebuild ctx r.hub states now published with
          older | ⟨generation, rfl⟩
        · exact before.views v older
        · exact viewNumbered_rebuild distinct keeps r.hub now generation
    · exact ⟨before.tips, before.views⟩
    · constructor
      · exact (List.length_modify ..).trans before.tips
      · exact before.views

end Runs

/-! ## What a snapshot reads -/

/-- What the listener knows of a server, looked up by endpoint and not by number. -/
def serverSight (servers : List ServerEntry) (s : ServerEntry) (v : FleetView)
    (tips : List ObservedTip) (now inFlight : Nat) : Sight where
  upstream := v.upstreams.find? fun w => w.endpoint = s.endpoint
  tip := ((hubStatics servers).findIdx? fun known => known.endpoint = s.endpoint).bind (tips[·]?)
  now
  inFlight

section Sights

variable {servers : List ServerEntry} {s : ServerEntry} {v : FleetView} {index : Nat}

theorem up_eq_find? (distinct : (v.upstreams.map UpstreamView.index).Nodup) :
    v.up index = v.upstreams.find? fun w => w.index = index := by
  unfold FleetView.up
  split
  · rename_i u direct
    split
    · rename_i same
      have listed := List.mem_of_getElem? direct
      obtain ⟨w, found⟩ : ∃ w, v.upstreams.find? (fun w => decide (w.index = index)) = some w :=
        Option.isSome_iff_exists.mp (List.find?_isSome.mpr ⟨u, listed, decide_eq_true same⟩)
      have hit : w.index = index := by simpa using List.find?_some found
      rw [found, List.inj_on_of_nodup_map distinct listed (List.mem_of_find?_eq_some found)
        (same.trans hit.symm)]
    · rfl
  · rfl

/-- Servers with a SHiP endpoint have the same place when they have the same endpoint. -/
theorem place_unique (distinct : ((shipServers servers).map ServerEntry.endpoint).Nodup)
    {i j : Nat} {s t : ServerEntry} (first : (shipServers servers)[i]? = some s)
    (second : (shipServers servers)[j]? = some t) (same : s.endpoint = t.endpoint) : i = j := by
  have bound := (List.getElem?_eq_some_iff.mp first).1
  apply (List.getElem?_inj (by simpa using bound) distinct).mp
  rw [List.getElem?_map, List.getElem?_map, first, second, Option.map_some, Option.map_some, same]

theorem up_of_ship (distinct : ((shipServers servers).map ServerEntry.endpoint).Nodup)
    (view : ViewNumbered servers v) (isAt : (shipServers servers)[index]? = some s) :
    v.up index = v.upstreams.find? fun w => w.endpoint = s.endpoint := by
  rw [up_eq_find? view.distinct]
  apply List.find?_congr
  intro w listed
  obtain ⟨t, place, endpoint⟩ := view.numbered w listed
  apply decide_eq_decide.mpr
  constructor
  · rintro rfl
    rw [isAt] at place
    cases place
    exact endpoint.symm
  · intro same
    exact place_unique distinct place isAt (endpoint.trans same)

theorem tip_of_ship (distinct : ((shipServers servers).map ServerEntry.endpoint).Nodup)
    (isAt : (shipServers servers)[index]? = some s) :
    ((hubStatics servers).findIdx? fun known => known.endpoint = s.endpoint) = some index := by
  obtain ⟨bound, isServer⟩ := List.getElem?_eq_some_iff.mp isAt
  refine List.findIdx?_eq_some_iff_getElem.mpr ⟨by simpa [hubStatics] using bound, ?_, ?_⟩
  · simp [hubStatics, isServer]
  · intro j before again
    have bound' := before.trans bound
    have place := place_unique distinct (List.getElem?_eq_getElem bound') isAt
      (by simpa [hubStatics] using again)
    omega

/-- A server without a SHiP endpoint shares its endpoint with none that has one. -/
theorem endpoint_ne (httpOnly : s.hasShipEndpoint = false) {t : ServerEntry}
    (listed : t ∈ shipServers servers) : t.endpoint ≠ s.endpoint := by
  intro same
  have ship : t.hasShipEndpoint = true := (Bool.and_eq_true_iff.mp (List.mem_filter.mp listed).2).2
  rw [ServerEntry.hasShipEndpoint, same] at ship
  rw [ServerEntry.hasShipEndpoint, ship] at httpOnly
  cases httpOnly

theorem ViewNumbered.index_lt (view : ViewNumbered servers v) {w : UpstreamView}
    (listed : w ∈ v.upstreams) : w.index < (shipServers servers).length := by
  obtain ⟨t, place, -⟩ := view.numbered w listed
  exact (List.getElem?_eq_some_iff.mp place).1

theorem sight_of_httpOnly (view : ViewNumbered servers v) (httpOnly : s.hasShipEndpoint = false)
    (beyond : (shipServers servers).length ≤ index) {tips : List ObservedTip}
    (count : tips.length = (hubStatics servers).length) (now inFlight : Nat) :
    (⟨v.up index, tips[index]?, now, inFlight⟩ : Sight) =
      serverSight servers s v tips now inFlight := by
  have unlisted : v.up index = none := by
    cases found : v.up index with
    | none => rfl
    | some w =>
        obtain ⟨listed, rfl⟩ := FleetView.up_mem found
        exact absurd (view.index_lt listed) beyond.not_gt
  have unknown : v.upstreams.find? (fun w => decide (w.endpoint = s.endpoint)) = none := by
    apply List.find?_eq_none.mpr
    intro w listed same
    obtain ⟨t, place, endpoint⟩ := view.numbered w listed
    exact endpoint_ne httpOnly (List.mem_of_getElem? place) (endpoint.trans (by simpa using same))
  have noTip : tips[index]? = none := by
    apply List.getElem?_eq_none
    rw [count, hubStatics, List.length_map]
    exact beyond
  have noStatic :
      ((hubStatics servers).findIdx? fun known => known.endpoint = s.endpoint) = none := by
    apply List.findIdx?_eq_none_iff.mpr
    intro known member
    obtain ⟨t, listed, rfl⟩ := List.mem_map.mp member
    exact decide_eq_false (endpoint_ne httpOnly listed)
  rw [serverSight, unlisted, unknown, noTip, noStatic]
  rfl

theorem sight_of_ship (distinct : ((shipServers servers).map ServerEntry.endpoint).Nodup)
    (view : ViewNumbered servers v) (isAt : (shipServers servers)[index]? = some s)
    (tips : List ObservedTip) (now inFlight : Nat) :
    (⟨v.up index, tips[index]?, now, inFlight⟩ : Sight) =
      serverSight servers s v tips now inFlight := by
  rw [serverSight, up_of_ship distinct view isAt, tip_of_ship distinct isAt]
  rfl

end Sights

/-! ## One server, one number -/

/-- The resolved APIs have distinct numbers.  Each is the API of one enabled server: with a
SHiP endpoint its number is that of the endpoint's state, whatever the monitor did, and of
the hub's statics; without one it is a number no view and no tip has.  A snapshot reads of
every API what is known of its own server. -/
theorem apis_match_servers {http : UriParser} {listenerCtx listener : Option String}
    {listenerAddress : String} {listenerTls : Option Tls.TlsConfig} {servers : List ServerEntry}
    {cfg : ChainApiConfig} {resolved : ResolvedChainApi}
    (valid : validateServers http listenerCtx servers = .ok ())
    (isResolved : resolveChainApi http (some cfg) listener listenerAddress servers listenerTls =
      some resolved) :
    (resolved.upstreams.map ApiUpstream.index).Nodup ∧
    ∀ (p : Nat) (u : ApiUpstream), resolved.upstreams[p]? = some u →
      ∃ s ∈ servers, s.enabled = true ∧ u.Of http s ∧
      (s.hasShipEndpoint = true →
        (∀ expectedChainId requireChainId m,
          Reachable
            (Monitor.machine (servers.map ServerEntry.monitored) expectedChainId requireChainId)
            (fun _ _ => True) m →
          (m.db.entries.lookup u.endpoint).map (fun state => state.index) = some u.index) ∧
        (hubStatics servers)[u.index]?.map UpstreamStatic.endpoint = some u.endpoint) ∧
      (s.hasShipEndpoint = false → (shipServers servers).length ≤ u.index) ∧
      ∀ ctx start expectedChainId requireChainId r,
        Reachable (hubMachine ctx (hubStatics servers).length start)
          (KeepsPairs (stateDb servers expectedChainId requireChainId)) r →
        r.hub.tips.length = (hubStatics servers).length ∧
        ∀ v ∈ r.hub.published,
          (s.hasShipEndpoint = false →
            r.hub.tips[u.index]? = none ∧ ∀ w ∈ v.upstreams, w.index ≠ u.index) ∧
          ∀ (cells : List ApiCell) (now : Nat),
            cells.map ApiCell.slot = resolved.upstreams.map ApiSlot.new →
            ∀ c : ApiCell, cells[p]? = some c →
              (directorySnapshot cells v r.hub.tips now)[p]? =
                some (snapshot (ApiSlot.new u) c.state c.cap
                  (serverSight servers s v r.hub.tips now c.inFlight)) := by
  have distinct := nodup_of_validateServers valid
  have twice :
      (servers.filter (·.enabled)).filter ServerEntry.hasShipEndpoint = shipServers servers := by
    rw [List.filter_filter, shipServers]
    simp only [Bool.and_comm]
  cases isResolved
  constructor
  · apply nodup_apiUpstreams
    rw [twice, Nat.zero_add]
  · intro p u isAt
    obtain ⟨s, listed, isOf, numbered⟩ := numbered_apiUpstreams (List.mem_of_getElem? isAt)
    obtain ⟨inServers, enabled⟩ := List.mem_filter.mp listed
    have place (ship : s.hasShipEndpoint = true) : (shipServers servers)[u.index]? = some s := by
      obtain ⟨k, isPlace, index⟩ := numbered.ship ship
      rw [index, Nat.zero_add, ← twice]
      exact isPlace
    refine ⟨s, inServers, enabled, isOf, fun ship => ⟨?_, ?_⟩, numbered.httpOnly, ?_⟩
    · intro expectedChainId requireChainId m reachable
      apply lookup_of_mem_dbPairs
      rw [dbPairs_of_reachable reachable, isOf.endpoint]
      exact (mem_dbPairs distinct).mpr ⟨s, place ship, rfl⟩
    · rw [hubStatics, List.getElem?_map, place ship, isOf.endpoint]
      rfl
    · intro ctx start expectedChainId requireChainId r reachable
      have hub := hubNumbered_of_reachable distinct reachable
      refine ⟨hub.tips, fun v published => ?_⟩
      have view := hub.views v published
      constructor
      · intro httpOnly
        have beyond := numbered.httpOnly httpOnly
        refine ⟨List.getElem?_eq_none ?_, fun w inView => ?_⟩
        · rw [hub.tips, hubStatics, List.length_map]
          exact beyond
        · exact ((view.index_lt inView).trans_le beyond).ne
      · intro cells now slots c isCell
        have slot : c.slot = ApiSlot.new u := by
          have same := congrArg (fun slots => slots[p]?) slots
          simp only [List.getElem?_map, isCell, isAt, Option.map_some] at same
          exact Option.some.inj same
        rw [directorySnapshot, List.getElem?_map, isCell, Option.map_some, slot]
        congr 2
        cases kind : s.hasShipEndpoint with
        | false =>
          exact sight_of_httpOnly view kind (numbered.httpOnly kind) hub.tips now c.inFlight
        | true => exact sight_of_ship distinct view (place kind) r.hub.tips now c.inFlight

/-- A parser for addresses without paths. -/
def plainParser : UriParser where
  uri text := .ok ⟨some ['w', 's'], some ⟨text, text, none⟩, [], none⟩
  authority text := some ⟨text, text.takeWhile (· ≠ ':'), none⟩

/-- An API without SHiP, a disabled server and a server with both. -/
def mixedServers : List ServerEntry :=
  [ ⟨"api", "", true, .live, none, none, 0, 1, some "a:1"⟩
  , ⟨"off", "b", false, .live, none, none, 0, 1, none⟩
  , ⟨"both", "c", true, .live, none, none, 0, 1, some "c:1"⟩ ]

/-- The API with a SHiP endpoint has the lower number, and its slot is read for its own server. -/
theorem apis_match_servers_sample :
    ∃ resolved u c, ∃ s ∈ mixedServers,
      resolveChainApi plainParser (some ⟨8888, none, [], none⟩) none "::" mixedServers none =
        some resolved ∧
      resolved.upstreams.map ApiUpstream.index = [1, 0] ∧
      resolved.upstreams[1]? = some u ∧ u.Of plainParser s ∧
      (directoryNew resolved.upstreams 4)[1]? = some c ∧
      (directorySnapshot (directoryNew resolved.upstreams 4) (Hub.new sampleCtx 1 0).latest
        (Hub.new sampleCtx 1 0).tips 0)[1]? =
          some (snapshot (ApiSlot.new u) c.state c.cap (serverSight mixedServers s
            (Hub.new sampleCtx 1 0).latest (Hub.new sampleCtx 1 0).tips 0 c.inFlight)) := by
  have valid : validateServers plainParser none mixedServers = .ok () := by decide +kernel
  have found : (resolveChainApi plainParser (some ⟨8888, none, [], none⟩) none "::" mixedServers
      none).any (fun resolved => resolved.upstreams.map ApiUpstream.index = [1, 0]) = true := by
    decide +kernel
  obtain ⟨resolved, isResolved, indices⟩ := (Option.any_eq_true _ _).mp found
  have count : resolved.upstreams.length = 2 := by
    simpa using congrArg List.length (of_decide_eq_true indices)
  have isAt : resolved.upstreams[1]? = some (resolved.upstreams.get ⟨1, by omega⟩) :=
    List.getElem?_eq_getElem _
  obtain ⟨s, listed, -, isOf, -, -, runs⟩ := (apis_match_servers valid isResolved).2 1 _ isAt
  have isCell : (directoryNew resolved.upstreams 4)[1]? =
      some ⟨ApiSlot.new (resolved.upstreams.get ⟨1, by omega⟩), .default, 4, 0⟩ := by
    rw [directoryNew, List.getElem?_map, isAt]
    rfl
  have hub := (runs sampleCtx 0 none false (.start sampleCtx 1 0) (.start rfl)).2 _
    (List.mem_cons_self ..)
  exact ⟨resolved, _, _, s, listed, isResolved, of_decide_eq_true indices, isAt, isOf, isCell,
    hub.2 _ 0 (slots_directoryNew ..) _ isCell⟩

end FleetRouter.ChainApi
