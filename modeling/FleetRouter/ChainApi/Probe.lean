import FleetRouter.Lib.Transition
import FleetRouter.Fleet.Tip
import FleetRouter.ChainApi.Bounds
import FleetRouter.ChainApi.Hint

/-!
# Probing an archive's chain API

A frozen range server's chain API is used only while it is verified: the last block its
`describe` reports is the head of its own SHiP endpoint, and its `get_block_info` gives
that block's id.  The probe task reads and writes the state of the API in several steps
with requests of the clients between them.
-/

namespace FleetRouter.ChainApi

open Ship Session Fleet Transition Numeral

/-! ## Verification -/

/-- Sticky identity verification of an archive's chain API. -/
structure Verification where
  verified : Option BlockPos
  deriving DecidableEq, Repr

/-- What to do after a verification event. -/
inductive Verify where
  | keep
  /-- Ask `get_block_info` for this block. -/
  | check (pos : BlockPos)
  | mismatch
  deriving DecidableEq, Repr

namespace Verification

/-- A `describe` answer. -/
def described (v : Verification) (last : BlockPos) (chainOk : Bool) (shipHead : Option BlockPos) :
    Verification × Verify :=
  if !chainOk then (⟨none⟩, .mismatch)
  else if v.verified = some last then (v, .keep)
  else
    match shipHead with
    | none => (v, .keep)
    | some head => if head = last then (v, .check last) else (⟨none⟩, .mismatch)

/-- The SHiP head of the same server, checked on every probe. -/
def shipHead (v : Verification) (head : Option BlockPos) : Verification × Verify :=
  match v.verified, head with
  | some verified, some head => if verified ≠ head then (⟨none⟩, .mismatch) else (v, .keep)
  | _, _ => (v, .keep)

/-- The id `get_block_info` reported for `last`. -/
def checked (last : BlockPos) (id : Checksum) : Verification × Verify :=
  if id = last.id then (⟨some last⟩, .keep) else (⟨none⟩, .mismatch)

end Verification

/-! ## The state of an API and what requests see of it -/

/-- Probe state of one upstream API. -/
structure ApiState where
  up : Bool
  /-- Probe failures in a row, counted to 255. -/
  fails : Nat
  chainId : Option Checksum
  chainMismatch : Bool
  apis : Option (List String)
  head : Option (Fin (2 ^ 32))
  lib : Option (Fin (2 ^ 32))
  earliest : Option (Fin (2 ^ 32))
  blocks : Option Range
  last : Option BlockPos
  getBlock : Option String
  verification : Verification
  mismatchLogged : Bool
  busyUntil : Option Nat
  deriving DecidableEq, Repr

def ApiState.default : ApiState where
  up := false
  fails := 0
  chainId := none
  chainMismatch := false
  apis := none
  head := none
  lib := none
  earliest := none
  blocks := none
  last := none
  getBlock := none
  verification := ⟨none⟩
  mismatchLogged := false
  busyUntil := none

/-- One upstream chain API of a listener, as configured. -/
structure ApiSlot where
  index : Nat
  endpoint : String
  role : Role
  priority : Nat
  weight : Nat
  declared : Option Range
  deriving DecidableEq, Repr

/-- Where a snapshot is taken: what the listener's SHiP view and tips say of the server,
the time and the requests in flight. -/
structure Sight where
  upstream : Option UpstreamView
  tip : Option ObservedTip
  now : Nat
  inFlight : Nat

/-- The API as a request sees it. -/
def snapshot (slot : ApiSlot) (st : ApiState) (cap : Nat) (sight : Sight) : ApiView :=
  let reported := (sight.upstream.bind UpstreamView.head).map BlockPos.num
  let streamed := (sight.tip.bind ObservedTip.head).map BlockPos.num
  { index := slot.index
    endpoint := slot.endpoint
    role := slot.role
    priority := sight.upstream.elim slot.priority UpstreamView.priority
    weight := sight.upstream.elim slot.weight fun u => max u.weight 1
    up := st.up && !st.chainMismatch && !sight.upstream.any UpstreamView.operatorDisabled
    busy := st.busyUntil.any fun busyUntil => sight.now < busyUntil
    inFlight := sight.inFlight
    full := cap ≤ sight.inFlight
    apis := st.apis
    head :=
      match slot.role with
      | .live => max st.head (max reported streamed)
      | .frozen => none
    lib := st.lib
    earliest := st.earliest
    verified := st.verification.verified.isSome
    blocks := st.blocks
    declared := slot.declared }

/-! ## Answers -/

/-- 64 hexadecimal digits as 32 bytes. -/
def hex32 (text : Text) : Option Checksum :=
  if digits : text.length = 64 ∧ text.all isAsciiHexdigit = true then
    some ⟨((pairs 16 (text.map toDigit)).map UInt8.ofNat).toArray, by
      simp [length_pairs, digits.1]⟩
  else none

/-- A frozen range server's `describe`. -/
structure Describe where
  chainId : Text
  lastNum : Fin (2 ^ 32)
  lastId : Text
  blocks : Range
  apis : Option (List String)
  getBlock : Option String
  maxInFlight : Option Nat
  deriving DecidableEq, Repr

/-- The chain id and the last block of a `describe`. -/
def Describe.parse (d : Describe) : Option (Checksum × BlockPos) :=
  (hex32 d.chainId).bind fun chainId => (hex32 d.lastId).map fun id => (chainId, ⟨d.lastNum, id⟩)

/-- The chain ids the listener knows besides the reported one. -/
structure ChainSources where
  pinned : Option Checksum
  /-- Of the server's own SHiP endpoint. -/
  ship : Option Checksum
  /-- Of the listener's SHiP view. -/
  view : Option Checksum
  /-- The first one any API reported. -/
  first : Option Checksum
  deriving DecidableEq, Repr

/-- The chain id an API must report. -/
def expectedChainId (known : ChainSources) (reported : Checksum) : Checksum :=
  known.pinned.getD ((known.ship.or known.view).getD (known.first.getD reported))

/-! ## The probe task -/

/-- Where the probe task is; the state may be read and written between any two. -/
inductive ProbeAt where
  | idle
  /-- It has applied the SHiP head it read and waits for `describe`. -/
  | describing (shipHead : Option BlockPos)
  /-- It has applied the answer to the verification only. -/
  | described (d : Describe) (chainId expected : Checksum) (last : BlockPos) (step : Verify)
  /-- It has stored the answer. -/
  | stored (step : Verify)
  /-- It waits for `get_block_info`. -/
  | checking (pos : BlockPos)
  deriving DecidableEq, Repr

/-- What the probe task was told, for the record. -/
inductive Told where
  | shipHead (head : Option BlockPos)
  | describe (d : Describe) (known : ChainSources)
  | blockInfo (pos : BlockPos) (id : Text)
  deriving DecidableEq, Repr

/-- The SHiP head that was read, if it was known. -/
def Told.knownHead : Told → Option BlockPos
  | .shipHead head => head
  | .describe _ _ | .blockInfo _ _ => none

/-- The probe task of one frozen API.  The record has the latest first. -/
structure Prober where
  place : ProbeAt
  st : ApiState
  cap : Nat
  record : List Told
  deriving DecidableEq, Repr

inductive ProbeEvent where
  /-- A probe starts: the SHiP head is read and applied. -/
  | tick (shipHead : Option BlockPos)
  /-- The answer to `describe`, none when it failed. -/
  | answer (d : Option Describe) (known : ChainSources)
  | store
  | react
  /-- The answer to `get_block_info`, none when it failed. -/
  | info (id : Option Text)
  /-- A request failed in transport. -/
  | markDown
  /-- The API answered 503 to a request. -/
  | markBusy (busyUntil : Nat)
  deriving DecidableEq, Repr

namespace Prober

/-- Probe failures in a row that take an API down. -/
def downAfterFailures : Nat := 2

/-- A failed probe. -/
def failed (st : ApiState) : ApiState :=
  let fails := min (st.fails + 1) 255
  { st with fails, up := st.up && fails < downAfterFailures }

/-- A chain id other than the listener's. -/
def wrongChain (st : ApiState) (reported : Checksum) : ApiState :=
  { st with up := false, chainId := some reported, chainMismatch := true }

/-- A good `describe`. -/
def accept (st : ApiState) (d : Describe) (chainId : Checksum) (last : BlockPos) : ApiState :=
  { st with
    chainId := some chainId
    chainMismatch := false
    blocks := some d.blocks
    last := some last
    apis := d.apis
    getBlock := d.getBlock
    fails := 0
    up := true }

/-- The outcome of a verification event is applied, and a mismatch noted as logged. -/
def verify (st : ApiState) (outcome : Verification × Verify) : ApiState :=
  { st with
    verification := outcome.1
    mismatchLogged := st.mismatchLogged || outcome.2 = .mismatch }

variable (perUpstream : Nat) (s : Prober)

def tick (head : Option BlockPos) : Prober :=
  { s with
    place := .describing head
    st := verify s.st (s.st.verification.shipHead head)
    record := .shipHead head :: s.record }

def answer (shipHead : Option BlockPos) (d : Option Describe) (known : ChainSources) : Prober :=
  match d with
  | none => { s with place := .idle, st := failed s.st }
  | some d =>
      match d.parse with
      | none => { s with place := .idle, st := failed s.st }
      | some (chainId, last) =>
          let expected := expectedChainId known chainId
          let outcome := s.st.verification.described last (chainId = expected) shipHead
          { s with
            place := .described d chainId expected last outcome.2
            st := { s.st with verification := outcome.1 }
            record := .describe d known :: s.record }

def store (d : Describe) (chainId expected : Checksum) (last : BlockPos) (step : Verify) : Prober :=
  if chainId ≠ expected then { s with place := .idle, st := wrongChain s.st chainId }
  else
    { s with
      place := .stored step
      cap := max (min (d.maxInFlight.elim perUpstream fun n => max n 1) perUpstream) 1
      st := accept s.st d chainId last }

def react (step : Verify) : Prober :=
  match step with
  | .keep => { s with place := .idle }
  | .mismatch => { s with place := .idle, st := { s.st with mismatchLogged := true } }
  | .check pos => { s with place := .checking pos }

def info (pos : BlockPos) (id : Option Text) : Prober :=
  match id with
  | none => { s with place := .idle }
  | some text =>
      match hex32 text with
      | none => { s with place := .idle }
      | some id =>
          let outcome := Verification.checked pos id
          { s with
            place := .idle
            st := { s.st with
              verification := outcome.1
              mismatchLogged := outcome.2 = .mismatch }
            record := .blockInfo pos text :: s.record }

def step : ProbeEvent → Option Prober
  | .tick head =>
      match s.place with
      | .idle => some (s.tick head)
      | _ => none
  | .answer d known =>
      match s.place with
      | .describing shipHead => some (s.answer shipHead d known)
      | _ => none
  | .store =>
      match s.place with
      | .described d chainId expected last step =>
          some (s.store perUpstream d chainId expected last step)
      | _ => none
  | .react =>
      match s.place with
      | .stored step => some (s.react step)
      | _ => none
  | .info id =>
      match s.place with
      | .checking pos => some (s.info pos id)
      | _ => none
  | .markDown => some { s with st := { s.st with up := false } }
  | .markBusy busyUntil => some { s with st := { s.st with busyUntil := some busyUntil } }

def start (perUpstream : Nat) : Prober where
  place := .idle
  st := .default
  cap := max perUpstream 1
  record := []

def machine (perUpstream : Nat) : Machine Prober ProbeEvent where
  init s := s = start perUpstream
  step s e := s.step perUpstream e

/-- A SHiP head that was known does not become unknown. -/
def headStaysKnown (s : Prober) : ProbeEvent → Prop
  | .tick none => ∀ told ∈ s.record, told.knownHead = none
  | _ => True

instance (s : Prober) (e : ProbeEvent) : Decidable (headStaysKnown s e) :=
  match e with
  | .tick none => inferInstanceAs (Decidable (∀ told ∈ s.record, told.knownHead = none))
  | .tick (some _) => .isTrue trivial
  | .answer _ _ => .isTrue trivial
  | .store => .isTrue trivial
  | .react => .isTrue trivial
  | .info _ => .isTrue trivial
  | .markDown => .isTrue trivial
  | .markBusy _ => .isTrue trivial

end Prober

/-! ## What a verification rests on -/

/-- Since the SHiP head was read as `b`, it was read as nothing else, and the stored range
and last block come from a `describe` of the right chain whose last block is `b`. -/
structure Backed (record : List Told) (st : ApiState) (b : BlockPos) (since : List Told) :
    Prop where
  start : ∃ before, record = since ++ .shipHead (some b) :: before
  heads : ∀ head, .shipHead head ∈ since → head = some b
  stored : ∃ d known chainId, .describe d known ∈ since ∧ d.parse = some (chainId, b) ∧
    chainId = expectedChainId known chainId ∧ st.blocks = some d.blocks ∧ st.last = some b

/-- The same, and `get_block_info` gave the id of `b` for its number. -/
def Proven (record : List Told) (st : ApiState) (b : BlockPos) : Prop :=
  ∃ since, Backed record st b since ∧
    ∃ text, .blockInfo b text ∈ since ∧ hex32 text = some b.id

section Proven

variable {record since : List Told} {st st' : ApiState} {b : BlockPos} {told : Told}

theorem Backed.congr (backed : Backed record st b since) (blocks : st'.blocks = st.blocks)
    (last : st'.last = st.last) : Backed record st' b since := by
  refine ⟨backed.start, backed.heads, ?_⟩
  rw [blocks, last]
  exact backed.stored

theorem Backed.cons (backed : Backed record st b since)
    (head : ∀ h, told = .shipHead h → h = some b) :
    Backed (told :: record) st b (told :: since) := by
  obtain ⟨before, split⟩ := backed.start
  obtain ⟨d, known, chainId, isTold, facts⟩ := backed.stored
  refine ⟨⟨before, by rw [split, List.cons_append]⟩, ?_,
    ⟨d, known, chainId, List.mem_cons_of_mem _ isTold, facts⟩⟩
  intro h member
  rcases List.mem_cons.mp member with same | later
  · exact head h same.symm
  · exact backed.heads h later

theorem Proven.congr (proven : Proven record st b) (blocks : st'.blocks = st.blocks)
    (last : st'.last = st.last) : Proven record st' b := by
  obtain ⟨since, backed, info⟩ := proven
  exact ⟨since, backed.congr blocks last, info⟩

theorem Proven.cons (proven : Proven record st b) (head : ∀ h, told = .shipHead h → h = some b) :
    Proven (told :: record) st b := by
  obtain ⟨since, backed, text, isTold, isId⟩ := proven
  exact ⟨told :: since, backed.cons head, text, List.mem_cons_of_mem _ isTold, isId⟩

/-- The head was read as `b`. -/
theorem Proven.head_mem (proven : Proven record st b) : .shipHead (some b) ∈ record := by
  obtain ⟨since, backed, -⟩ := proven
  obtain ⟨before, split⟩ := backed.start
  rw [split]
  exact List.mem_append_right _ List.mem_cons_self

/-- A further `describe` with the same last block takes the place of the one before. -/
theorem Proven.redescribed {d : Describe} {known : ChainSources} {chainId : Checksum}
    (proven : Proven (.describe d known :: record) st b) (parsed : d.parse = some (chainId, b))
    (right : chainId = expectedChainId known chainId) :
    Proven (.describe d known :: record) (Prober.accept st d chainId b) b := by
  obtain ⟨since, backed, info⟩ := proven
  obtain ⟨before, split⟩ := backed.start
  refine ⟨since, ⟨⟨before, split⟩, backed.heads, d, known, chainId, ?_, parsed, right, rfl, rfl⟩,
    info⟩
  -- The record begins with the answer, so the part since the head does.
  cases since with
  | nil => simp at split
  | cons first rest =>
      rw [List.cons_append, List.cons.injEq] at split
      exact split.1 ▸ List.mem_cons_self

end Proven

/-! ## The invariant of the probe task -/

namespace Verification

variable {v : Verification} {b last : BlockPos} {head : Option BlockPos}

/-- A known head that is not the verified block clears the verification. -/
theorem shipHead_verified (kept : (v.shipHead head).1.verified = some b) :
    v.verified = some b ∧ (head = none ∨ head = some b) := by
  cases known : v.verified with
  | none => simp [shipHead, known] at kept
  | some verified =>
      cases head with
      | none => simpa [shipHead, known] using kept
      | some head =>
          simp only [shipHead, known] at kept
          split at kept
          · simp at kept
          · simp_all

/-- A `describe` with another last block than a known head clears the verification. -/
theorem described_verified {chainOk : Bool}
    (kept : (v.described last chainOk head).1.verified = some b) :
    v.verified = some b ∧ (head = some b → last = b) := by
  simp only [described] at kept
  split at kept
  · simp at kept
  split at kept
  · rename_i same
    rw [same] at kept
    exact ⟨same.trans kept, fun _ => Option.some.inj kept⟩
  split at kept
  · exact ⟨kept, by simp⟩
  split at kept
  · rename_i isLast
    exact ⟨kept, fun isHead => isLast.symm.trans (Option.some.inj isHead)⟩
  · simp at kept

theorem described_check {chainOk : Bool} {pos : BlockPos}
    (check : (v.described last chainOk head).2 = .check pos) : last = pos ∧ head = some pos := by
  simp only [described] at check
  repeat' split at check
  all_goals simp_all

end Verification

namespace Prober

/-- What holds at each place of the probe task. -/
def Placed (s : Prober) : ProbeAt → Prop
  | .idle => True
  | .describing head => (∃ before, s.record = .shipHead head :: before) ∧
      ∀ b, s.st.verification.verified = some b → head = some b
  | .described d chainId expected last step => ∃ known head before,
      s.record = .describe d known :: .shipHead head :: before ∧
      d.parse = some (chainId, last) ∧ expected = expectedChainId known chainId ∧
      (∀ b, s.st.verification.verified = some b → last = b) ∧
      ∀ pos, step = .check pos → last = pos ∧ head = some pos
  | .stored step => ∀ pos, step = .check pos → ∃ since, Backed s.record s.st pos since
  | .checking pos => ∃ since, Backed s.record s.st pos since

structure Sound (s : Prober) : Prop where
  proven : ∀ b, s.st.verification.verified = some b → Proven s.record s.st b
  placed : s.Placed s.place

variable {s : Prober}

theorem Placed.congr {s' : Prober} {place : ProbeAt} (placed : s.Placed place)
    (record : s'.record = s.record) (verification : s'.st.verification = s.st.verification)
    (blocks : s'.st.blocks = s.st.blocks) (last : s'.st.last = s.st.last) : s'.Placed place := by
  cases place with
  | idle => trivial
  | describing head | described d chainId expected last step =>
      simp only [Placed, record, verification]
      exact placed
  | stored step =>
      intro pos check
      obtain ⟨since, backed⟩ := placed pos check
      exact ⟨since, record ▸ backed.congr blocks last⟩
  | checking pos =>
      obtain ⟨since, backed⟩ := placed
      exact ⟨since, record ▸ backed.congr blocks last⟩

theorem Sound.tick (sound : s.Sound) {head : Option BlockPos}
    (known : headStaysKnown s (.tick head)) : (s.tick head).Sound := by
  -- Only a known head is compared, and a verified API had one.
  have kept (b : BlockPos) (verified : (s.tick head).st.verification.verified = some b) :
      s.st.verification.verified = some b ∧ head = some b := by
    obtain ⟨before, unknown | same⟩ := Verification.shipHead_verified verified
    · subst unknown
      have known := known _ (sound.proven b before).head_mem
      cases known
    · exact ⟨before, same⟩
  constructor
  · intro b verified
    obtain ⟨before, isHead⟩ := kept b verified
    refine Proven.congr (Proven.cons (sound.proven b before) ?_) rfl rfl
    rintro h ⟨⟩
    exact isHead
  · exact ⟨⟨s.record, rfl⟩, fun b verified => (kept b verified).2⟩

theorem Sound.answer (sound : s.Sound) {head : Option BlockPos} (place : s.place = .describing head)
    (d : Option Describe) (known : ChainSources) : (s.answer head d known).Sound := by
  have placed := sound.placed
  rw [place] at placed
  obtain ⟨⟨before, isRecord⟩, isHead⟩ := placed
  unfold Prober.answer
  split
  · exact ⟨fun b verified => (sound.proven b verified).congr rfl rfl, trivial⟩
  split
  · exact ⟨fun b verified => (sound.proven b verified).congr rfl rfl, trivial⟩
  · rename_i d _ chainId last parsed
    have kept (b : BlockPos) (verified : (s.st.verification.described last
        (chainId = expectedChainId known chainId) head).1.verified = some b) :
        s.st.verification.verified = some b ∧ last = b := by
      obtain ⟨was, isLast⟩ := Verification.described_verified verified
      exact ⟨was, isLast (isHead b was)⟩
    constructor
    · intro b verified
      exact Proven.congr (Proven.cons (sound.proven b (kept b verified).1) (by simp)) rfl rfl
    · refine ⟨known, head, before, by rw [isRecord], parsed, rfl,
        fun b verified => (kept b verified).2, ?_⟩
      intro pos check
      exact Verification.described_check check

theorem Sound.store (sound : s.Sound) {d : Describe} {chainId expected : Checksum}
    {last : BlockPos} {step : Verify} (place : s.place = .described d chainId expected last step)
    (perUpstream : Nat) : (s.store perUpstream d chainId expected last step).Sound := by
  have placed := sound.placed
  rw [place] at placed
  obtain ⟨known, head, before, isRecord, parsed, rfl, isLast, check⟩ := placed
  unfold Prober.store
  split
  · exact ⟨fun b verified => (sound.proven b verified).congr rfl rfl, trivial⟩
  · rename_i right
    rw [not_not] at right
    constructor
    · intro b verified
      obtain rfl := isLast b verified
      have proven := sound.proven last verified
      rw [isRecord] at proven
      have again := proven.redescribed parsed right
      rwa [← isRecord] at again
    · intro pos isCheck
      obtain ⟨rfl, rfl⟩ := check pos isCheck
      exact ⟨[.describe d known], ⟨before, isRecord⟩, by simp,
        d, known, chainId, List.mem_cons_self, parsed, right, rfl, rfl⟩

theorem Sound.react (sound : s.Sound) {step : Verify} (place : s.place = .stored step) :
    (s.react step).Sound := by
  have placed := sound.placed
  rw [place] at placed
  cases step with
  | keep => exact ⟨sound.proven, trivial⟩
  | mismatch => exact ⟨fun b verified => (sound.proven b verified).congr rfl rfl, trivial⟩
  | check pos => exact ⟨sound.proven, placed pos rfl⟩

theorem Sound.info (sound : s.Sound) {pos : BlockPos} (place : s.place = .checking pos)
    (id : Option Text) : (s.info pos id).Sound := by
  have placed := sound.placed
  rw [place] at placed
  obtain ⟨since, backed⟩ := placed
  unfold Prober.info
  split
  · exact ⟨sound.proven, trivial⟩
  split
  · exact ⟨sound.proven, trivial⟩
  · rename_i text _ id isId
    refine ⟨?_, trivial⟩
    intro b verified
    simp only [Verification.checked] at verified
    split at verified
    · rename_i same
      cases verified
      refine ⟨.blockInfo pos text :: since, (backed.cons (by simp)).congr rfl rfl, text,
        List.mem_cons_self, ?_⟩
      rw [isId, same]
    · cases verified

/-- Every step keeps what a verification rests on. -/
theorem Sound.step {s' : Prober} {perUpstream : Nat} {e : ProbeEvent} (sound : s.Sound)
    (known : headStaysKnown s e) (step : s.step perUpstream e = some s') : s'.Sound := by
  cases e with
  | tick head =>
      simp only [Prober.step] at step
      split at step
      · cases step
        exact sound.tick known
      · cases step
  | answer d sources =>
      simp only [Prober.step] at step
      split at step
      · cases step
        exact sound.answer ‹_› d sources
      · cases step
  | store =>
      simp only [Prober.step] at step
      split at step
      · cases step
        exact sound.store ‹_› perUpstream
      · cases step
  | react =>
      simp only [Prober.step] at step
      split at step
      · cases step
        exact sound.react ‹_›
      · cases step
  | info id =>
      simp only [Prober.step] at step
      split at step
      · cases step
        exact sound.info ‹_› id
      · cases step
  | markDown | markBusy _ =>
      cases step
      exact ⟨fun b verified => (sound.proven b verified).congr rfl rfl,
        sound.placed.congr rfl rfl rfl rfl⟩

theorem Sound.of_reachable {perUpstream : Nat}
    (reachable : Reachable (machine perUpstream) headStaysKnown s) : s.Sound := by
  apply Reachable.invariant (P := Sound) _ _ reachable
  · rintro s rfl
    exact ⟨by simp [start, ApiState.default], trivial⟩
  · intro s e s' _ sound known step
    exact sound.step known step

end Prober

/-! ## An archive is used only while it is verified -/

/-- The orders of attempts of a block request. -/
inductive BlockOrder (dir : ApiDirectory) : List Nat → Prop where
  | routed {q : BlockQuery} {n : Fin (2 ^ 32)} {region : Region} {order : List Nat}
      {claimed : Bool} {idHolders : List Nat}
      (plan : planBlock q dir.apis = .routed n region order claimed idHolders) :
      BlockOrder dir order
  | unhinted (q : StateQuery) : BlockOrder dir (stateOrder q dir.apis)

/-- Only live and verified APIs are in the order of a block request. -/
theorem BlockOrder.live_or_verified {dir : ApiDirectory} {order : List Nat} {i : Nat}
    (isOrder : BlockOrder dir order) (member : i ∈ order) :
    ∃ a ∈ dir.apis, a.index = i ∧ (a.role = .frozen → a.verified = true) := by
  have ofLive {a : ApiView} (live : a.role = .live) : a.role = .frozen → a.verified = true := by
    rw [live]
    simp
  cases isOrder with
  | routed plan =>
      rcases planBlock_order plan with rfl | rfl
      · obtain ⟨a, isApi, same, live, -⟩ := mem_reversibleOrder member
        exact ⟨a, isApi, same, ofLive live⟩
      · obtain ⟨a, isApi, same, candidate⟩ := mem_irreversibleOrder member
        exact ⟨a, isApi, same, fun frozen => (candidate.archive frozen).2.1⟩
  | unhinted q =>
      obtain ⟨a, isApi, same, live, -⟩ := stateOrder_live member
      exact ⟨a, isApi, same, ofLive live⟩

/-- An archive's chain API is seen as verified only while its identity is proven, and it
is in no order of attempts for a block otherwise. -/
theorem archive_used_only_while_proven {perUpstream : Nat} {s : Prober}
    (reachable : Reachable (Prober.machine perUpstream) Prober.headStaysKnown s) :
    (∀ slot sight, (snapshot slot s.st s.cap sight).verified = true →
      ∃ b, s.st.verification.verified = some b ∧ Proven s.record s.st b ∧
        (snapshot slot s.st s.cap sight).blocks = s.st.blocks) ∧
    ∀ (dir : ApiDirectory) (a : ApiView), a ∈ dir.apis → a.role = .frozen → a.verified = false →
      ∀ order, BlockOrder dir order → a.index ∉ order := by
  constructor
  · intro slot sight verified
    obtain ⟨b, isVerified⟩ := Option.isSome_iff_exists.mp verified
    exact ⟨b, isVerified, (Prober.Sound.of_reachable reachable).proven b isVerified, rfl⟩
  · intro dir a isApi frozen unverified order isOrder member
    obtain ⟨other, isOther, same, verified⟩ := isOrder.live_or_verified member
    obtain rfl := List.inj_on_of_nodup_map dir.nodup isOther isApi same
    rw [unverified] at verified
    exact absurd (verified frozen) (by simp)

/-- An id of zeros, as text. -/
def zeroText : Text := List.replicate 64 48

/-- A `describe` of the blocks 1 to 5. -/
def zeroDescribe : Describe where
  chainId := zeroText
  lastNum := 5
  lastId := zeroText
  blocks := ⟨1, 6⟩
  apis := none
  getBlock := none
  maxInFlight := none

/-- A probe that verifies the API, and one that fails after it. -/
def verifyingProbe : List ProbeEvent :=
  [ .tick (some ⟨5, .replicate 32 0⟩)
  , .answer (some zeroDescribe) ⟨none, none, none, none⟩
  , .store
  , .react
  , .info (some zeroText)
  , .tick (some ⟨5, .replicate 32 0⟩)
  , .answer none ⟨none, none, none, none⟩ ]

theorem archive_used_only_while_proven_sample :
    ∃ s b, Reachable (Prober.machine 4) Prober.headStaysKnown s ∧
      s.st.verification.verified = some b ∧ Proven s.record s.st b := by
  have found : ∃ s, Reachable (Prober.machine 4) Prober.headStaysKnown s ∧
      s.st.verification.verified = some ⟨5, .replicate 32 0⟩ :=
    exists_reachable_of_run verifyingProbe rfl (by decide +kernel)
  obtain ⟨s, reachable, verified⟩ := found
  obtain ⟨b, isVerified, proven, -⟩ := (archive_used_only_while_proven reachable).1
    ⟨0, "api", .frozen, 0, 1, none⟩ ⟨none, none, 0, 0⟩ (by simp [snapshot, verified])
  exact ⟨s, b, reachable, isVerified, proven⟩

end FleetRouter.ChainApi
