import FleetRouter.Lib.Transition
import FleetRouter.Config.Tls

/-!
# Reloading certificates

Another program may replace certificate and key files while the router runs.  A poll takes the
stamps of a pair of files, which change with every write, and loads the pair if they are not the
stamps of the pair it serves.  Files may be written between any two reads; the stamps are taken
before the contents, so a pair that was loaded too early is loaded again.
-/

namespace FleetRouter.Tls

open Chars Fallible Transition

variable {Stamp Content Key : Type}

structure FileState (Stamp Content : Type) where
  stamp : Stamp
  content : Content
  deriving DecidableEq, Repr

/-- A file, if there is one now, and the stamps it has had. -/
structure History (Stamp Content : Type) where
  current : Option (FileState Stamp Content)
  stamps : List Stamp
  deriving DecidableEq, Repr

/-- The files by path. -/
abbrev Disk (Stamp Content : Type) := Text → History Stamp Content

/-- The slot of a pair of files, with the stamps of both. -/
abbrev Slot (Stamp Key : Type) := SniSlot (Stamp × Stamp) Key

/-- How far the reload of one pair is. -/
inductive Stage (Stamp Content : Type) where
  | start
  | statCert (cert : Stamp)
  | stat (stamp : Stamp × Stamp)
  | readCert (stamp : Stamp × Stamp) (cert : Content)
  deriving DecidableEq, Repr

/-- A poll: the pairs it is done with and those to come, in the order of the store. -/
structure Pass (Stamp Content Key : Type) where
  looked : List (Slot Stamp Key)
  pending : List (Slot Stamp Key)
  stage : Stage Stamp Content
  reloaded : Nat
  failures : Nat

structure Reloader (Stamp Content Key : Type) where
  disk : Disk Stamp Content
  store : CertStore (Stamp × Stamp) Key
  pass : Option (Pass Stamp Content Key)

inductive ReloadEvent (Stamp Content : Type) where
  /-- Another program replaces a file. -/
  | write (path : Text) (file : FileState Stamp Content)
  | remove (path : Text)
  | poll
  /-- The next read of the poll. -/
  | advance

namespace CertStore

/-- The pairs of a store, the default one first. -/
def slots (store : CertStore (Stamp × Stamp) Key) : List (Slot Stamp Key) :=
  ⟨[], store.defaultCertFile, store.defaultKeyFile, store.defaultStamp, store.defaultCertified⟩ ::
    store.sni

def ofSlots (store : CertStore (Stamp × Stamp) Key) :
    List (Slot Stamp Key) → CertStore (Stamp × Stamp) Key
  | [] => store
  | first :: sni => ⟨first.certFile, first.keyFile, first.stamp, first.certified, sni⟩

end CertStore

namespace Pass

variable (p : Pass Stamp Content Key)

def moveOn (slot : Slot Stamp Key) (rest : List (Slot Stamp Key)) : Pass Stamp Content Key :=
  { p with looked := p.looked ++ [slot], pending := rest, stage := .start }

/-- A pair that fails is kept and tried again at the next poll. -/
def fail (slot : Slot Stamp Key) (rest : List (Slot Stamp Key)) : Pass Stamp Content Key :=
  { p.moveOn slot rest with failures := p.failures + 1 }

variable [DecidableEq Stamp] (load : Content → Content → Except String Key)

/-- The next read for a pair. -/
def reloadCertifiedKey (disk : Disk Stamp Content) (slot : Slot Stamp Key)
    (rest : List (Slot Stamp Key)) : Pass Stamp Content Key :=
  match p.stage with
  | .start =>
      match (disk slot.certFile).current with
      | some cert => { p with stage := .statCert cert.stamp }
      | none => p.fail slot rest
  | .statCert cert =>
      match (disk slot.keyFile).current with
      | some key =>
          if (cert, key.stamp) = slot.stamp then p.moveOn slot rest
          else { p with stage := .stat (cert, key.stamp) }
      | none => p.fail slot rest
  | .stat stamp =>
      match (disk slot.certFile).current with
      | some cert => { p with stage := .readCert stamp cert.content }
      | none => p.fail slot rest
  | .readCert stamp cert =>
      match (disk slot.keyFile).current with
      | some key =>
          match load cert key.content with
          | .ok certified =>
              { p.moveOn { slot with stamp, certified } rest with reloaded := p.reloaded + 1 }
          | .error _ => p.fail slot rest
      | none => p.fail slot rest

end Pass

namespace Reloader

variable [DecidableEq Stamp] (load : Content → Content → Except String Key)
  (s : Reloader Stamp Content Key)

/-- A new store is published only if some pair was reloaded. -/
def finish (p : Pass Stamp Content Key) : Reloader Stamp Content Key :=
  { s with
    store := if 0 < p.reloaded then s.store.ofSlots p.looked else s.store
    pass := none }

def step : ReloadEvent Stamp Content → Option (Reloader Stamp Content Key)
  | .write path file =>
      some { s with
        disk := Function.update s.disk path ⟨some file, file.stamp :: (s.disk path).stamps⟩ }
  | .remove path =>
      some { s with disk := Function.update s.disk path ⟨none, (s.disk path).stamps⟩ }
  | .poll =>
      if s.pass.isNone then some { s with pass := some ⟨[], s.store.slots, .start, 0, 0⟩ } else none
  | .advance =>
      s.pass.map fun p =>
        match p.pending with
        | [] => s.finish p
        | slot :: rest => { s with pass := some (p.reloadCertifiedKey load s.disk slot rest) }

/-- Every write gives a file a stamp it has not had. -/
def Fresh : ReloadEvent Stamp Content → Prop
  | .write path file => file.stamp ∉ (s.disk path).stamps
  | .remove _ | .poll | .advance => True

end Reloader

/-- The files as the store reads them when they do not change meanwhile. -/
def filesOf (load : Content → Content → Except String Key) (disk : Disk Stamp Content) :
    Files (Stamp × Stamp) Key where
  stat certFile keyFile :=
    match (disk certFile).current, (disk keyFile).current with
    | some cert, some key => .ok (cert.stamp, key.stamp)
    | _, _ => .error "not found"
  load certFile keyFile :=
    match (disk certFile).current, (disk keyFile).current with
    | some cert, some key => load cert.content key.content
    | _, _ => .error "not found"

/-- A listener whose store is loaded before the files change. -/
def reloadMachine [DecidableEq Stamp] (load : Content → Content → Except String Key)
    (cfg : TlsConfig) : Machine (Reloader Stamp Content Key) (ReloadEvent Stamp Content) where
  init s := fromConfig (filesOf load s.disk) cfg = .ok s.store ∧ s.pass = none ∧
    ∀ path, ∀ file ∈ (s.disk path).current, file.stamp ∈ (s.disk path).stamps
  step := Reloader.step load

/-! ## What a stamp says of a file -/

/-- A content that was read after a stamp: if the file still has that stamp, it holds that
content. -/
structure Seen (h : History Stamp Content) (stamp : Stamp) (content : Content) : Prop where
  known : stamp ∈ h.stamps
  holds : ∀ file ∈ h.current, file.stamp = stamp → file.content = content

/-- The files change, and every stamp of before stays known and is not given again. -/
structure Later (disk disk' : Disk Stamp Content) : Prop where
  known : ∀ path, ∀ stamp ∈ (disk path).stamps, stamp ∈ (disk' path).stamps
  current : ∀ path, ∀ file ∈ (disk' path).current,
    (disk path).current = some file ∨ file.stamp ∉ (disk path).stamps

theorem Seen.later {disk disk' : Disk Stamp Content} {path : Text} {stamp : Stamp}
    {content : Content} (seen : Seen (disk path) stamp content) (later : Later disk disk') :
    Seen (disk' path) stamp content where
  known := later.known path stamp seen.known
  holds := by
    intro file isFile same
    cases later.current path file isFile with
    | inl old => exact seen.holds file old same
    | inr fresh => exact absurd (same ▸ seen.known) fresh

theorem later_update {disk : Disk Stamp Content} {path : Text} {h : History Stamp Content}
    (known : ∀ stamp ∈ (disk path).stamps, stamp ∈ h.stamps)
    (fresh : ∀ file ∈ h.current, file.stamp ∉ (disk path).stamps) :
    Later disk (Function.update disk path h) where
  known := by
    intro other stamp isStamp
    by_cases same : other = path
    · subst same
      rw [Function.update_self]
      exact known stamp isStamp
    · rw [Function.update_of_ne same]
      exact isStamp
  current := by
    intro other file isFile
    by_cases same : other = path
    · subst same
      rw [Function.update_self] at isFile
      exact .inr (fresh file isFile)
    · rw [Function.update_of_ne same] at isFile
      exact .inl isFile

/-! ## Slots -/

variable {load : Content → Content → Except String Key} {disk disk' : Disk Stamp Content}

/-- The certificate of a slot was loaded from its files, and its stamps were taken before. -/
def Loaded (load : Content → Content → Except String Key) (disk : Disk Stamp Content)
    (slot : Slot Stamp Key) : Prop :=
  ∃ cert key, Seen (disk slot.certFile) slot.stamp.1 cert ∧
    Seen (disk slot.keyFile) slot.stamp.2 key ∧ load cert key = .ok slot.certified

theorem Loaded.later {slot : Slot Stamp Key} (loaded : Loaded load disk slot)
    (later : Later disk disk') : Loaded load disk' slot := by
  obtain ⟨cert, key, certSeen, keySeen, isLoaded⟩ := loaded
  exact ⟨cert, key, certSeen.later later, keySeen.later later, isLoaded⟩

/-- A slot with the stamps of its files serves what they hold. -/
theorem Loaded.current {slot : Slot Stamp Key} (loaded : Loaded load disk slot)
    {cert key : FileState Stamp Content} (isCert : (disk slot.certFile).current = some cert)
    (isKey : (disk slot.keyFile).current = some key)
    (same : slot.stamp = (cert.stamp, key.stamp)) :
    load cert.content key.content = .ok slot.certified := by
  obtain ⟨_, _, certSeen, keySeen, isLoaded⟩ := loaded
  rw [certSeen.holds cert isCert (congrArg Prod.fst same).symm,
    keySeen.holds key isKey (congrArg Prod.snd same).symm]
  exact isLoaded

/-- What a poll makes of a slot: it serves what its files hold, if that can be loaded, and is kept
if not. -/
structure Renews (load : Content → Content → Except String Key) (disk : Disk Stamp Content)
    (old new : Slot Stamp Key) : Prop where
  files : new.patterns = old.patterns ∧ new.certFile = old.certFile ∧ new.keyFile = old.keyFile
  loads : ∀ cert ∈ (disk old.certFile).current, ∀ key ∈ (disk old.keyFile).current,
    ∀ certified, load cert.content key.content = .ok certified → new.certified = certified
  fails : (∀ cert ∈ (disk old.certFile).current, ∀ key ∈ (disk old.keyFile).current,
    ∀ certified, load cert.content key.content ≠ .ok certified) → new = old

/-- A pair that is kept: its files hold what it serves, or nothing that can be loaded. -/
theorem Renews.kept {slot : Slot Stamp Key}
    (loads : ∀ cert ∈ (disk slot.certFile).current, ∀ key ∈ (disk slot.keyFile).current,
      ∀ certified, load cert.content key.content = .ok certified → slot.certified = certified) :
    Renews load disk slot slot :=
  ⟨⟨rfl, rfl, rfl⟩, loads, fun _ => rfl⟩

/-- What a poll has read of a pair. -/
def Staged (disk : Disk Stamp Content) (slot : Slot Stamp Key) : Stage Stamp Content → Prop
  | .start => True
  | .statCert cert => cert ∈ (disk slot.certFile).stamps
  | .stat stamp =>
      stamp.1 ∈ (disk slot.certFile).stamps ∧ stamp.2 ∈ (disk slot.keyFile).stamps
  | .readCert stamp cert =>
      Seen (disk slot.certFile) stamp.1 cert ∧ stamp.2 ∈ (disk slot.keyFile).stamps

theorem Staged.later {slot : Slot Stamp Key} {stage : Stage Stamp Content}
    (staged : Staged disk slot stage) (later : Later disk disk') : Staged disk' slot stage := by
  cases stage with
  | start => trivial
  | statCert cert => exact later.known _ _ staged
  | stat stamp => exact ⟨later.known _ _ staged.1, later.known _ _ staged.2⟩
  | readCert stamp cert => exact ⟨staged.1.later later, later.known _ _ staged.2⟩

structure Pass.Sound (load : Content → Content → Except String Key) (disk : Disk Stamp Content)
    (p : Pass Stamp Content Key) : Prop where
  looked : ∀ slot ∈ p.looked, Loaded load disk slot
  pending : ∀ slot ∈ p.pending, Loaded load disk slot
  staged : ∀ slot ∈ p.pending.head?, Staged disk slot p.stage

theorem Pass.Sound.later {p : Pass Stamp Content Key} (sound : p.Sound load disk)
    (later : Later disk disk') : p.Sound load disk' where
  looked slot member := (sound.looked slot member).later later
  pending slot member := (sound.pending slot member).later later
  staged slot isFirst := (sound.staged slot isFirst).later later

/-- Every stamp a file has is known. -/
def WellKept (disk : Disk Stamp Content) : Prop :=
  ∀ path, ∀ file ∈ (disk path).current, file.stamp ∈ (disk path).stamps

theorem seen_current {path : Text} {file : FileState Stamp Content} {stamp : Stamp}
    (isFile : (disk path).current = some file) (known : stamp ∈ (disk path).stamps) :
    Seen (disk path) stamp file.content := by
  refine ⟨known, fun other isOther _ => ?_⟩
  rw [Option.mem_def.mp isOther] at isFile
  rw [Option.some.inj isFile]

section Passes

variable {p : Pass Stamp Content Key} {slot : Slot Stamp Key} {rest : List (Slot Stamp Key)}

theorem Pass.Sound.moveOn (sound : p.Sound load disk) (isPending : p.pending = slot :: rest)
    {slot' : Slot Stamp Key} (loaded : Loaded load disk slot') :
    (p.moveOn slot' rest).Sound load disk where
  looked := by
    intro other member
    cases List.mem_append.mp member with
    | inl before => exact sound.looked other before
    | inr last =>
        rw [List.mem_singleton.mp last]
        exact loaded
  pending other member := sound.pending other (isPending ▸ List.mem_cons_of_mem _ member)
  staged _ _ := trivial

theorem Pass.Sound.keep (sound : p.Sound load disk) (isPending : p.pending = slot :: rest) :
    (p.moveOn slot rest).Sound load disk :=
  sound.moveOn isPending (sound.pending slot (isPending ▸ List.mem_cons_self))

theorem Pass.Sound.fail (sound : p.Sound load disk) (isPending : p.pending = slot :: rest) :
    (p.fail slot rest).Sound load disk :=
  have kept := sound.keep isPending
  ⟨kept.looked, kept.pending, kept.staged⟩

theorem Pass.Sound.goOn (sound : p.Sound load disk) (isPending : p.pending = slot :: rest)
    (stage : Stage Stamp Content) (staged : Staged disk slot stage) :
    Pass.Sound load disk { p with stage } where
  looked := sound.looked
  pending := sound.pending
  staged := by
    intro first isFirst
    change first ∈ p.pending.head? at isFirst
    rw [isPending, List.head?_cons, Option.mem_some] at isFirst
    exact isFirst ▸ staged

/-- The next read of a pair, whatever was written since the one before. -/
theorem Pass.Sound.reloadCertifiedKey [DecidableEq Stamp] (sound : p.Sound load disk)
    (kept : WellKept disk) (isPending : p.pending = slot :: rest) :
    (p.reloadCertifiedKey load disk slot rest).Sound load disk := by
  have staged : Staged disk slot p.stage := sound.staged slot (by simp [isPending])
  unfold Pass.reloadCertifiedKey
  cases isStage : p.stage with
  | start =>
      dsimp only
      split
      · rename_i cert isCert
        exact sound.goOn isPending (.statCert cert.stamp) (kept _ cert isCert)
      · exact sound.fail isPending
  | statCert cert =>
      rw [isStage] at staged
      dsimp only
      split
      · rename_i key isKey
        split
        · exact sound.keep isPending
        · exact sound.goOn isPending (.stat (cert, key.stamp)) ⟨staged, kept _ key isKey⟩
      · exact sound.fail isPending
  | stat stamp =>
      rw [isStage] at staged
      dsimp only
      split
      · rename_i cert isCert
        exact sound.goOn isPending (.readCert stamp cert.content)
          ⟨seen_current isCert staged.1, staged.2⟩
      · exact sound.fail isPending
  | readCert stamp cert =>
      rw [isStage] at staged
      dsimp only
      split
      · rename_i key isKey
        split
        · rename_i certified isLoaded
          have loaded : Loaded load disk { slot with stamp, certified } :=
            ⟨cert, key.content, staged.1, seen_current isKey staged.2, isLoaded⟩
          have moved := sound.moveOn isPending loaded
          exact ⟨moved.looked, moved.pending, moved.staged⟩
        · exact sound.fail isPending
      · exact sound.fail isPending

end Passes

namespace Reloader

variable {s s' : Reloader Stamp Content Key}

structure Sound (load : Content → Content → Except String Key) (s : Reloader Stamp Content Key) :
    Prop where
  kept : WellKept s.disk
  store : ∀ slot ∈ s.store.slots, Loaded load s.disk slot
  pass : ∀ p ∈ s.pass, p.Sound load s.disk

theorem Sound.later (sound : s.Sound load) {disk : Disk Stamp Content} (kept : WellKept disk)
    (later : Later s.disk disk) : Sound load { s with disk } where
  kept := kept
  store slot member := (sound.store slot member).later later
  pass p isPass := (sound.pass p isPass).later later

theorem wellKept_update (kept : WellKept disk) {path : Text} {h : History Stamp Content}
    (known : ∀ file ∈ h.current, file.stamp ∈ h.stamps) :
    WellKept (Function.update disk path h) := by
  intro other file isFile
  by_cases same : other = path
  · subst same
    rw [Function.update_self] at isFile ⊢
    exact known file isFile
  · rw [Function.update_of_ne same] at isFile ⊢
    exact kept other file isFile

/-- The pairs of a new store are those that were looked at; the default one needs no patterns. -/
theorem forall_ofSlots {P : Slot Stamp Key → Prop}
    (unnamed : ∀ slot, P slot → P { slot with patterns := [] })
    {store : CertStore (Stamp × Stamp) Key} {slots : List (Slot Stamp Key)}
    (before : slots = [] → ∀ slot ∈ store.slots, P slot) (all : ∀ slot ∈ slots, P slot) :
    ∀ slot ∈ (store.ofSlots slots).slots, P slot := by
  cases slots with
  | nil => exact before rfl
  | cons first sni =>
      rw [List.forall_mem_cons] at all
      exact List.forall_mem_cons.mpr ⟨unnamed first all.1, all.2⟩

/-- A store takes the pairs it is given, if the default one has no patterns. -/
theorem slots_ofSlots (store : CertStore (Stamp × Stamp) Key) {first : Slot Stamp Key}
    (sni : List (Slot Stamp Key)) (unnamed : first.patterns = []) :
    (store.ofSlots (first :: sni)).slots = first :: sni := by
  obtain ⟨patterns, certFile, keyFile, stamp, certified⟩ := first
  change patterns = [] at unnamed
  subst unnamed
  rfl

theorem Sound.step [DecidableEq Stamp] (sound : s.Sound load) {e : ReloadEvent Stamp Content}
    (fresh : s.Fresh e) (step : s.step load e = some s') : s'.Sound load := by
  cases e with
  | write path file =>
      cases step
      apply sound.later
      · exact wellKept_update sound.kept fun f isFile =>
          Option.some.inj isFile ▸ List.mem_cons_self
      · exact later_update (fun stamp known => List.mem_cons_of_mem _ known)
          fun f isFile => Option.some.inj isFile ▸ fresh
  | remove path =>
      cases step
      apply sound.later
      · exact wellKept_update sound.kept fun f isFile => absurd isFile (Option.not_mem_none f)
      · exact later_update (fun stamp known => known)
          fun f isFile => absurd isFile (Option.not_mem_none f)
  | poll =>
      simp only [Reloader.step, Option.ite_none_right_eq_some] at step
      cases step.2
      refine ⟨sound.kept, sound.store, fun p isPass => ?_⟩
      cases isPass
      exact ⟨fun slot member => absurd member List.not_mem_nil, sound.store, fun _ _ => trivial⟩
  | advance =>
      obtain ⟨p, isPass, moved⟩ := Option.map_eq_some_iff.mp step
      have passes := sound.pass p isPass
      cases isPending : p.pending with
      | nil =>
          simp only [isPending] at moved
          subst moved
          refine ⟨sound.kept, ?_, fun p isPass => absurd isPass (Option.not_mem_none p)⟩
          unfold finish
          dsimp only
          split
          · exact forall_ofSlots (fun _ loaded => loaded) (fun _ => sound.store) passes.looked
          · exact sound.store
      | cons slot rest =>
          simp only [isPending] at moved
          subst moved
          refine ⟨sound.kept, sound.store, fun p' isPass' => ?_⟩
          cases isPass'
          exact passes.reloadCertifiedKey sound.kept isPending

theorem Sound.start {cfg : TlsConfig}
    (built : fromConfig (filesOf load s.disk) cfg = .ok s.store) (noPass : s.pass = none)
    (kept : WellKept s.disk) : s.Sound load := by
  have loadedOf {certFile keyFile : Text} {slot : Slot Stamp Key}
      (isLoaded : (filesOf load s.disk).load certFile keyFile = .ok slot.certified)
      (isStat : (filesOf load s.disk).stat certFile keyFile = .ok slot.stamp)
      (isCertFile : slot.certFile = certFile) (isKeyFile : slot.keyFile = keyFile) :
      Loaded load s.disk slot := by
    subst isCertFile isKeyFile
    unfold filesOf at isLoaded isStat
    dsimp only at isLoaded isStat
    split at isStat
    · rename_i cert key isCert isKey
      have isStamp := Except.ok.inj isStat
      rw [isCert, isKey] at isLoaded
      refine ⟨cert.content, key.content, ?_, ?_, isLoaded⟩
      · exact seen_current isCert (isStamp ▸ kept _ cert isCert)
      · exact seen_current isKey (isStamp ▸ kept _ key isKey)
    · cases isStat
  obtain ⟨isLoaded, isStat, sni, certFile, keyFile⟩ := fromConfig_eq_ok.mp built
  refine ⟨kept, List.forall_mem_cons.mpr ⟨loadedOf isLoaded isStat certFile keyFile, ?_⟩, ?_⟩
  · intro slot member
    obtain ⟨entry, _, isSlot⟩ := (related_mem sni).2 slot member
    obtain ⟨-, isLoaded, isStat, certFile, keyFile⟩ := slotOf_eq_ok.mp isSlot
    exact loadedOf isLoaded isStat certFile keyFile
  · simp [noPass]

variable [DecidableEq Stamp] {cfg : TlsConfig}

theorem sound (reachable : Reachable (reloadMachine load cfg) Fresh s) : s.Sound load := by
  apply reachable.invariant (P := Sound load)
  · exact fun s isInitial => .start isInitial.1 isInitial.2.1 isInitial.2.2
  · exact fun s e s' _ sound fresh step => sound.step fresh step

/-- However writes fall between the reads of a poll, every certificate that is served was loaded
from its pair of files; and when the pair has the stamps that are kept, so that the next poll takes
it for unchanged, its certificate is what the files hold now. -/
theorem unchanged_pair_is_served (reachable : Reachable (reloadMachine load cfg) Fresh s) :
    ∀ slot ∈ s.store.slots, (∃ cert key, load cert key = .ok slot.certified) ∧
      ∀ cert ∈ (s.disk slot.certFile).current, ∀ key ∈ (s.disk slot.keyFile).current,
        slot.stamp = (cert.stamp, key.stamp) →
          load cert.content key.content = .ok slot.certified := by
  intro slot member
  have loaded := (sound reachable).store slot member
  refine ⟨?_, fun cert isCert key isKey same => loaded.current isCert isKey same⟩
  obtain ⟨cert, key, -, -, isLoaded⟩ := loaded
  exact ⟨cert, key, isLoaded⟩

/-! ## A poll that nothing disturbs -/

/-- No file is written and no other poll begins: the reads of a poll follow each other. -/
def Undisturbed (_ : Reloader Stamp Content Key) : ReloadEvent Stamp Content → Prop
  | .advance => True
  | .poll | .write _ _ | .remove _ => False

section Undisturbed

variable {before : Reloader Stamp Content Key} {p : Pass Stamp Content Key}
  {slot : Slot Stamp Key} {rest : List (Slot Stamp Key)}

theorem reachable_advance
    (reachable : Reachable ((reloadMachine load cfg).startingAt before) Undisturbed
      { s with pass := some p })
    (isPending : p.pending = slot :: rest) :
    Reachable ((reloadMachine load cfg).startingAt before) Undisturbed
      { s with pass := some (p.reloadCertifiedKey load s.disk slot rest) } := by
  have moved : Reloader.step load { s with pass := some p } .advance =
      some { s with pass := some (p.reloadCertifiedKey load s.disk slot rest) } := by
    simp only [Reloader.step, Option.map_some, isPending]
  exact .next reachable (e := ReloadEvent.advance) trivial moved

/-- One pair of a poll. -/
theorem reload_slot
    (reachable : Reachable ((reloadMachine load cfg).startingAt before) Undisturbed
      { s with pass := some p })
    (isStart : p.stage = .start) (isPending : p.pending = slot :: rest)
    (loaded : Loaded load s.disk slot) :
    ∃ slot' reloaded failures,
      Reachable ((reloadMachine load cfg).startingAt before) Undisturbed
        { s with pass := some ⟨p.looked ++ [slot'], rest, .start, reloaded, failures⟩ } ∧
      Renews load s.disk slot slot' ∧ (reloaded = 0 → p.reloaded = 0 ∧ slot' = slot) := by
  have statted := reachable_advance reachable isPending
  cases isCert : (s.disk slot.certFile).current with
  | none =>
      simp only [Pass.reloadCertifiedKey, isStart, isCert] at statted
      refine ⟨slot, _, _, statted, .kept fun cert isSome => ?_, fun zero => ⟨zero, rfl⟩⟩
      simp [isCert] at isSome
  | some cert =>
      simp only [Pass.reloadCertifiedKey, isStart, isCert] at statted
      have stamped := reachable_advance statted isPending
      cases isKey : (s.disk slot.keyFile).current with
      | none =>
          simp only [Pass.reloadCertifiedKey, isKey] at stamped
          refine ⟨slot, _, _, stamped, .kept fun cert _ key isSome => ?_, fun zero => ⟨zero, rfl⟩⟩
          simp [isKey] at isSome
      | some key =>
          simp only [Pass.reloadCertifiedKey, isKey] at stamped
          have only {P : Key → Prop} (holds : ∀ certified,
              load cert.content key.content = .ok certified → P certified) :
              ∀ cert ∈ (s.disk slot.certFile).current, ∀ key ∈ (s.disk slot.keyFile).current,
                ∀ certified, load cert.content key.content = .ok certified → P certified := by
            intro cert' isCert' key' isKey'
            rw [isCert, Option.mem_some] at isCert'
            rw [isKey, Option.mem_some] at isKey'
            subst isCert' isKey'
            exact holds
          split at stamped
          · rename_i same
            refine ⟨slot, _, _, stamped, .kept (only fun certified isOk => ?_),
              fun zero => ⟨zero, rfl⟩⟩
            exact Except.ok.inj ((loaded.current isCert isKey same.symm).symm.trans isOk)
          · have read := reachable_advance stamped isPending
            simp only [Pass.reloadCertifiedKey, isCert] at read
            have ended := reachable_advance read isPending
            simp only [Pass.reloadCertifiedKey, isKey] at ended
            cases isLoaded : load cert.content key.content with
            | error message =>
                simp only [isLoaded] at ended
                refine ⟨slot, _, _, ended, .kept (only fun certified isOk => ?_),
                  fun zero => ⟨zero, rfl⟩⟩
                rw [isLoaded] at isOk
                cases isOk
            | ok certified =>
                simp only [isLoaded] at ended
                refine ⟨_, _, _, ended, ⟨⟨rfl, rfl, rfl⟩, only fun certified' isOk => ?_,
                  fun fails => ?_⟩, fun zero => ?_⟩
                · exact Except.ok.inj (isLoaded.symm.trans isOk)
                · exact absurd isLoaded (fails cert isCert key isKey certified)
                · exact absurd zero (Nat.succ_ne_zero _)

/-- All pairs of a poll; `done` are those it has looked at. -/
theorem reload_all (done pending looked : List (Slot Stamp Key)) (reloaded failures : Nat)
    (reachable : Reachable ((reloadMachine load cfg).startingAt before) Undisturbed
      { s with pass := some ⟨looked, pending, .start, reloaded, failures⟩ })
    (loaded : ∀ slot ∈ pending, Loaded load s.disk slot)
    (renews : List.Forall₂ (Renews load s.disk) done looked)
    (kept : reloaded = 0 → looked = done) :
    ∃ looked' reloaded' failures',
      Reachable ((reloadMachine load cfg).startingAt before) Undisturbed
        { s with pass := some ⟨looked', [], .start, reloaded', failures'⟩ } ∧
      List.Forall₂ (Renews load s.disk) (done ++ pending) looked' ∧
      (reloaded' = 0 → looked' = done ++ pending) := by
  induction pending generalizing done looked reloaded failures with
  | nil =>
      rw [List.append_nil]
      exact ⟨looked, reloaded, failures, reachable, renews, kept⟩
  | cons slot rest ih =>
      rw [List.forall_mem_cons] at loaded
      obtain ⟨slot', reloaded', failures', moved, isRenewed, unchanged⟩ :=
        reload_slot reachable rfl rfl loaded.1
      have all : List.Forall₂ (Renews load s.disk) (done ++ [slot]) (looked ++ [slot']) :=
        List.rel_append renews (.cons isRenewed .nil)
      have same : reloaded' = 0 → looked ++ [slot'] = done ++ [slot] := by
        intro zero
        obtain ⟨none, rfl⟩ := unchanged zero
        rw [kept none]
      have ended := ih (done ++ [slot]) _ _ _ moved loaded.2 all same
      rw [List.append_assoc] at ended
      exact ended

end Undisturbed

instance (s : Reloader Stamp Content Key) (e : ReloadEvent Stamp Content) : Decidable (s.Fresh e) :=
  match e with
  | .write path file => inferInstanceAs (Decidable (file.stamp ∉ (s.disk path).stamps))
  | .remove _ | .poll | .advance => .isTrue trivial

/-- A certificate and a key belong together when they are the same number. -/
def loadNumber (cert key : Nat) : Except String Nat :=
  if cert = key then .ok cert else .error "invalid certificate/key pair"

def numberConfig : TlsConfig where
  certFile := ['c']
  keyFile := ['k']
  sni := []

def numberFiles : Disk Nat Nat := fun path =>
  if path = ['c'] ∨ path = ['k'] then ⟨some ⟨0, 7⟩, [0]⟩ else ⟨none, []⟩

def numberReloader : Reloader Nat Nat Nat where
  disk := numberFiles
  store := ⟨['c'], ['k'], (0, 0), 7, []⟩
  pass := none

theorem init_numberReloader : (reloadMachine loadNumber numberConfig).init numberReloader := by
  refine ⟨rfl, rfl, fun path file isFile => ?_⟩
  simp only [numberReloader, numberFiles] at isFile ⊢
  split at isFile
  · rename_i isPair
    rw [Option.mem_some] at isFile
    rw [if_pos isPair, ← isFile]
    exact List.mem_cons_self
  · exact absurd isFile (Option.not_mem_none file)

/-- The certificate is renewed, a poll finds a pair that does not match, and the key follows. -/
def renewal : List (ReloadEvent Nat Nat) :=
  [.write ['c'] ⟨1, 8⟩, .poll, .advance, .advance, .advance, .advance, .advance,
    .write ['k'] ⟨1, 8⟩]

theorem unchanged_pair_is_served_renewal :
    ∃ s, Reachable (reloadMachine loadNumber numberConfig) Fresh s ∧
      s.store.defaultCertified = 8 ∧ s.store.defaultStamp = (1, 1) ∧
      ∀ slot ∈ s.store.slots, ∀ cert ∈ (s.disk slot.certFile).current,
        ∀ key ∈ (s.disk slot.keyFile).current, slot.stamp = (cert.stamp, key.stamp) →
          loadNumber cert.content key.content = .ok slot.certified := by
  have found : ∃ s, Reachable (reloadMachine loadNumber numberConfig) Fresh s ∧
      s.store.defaultCertified = 8 ∧ s.store.defaultStamp = (1, 1) :=
    exists_reachable_of_run
      (renewal ++ [.poll, .advance, .advance, .advance, .advance, .advance])
      init_numberReloader (by decide +kernel)
  obtain ⟨s, reachable, certified, stamp⟩ := found
  exact ⟨s, reachable, certified, stamp, fun slot member =>
    (unchanged_pair_is_served reachable slot member).2⟩

end Reloader

end FleetRouter.Tls
