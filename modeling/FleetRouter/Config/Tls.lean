import Mathlib.Data.List.Infix
import Mathlib.Data.List.Forall2
import Mathlib.Data.List.Nodup
import Mathlib.Data.List.Pairwise
import FleetRouter.Lib.Chars
import FleetRouter.Lib.Fallible

/-!
# Certificates by server name

A TLS listener has a default certificate and more for other names: host names, or
`*.domain` for every name with one label before the domain.  Names are compared without
regard to letter case and blanks around them, and no name is configured twice.
-/

namespace FleetRouter.Tls

open Chars Fallible

structure SniCertConfig where
  serverNames : List Text
  certFile : Text
  keyFile : Text

structure TlsConfig where
  certFile : Text
  keyFile : Text
  sni : List SniCertConfig

/-- The certificate and key files; errors come with their text. -/
structure Files (Stamp Key : Type) where
  stat : Text → Text → Except String Stamp
  load : Text → Text → Except String Key

/-! ## Names -/

/-- What follows the `*.` of a wildcard. -/
def wildcardSuffix (pattern : Text) : Option Text := pattern.dropPrefix? ['*', '.']

def isWildcard (pattern : Text) : Bool := (wildcardSuffix pattern).isSome

def isHostChar (c : Char) : Bool := c.isAlphanum || c = '-' || c = '.'

/-- The lowercase form of a host name or `*.domain`, if it is one. -/
def normalizeSniPattern (raw : Text) : Option Text :=
  let trimmed := toAsciiLowercase (trim raw)
  let hostPart := (wildcardSuffix trimmed).getD trimmed
  if trimmed = [] then none
  else if hostPart = [] || hostPart.head? = some '.' || hostPart.getLast? = some '.'
      || ['.', '.'] <:+: hostPart || '*' ∈ hostPart || !hostPart.all isHostChar then none
  else if isWildcard trimmed && '.' ∉ hostPart then none
  else some trimmed

/-- Whether a normalized pattern matches a server name. -/
def sniMatches (pattern serverName : Text) : Bool :=
  let candidate := toAsciiLowercase (trim serverName)
  match wildcardSuffix pattern with
  | some suffix =>
      match candidate.dropSuffix? suffix with
      | none => false
      | some before =>
          match before.dropSuffix? ['.'] with
          | none => false
          | some label => label ≠ [] && '.' ∉ label
  | none => pattern = candidate

/-! ## Validation -/

section Validation

variable {Stamp Key : Type} (files : Files Stamp Key) (ctx : String)

def blank (path : Text) : Bool := (trim path).isEmpty

/-- The place of an entry in the configuration. -/
def entryPath (idx : Nat) : String := ctx ++ "tls.sni[" ++ toString idx ++ "]"

/-- The names of one entry; `seen` has the names before. -/
def checkNames (idx : Nat) (seen : List Text) : List Text → Except (List String) (List Text)
  | [] => .ok seen
  | raw :: rest =>
      match normalizeSniPattern raw with
      | none => .error [entryPath ctx idx ++ ": invalid server_name '" ++ .ofList raw
          ++ "' (expected hostname or '*.domain')"]
      | some name =>
          if name ∈ seen then
            .error [entryPath ctx idx ++ ": duplicate server_name '" ++ .ofList raw ++ "'"]
          else checkNames idx (name :: seen) rest

def checkEntries (idx : Nat) (seen : List Text) : List SniCertConfig → Except (List String) Unit
  | [] => .ok ()
  | entry :: rest =>
      if entry.serverNames = [] then
        .error [entryPath ctx idx ++ ".server_names must not be empty"]
      else
        match checkNames ctx idx seen entry.serverNames with
        | .error err => .error err
        | .ok seen =>
            if blank entry.certFile then
              .error [entryPath ctx idx ++ ".cert_file must not be empty"]
            else if blank entry.keyFile then
              .error [entryPath ctx idx ++ ".key_file must not be empty"]
            else checkEntries (idx + 1) seen rest

def loadEntries (idx : Nat) : List SniCertConfig → Except (List String) Unit
  | [] => .ok ()
  | entry :: rest =>
      match files.load entry.certFile entry.keyFile with
      | .error err => .error [entryPath ctx idx, err]
      | .ok _ => loadEntries (idx + 1) rest

/-- The files are there and the names are valid and all different; an error comes with its
context before it. -/
def TlsConfig.validate (cfg : TlsConfig) : Except (List String) Unit :=
  if blank cfg.certFile then .error [ctx ++ "tls.cert_file must not be empty"]
  else if blank cfg.keyFile then .error [ctx ++ "tls.key_file must not be empty"]
  else
    match checkEntries ctx 0 [] cfg.sni with
    | .error err => .error err
    | .ok _ =>
        match files.load cfg.certFile cfg.keyFile with
        | .error err => .error [ctx ++ "tls", err]
        | .ok _ => loadEntries files ctx 0 cfg.sni

end Validation

/-! ## Resolution -/

structure SniSlot (Stamp Key : Type) where
  patterns : List Text
  certFile : Text
  keyFile : Text
  stamp : Stamp
  certified : Key

structure CertStore (Stamp Key : Type) where
  defaultCertFile : Text
  defaultKeyFile : Text
  defaultStamp : Stamp
  defaultCertified : Key
  sni : List (SniSlot Stamp Key)

section Resolution

variable {Stamp Key : Type} (files : Files Stamp Key)

def patternsOf : List Text → Except String (List Text)
  | [] => .ok []
  | raw :: rest =>
      match normalizeSniPattern raw with
      | none => .error ("invalid SNI server_name '" ++ .ofList raw ++ "'")
      | some pattern => (patternsOf rest).map (pattern :: ·)

def statError (kind : String) (certFile keyFile : Text) (err : String) : String :=
  "cannot stat " ++ kind ++ " files ('" ++ .ofList certFile ++ "', '" ++
    .ofList keyFile ++ "'): " ++ err

def slotOf (entry : SniCertConfig) : Except String (SniSlot Stamp Key) := do
  let patterns ← patternsOf entry.serverNames
  let certified ← files.load entry.certFile entry.keyFile
  let stamp ← (files.stat entry.certFile entry.keyFile).mapError
    (statError "SNI TLS" entry.certFile entry.keyFile)
  return { patterns, certFile := entry.certFile, keyFile := entry.keyFile, stamp, certified }

def slotsOf : List SniCertConfig → Except String (List (SniSlot Stamp Key))
  | [] => .ok []
  | entry :: rest => do
      let slot ← slotOf files entry
      let slots ← slotsOf rest
      return slot :: slots

/-- Loads every certificate up front. -/
def fromConfig (cfg : TlsConfig) : Except String (CertStore Stamp Key) := do
  let defaultCertified ← files.load cfg.certFile cfg.keyFile
  let defaultStamp ← (files.stat cfg.certFile cfg.keyFile).mapError
    (statError "TLS" cfg.certFile cfg.keyFile)
  let sni ← slotsOf files cfg.sni
  return {
    defaultCertFile := cfg.certFile
    defaultKeyFile := cfg.keyFile
    defaultStamp
    defaultCertified
    sni }

/-- The certificate for a server name: exact names first, then wildcards, then the default. -/
def CertStore.resolveName (store : CertStore Stamp Key) : Option Text → Key
  | none => store.defaultCertified
  | some name =>
      let lowered := toAsciiLowercase (trim name)
      match store.sni.find? fun slot => slot.patterns.any fun p => !isWildcard p && p = lowered with
      | some slot => slot.certified
      | none =>
          match store.sni.find? fun slot =>
              slot.patterns.any fun p => isWildcard p && sniMatches p lowered with
          | some slot => slot.certified
          | none => store.defaultCertified

end Resolution

/-! ## Matching -/

/-- The name is one label and the domain after it. -/
def IsLabelOf (domain candidate : Text) : Prop :=
  ∃ label, candidate = label ++ '.' :: domain ∧ label ≠ [] ∧ '.' ∉ label

/-- A name is one label of at most one domain. -/
theorem IsLabelOf.unique {domain domain' candidate : Text} (first : IsLabelOf domain candidate)
    (second : IsLabelOf domain' candidate) : domain = domain' := by
  obtain ⟨label, split, -, noDot⟩ := first
  obtain ⟨label', split', -, noDot'⟩ := second
  exact (append_sep_inj noDot noDot' (split.symm.trans split')).2

theorem wildcardSuffix_eq_some {pattern suffix : Text} :
    wildcardSuffix pattern = some suffix ↔ pattern = '*' :: '.' :: suffix := by
  rw [wildcardSuffix, List.dropPrefix?_eq_some_iff]
  simp

theorem isWildcard_iff {pattern : Text} :
    isWildcard pattern = true ↔ ∃ suffix, pattern = '*' :: '.' :: suffix := by
  simp only [isWildcard, Option.isSome_iff_exists, wildcardSuffix_eq_some]

theorem dropSuffix?_eq_some {s suffix before : Text} :
    s.dropSuffix? suffix = some before ↔ s = before ++ suffix := by
  rw [List.dropSuffix?_eq_some_iff]
  simp

theorem sniMatches_wildcard (domain name : Text) :
    sniMatches ('*' :: '.' :: domain) name = true ↔
      IsLabelOf domain (toAsciiLowercase (trim name)) := by
  have isSuffix : wildcardSuffix ('*' :: '.' :: domain) = some domain :=
    wildcardSuffix_eq_some.mpr rfl
  simp only [sniMatches, isSuffix]
  constructor
  · intro matched
    split at matched
    · cases matched
    · rename_i before stripped
      split at matched
      · cases matched
      · rename_i label isLabel
        rw [dropSuffix?_eq_some.mp stripped, dropSuffix?_eq_some.mp isLabel]
        simp only [Bool.and_eq_true, decide_eq_true_eq, ne_eq] at matched
        exact ⟨label, by simp, matched⟩
  · rintro ⟨label, split, nonempty, noDot⟩
    have stripped : (toAsciiLowercase (trim name)).dropSuffix? domain = some (label ++ ['.']) :=
      dropSuffix?_eq_some.mpr (by simp [split])
    have isLabel : (label ++ ['.']).dropSuffix? ['.'] = some label := dropSuffix?_eq_some.mpr rfl
    simp [stripped, isLabel, nonempty, noDot]

theorem sniMatches_exact {pattern : Text} (isExact : isWildcard pattern = false) (name : Text) :
    sniMatches pattern name = true ↔ pattern = toAsciiLowercase (trim name) := by
  have none : wildcardSuffix pattern = none := by
    simpa [isWildcard] using isExact
  simp [sniMatches, none]

theorem folded_folded (name : Text) :
    toAsciiLowercase (trim (toAsciiLowercase (trim name))) = toAsciiLowercase (trim name) := by
  rw [← toAsciiLowercase_trim, trim_trim, toAsciiLowercase_idem]

theorem normalizeSniPattern_congr {raw raw' : Text}
    (same : toAsciiLowercase (trim raw) = toAsciiLowercase (trim raw')) :
    normalizeSniPattern raw = normalizeSniPattern raw' := by
  rw [normalizeSniPattern, normalizeSniPattern, same]

/-! ## What validation ensures -/

/-- The names of an entry, normalized. -/
def SniCertConfig.names (entry : SniCertConfig) : List Text :=
  entry.serverNames.filterMap normalizeSniPattern

def TlsConfig.names (cfg : TlsConfig) : List Text := cfg.sni.flatMap SniCertConfig.names

section Validation

variable {Stamp Key : Type} {files : Files Stamp Key} {ctx : String} {cfg : TlsConfig}

theorem checkNames_eq_ok {idx : Nat} {seen seen' raws : List Text}
    (accepted : checkNames ctx idx seen raws = .ok seen') (distinct : seen.Nodup) :
    seen'.Nodup ∧ seen' = (raws.filterMap normalizeSniPattern).reverse ++ seen := by
  induction raws generalizing seen with
  | nil =>
      cases accepted
      exact ⟨distinct, rfl⟩
  | cons raw rest ih =>
      rw [checkNames] at accepted
      split at accepted
      · cases accepted
      · rename_i name normalized
        split at accepted
        · cases accepted
        · rename_i fresh
          obtain ⟨nodup, same⟩ := ih accepted (List.nodup_cons.mpr ⟨fresh, distinct⟩)
          refine ⟨nodup, ?_⟩
          rw [same, List.filterMap_cons_some normalized]
          simp

theorem nodup_of_checkEntries {idx : Nat} {seen : List Text} {entries : List SniCertConfig}
    (accepted : checkEntries ctx idx seen entries = .ok ()) (distinct : seen.Nodup) :
    (seen.reverse ++ entries.flatMap SniCertConfig.names).Nodup := by
  induction entries generalizing idx seen with
  | nil => simpa using List.nodup_reverse.mpr distinct
  | cons entry rest ih =>
      rw [checkEntries] at accepted
      split at accepted
      · cases accepted
      · split at accepted
        · cases accepted
        · rename_i seen' names
          obtain ⟨nodup, same⟩ := checkNames_eq_ok names distinct
          split at accepted
          · cases accepted
          · split at accepted
            · cases accepted
            · have later := ih accepted nodup
              rw [same] at later
              simpa [SniCertConfig.names] using later

/-- No name is configured twice. -/
theorem TlsConfig.nodup_of_validate (accepted : cfg.validate files ctx = .ok ()) :
    cfg.names.Nodup := by
  rw [validate] at accepted
  split at accepted
  · cases accepted
  · split at accepted
    · cases accepted
    · split at accepted
      · cases accepted
      · exact nodup_of_checkEntries ‹_› List.nodup_nil

/-- Entries with a name in common are one entry. -/
theorem TlsConfig.entry_unique (distinct : cfg.names.Nodup) {e e' : SniCertConfig}
    (member : e ∈ cfg.sni) (member' : e' ∈ cfg.sni) {name : Text} (inFirst : name ∈ e.names)
    (inSecond : name ∈ e'.names) : e = e' := by
  obtain ⟨-, disjoint⟩ := List.nodup_flatMap.mp distinct
  have symmetric : Std.Symm (Function.onFun List.Disjoint SniCertConfig.names) :=
    ⟨fun _ _ apart _ first second => apart second first⟩
  by_contra differ
  exact disjoint.forall member member' differ inFirst inSecond

end Validation

/-! ## What is resolved -/

/-- Each element has a partner in the other list. -/
theorem related_mem {α β : Type} {r : α → β → Prop} {as : List α} {bs : List β}
    (related : List.Forall₂ r as bs) : (∀ a ∈ as, ∃ b ∈ bs, r a b) ∧ ∀ b ∈ bs, ∃ a ∈ as, r a b := by
  induction related with
  | nil => simp
  | cons first _ ih =>
      simp only [List.mem_cons, forall_eq_or_imp, exists_eq_or_imp]
      exact ⟨⟨.inl first, fun a member => .inr (ih.1 a member)⟩, .inl first,
        fun b member => .inr (ih.2 b member)⟩

section Resolution

variable {Stamp Key : Type} {files : Files Stamp Key} {cfg : TlsConfig}
  {store : CertStore Stamp Key} {entry : SniCertConfig} {slot : SniSlot Stamp Key}

theorem patternsOf_eq_ok {raws patterns : List Text} :
    patternsOf raws = .ok patterns ↔
      (∀ raw ∈ raws, (normalizeSniPattern raw).isSome = true) ∧
        raws.filterMap normalizeSniPattern = patterns := by
  induction raws generalizing patterns with
  | nil => simp [patternsOf]
  | cons raw rest ih =>
      rw [patternsOf, List.forall_mem_cons, List.filterMap_cons]
      cases normalizeSniPattern raw with
      | none => simp
      | some pattern => simp [map_eq_ok, ih, and_assoc]

/-- A slot has the names of its entry and the certificate in its files. -/
theorem slotOf_eq_ok :
    slotOf files entry = .ok slot ↔
      ((∀ raw ∈ entry.serverNames, (normalizeSniPattern raw).isSome = true) ∧
        entry.names = slot.patterns) ∧
      files.load entry.certFile entry.keyFile = .ok slot.certified ∧
      files.stat entry.certFile entry.keyFile = .ok slot.stamp ∧
      slot.certFile = entry.certFile ∧ slot.keyFile = entry.keyFile := by
  simp only [slotOf, bind_eq_ok, patternsOf_eq_ok, mapError_eq_ok, pure, Except.pure,
    Except.ok.injEq]
  constructor
  · rintro ⟨patterns, names, certified, loaded, stamp, stamped, rfl⟩
    exact ⟨names, loaded, stamped, rfl, rfl⟩
  · rintro ⟨names, loaded, stamped, certFile, keyFile⟩
    refine ⟨_, names, _, loaded, _, stamped, ?_⟩
    rw [← certFile, ← keyFile]

theorem slotsOf_eq_ok {entries : List SniCertConfig} {slots : List (SniSlot Stamp Key)} :
    slotsOf files entries = .ok slots ↔
      List.Forall₂ (fun entry slot => slotOf files entry = .ok slot) entries slots := by
  induction entries generalizing slots with
  | nil => rw [slotsOf, List.forall₂_nil_left_iff, Except.ok.injEq, eq_comm]
  | cons entry rest ih =>
      simp only [slotsOf, bind_eq_ok, ih, pure, Except.pure, Except.ok.injEq,
        List.forall₂_cons_left_iff]
      constructor
      · rintro ⟨slot, first, slots, others, rfl⟩
        exact ⟨slot, slots, first, others, rfl⟩
      · rintro ⟨slot, slots, first, others, rfl⟩
        exact ⟨slot, first, slots, others, rfl⟩

theorem fromConfig_eq_ok :
    fromConfig files cfg = .ok store ↔
      files.load cfg.certFile cfg.keyFile = .ok store.defaultCertified ∧
      files.stat cfg.certFile cfg.keyFile = .ok store.defaultStamp ∧
      List.Forall₂ (fun entry slot => slotOf files entry = .ok slot) cfg.sni store.sni ∧
      store.defaultCertFile = cfg.certFile ∧ store.defaultKeyFile = cfg.keyFile := by
  simp only [fromConfig, bind_eq_ok, mapError_eq_ok, slotsOf_eq_ok, pure, Except.pure,
    Except.ok.injEq]
  constructor
  · rintro ⟨certified, loaded, stamp, stamped, slots, built, rfl⟩
    exact ⟨loaded, stamped, built, rfl, rfl⟩
  · rintro ⟨loaded, stamped, built, certFile, keyFile⟩
    refine ⟨_, loaded, _, stamped, _, built, ?_⟩
    rw [← certFile, ← keyFile]

/-- The entry has the candidate as an exact name. -/
def SniCertConfig.HasExact (entry : SniCertConfig) (candidate : Text) : Prop :=
  candidate ∈ entry.names ∧ isWildcard candidate = false

/-- The entry has a wildcard for the candidate. -/
def SniCertConfig.HasWildcard (entry : SniCertConfig) (candidate : Text) : Prop :=
  ∃ domain, '*' :: '.' :: domain ∈ entry.names ∧ IsLabelOf domain candidate

/-- The certificate in the files of an entry. -/
def SniCertConfig.Loads (entry : SniCertConfig) (files : Files Stamp Key) (key : Key) : Prop :=
  files.load entry.certFile entry.keyFile = .ok key

theorem any_exact (built : slotOf files entry = .ok slot) (lowered : Text) :
    (slot.patterns.any fun p => !isWildcard p && p = lowered) = true ↔ entry.HasExact lowered := by
  simp only [List.any_eq_true, Bool.and_eq_true, Bool.not_eq_true', decide_eq_true_eq,
    SniCertConfig.HasExact, (slotOf_eq_ok.mp built).1.2]
  constructor
  · rintro ⟨p, member, isExact, rfl⟩
    exact ⟨member, isExact⟩
  · rintro ⟨member, isExact⟩
    exact ⟨lowered, member, isExact, rfl⟩

theorem any_wildcard (built : slotOf files entry = .ok slot) (name : Text) :
    (slot.patterns.any fun p =>
      isWildcard p && sniMatches p (toAsciiLowercase (trim name))) = true ↔
      entry.HasWildcard (toAsciiLowercase (trim name)) := by
  simp only [List.any_eq_true, Bool.and_eq_true, isWildcard_iff, SniCertConfig.HasWildcard,
    (slotOf_eq_ok.mp built).1.2]
  constructor
  · rintro ⟨_, member, ⟨domain, rfl⟩, matched⟩
    rw [sniMatches_wildcard, folded_folded] at matched
    exact ⟨domain, member, matched⟩
  · rintro ⟨domain, member, isLabel⟩
    refine ⟨_, member, ⟨domain, rfl⟩, ?_⟩
    rwa [sniMatches_wildcard, folded_folded]

/-- Where the certificate for a name comes from. -/
inductive Resolved (files : Files Stamp Key) (cfg : TlsConfig) (candidate : Text) (key : Key) : Prop
  | exactName (entry : SniCertConfig) : entry ∈ cfg.sni → entry.HasExact candidate →
      entry.Loads files key → Resolved files cfg candidate key
  | wildcard (entry : SniCertConfig) : (∀ e ∈ cfg.sni, ¬e.HasExact candidate) → entry ∈ cfg.sni →
      entry.HasWildcard candidate → entry.Loads files key → Resolved files cfg candidate key
  | default : (∀ e ∈ cfg.sni, ¬e.HasExact candidate) → (∀ e ∈ cfg.sni, ¬e.HasWildcard candidate) →
      files.load cfg.certFile cfg.keyFile = .ok key → Resolved files cfg candidate key

theorem resolved_resolveName (built : fromConfig files cfg = .ok store) (name : Text) :
    Resolved files cfg (toAsciiLowercase (trim name)) (store.resolveName (some name)) := by
  obtain ⟨loaded, -, slots, -, -⟩ := fromConfig_eq_ok.mp built
  obtain ⟨slotOf, entryOf⟩ := related_mem slots
  simp only [CertStore.resolveName]
  split
  · rename_i slot found
    obtain ⟨entry, member, isSlot⟩ := entryOf slot (List.mem_of_find?_eq_some found)
    apply Resolved.exactName entry member
    · have matched := List.find?_some found
      exact (any_exact isSlot _).mp matched
    · exact (slotOf_eq_ok.mp isSlot).2.1
  · rename_i noExact
    rw [List.find?_eq_none] at noExact
    have noEntry (e : SniCertConfig) (member : e ∈ cfg.sni) :
        ¬e.HasExact (toAsciiLowercase (trim name)) := by
      obtain ⟨slot, listed, isSlot⟩ := slotOf e member
      rw [← any_exact isSlot]
      exact noExact slot listed
    split
    · rename_i slot found
      obtain ⟨entry, member, isSlot⟩ := entryOf slot (List.mem_of_find?_eq_some found)
      apply Resolved.wildcard entry noEntry member
      · have matched := List.find?_some found
        exact (any_wildcard isSlot name).mp matched
      · exact (slotOf_eq_ok.mp isSlot).2.1
    · rename_i noWildcard
      rw [List.find?_eq_none] at noWildcard
      refine Resolved.default noEntry ?_ loaded
      intro e member
      obtain ⟨slot, listed, isSlot⟩ := slotOf e member
      rw [← any_wildcard isSlot]
      exact noWildcard slot listed

/-- Entries for one candidate are one entry. -/
theorem SniCertConfig.HasExact.unique {e e' : SniCertConfig} {candidate : Text}
    (distinct : cfg.names.Nodup) (member : e ∈ cfg.sni) (member' : e' ∈ cfg.sni)
    (first : e.HasExact candidate) (second : e'.HasExact candidate) : e = e' :=
  cfg.entry_unique distinct member member' first.1 second.1

theorem SniCertConfig.HasWildcard.unique {e e' : SniCertConfig} {candidate : Text}
    (distinct : cfg.names.Nodup) (member : e ∈ cfg.sni) (member' : e' ∈ cfg.sni)
    (first : e.HasWildcard candidate) (second : e'.HasWildcard candidate) : e = e' := by
  obtain ⟨domain, listed, isLabel⟩ := first
  obtain ⟨domain', listed', isLabel'⟩ := second
  rw [isLabel'.unique isLabel] at listed'
  exact cfg.entry_unique distinct member member' listed listed'

/-- What a name resolves to is determined. -/
theorem Resolved.unique {candidate : Text} {key key' : Key} (distinct : cfg.names.Nodup)
    (first : Resolved files cfg candidate key) (second : Resolved files cfg candidate key') :
    key = key' := by
  cases first with
  | exactName e member has loads =>
      cases second with
      | exactName e' member' has' loads' =>
          rw [has.unique distinct member member' has'] at loads
          exact Except.ok.inj (loads.symm.trans loads')
      | wildcard _ none => exact absurd has (none e member)
      | default none => exact absurd has (none e member)
  | wildcard e none member has loads =>
      cases second with
      | exactName e' member' has' => exact absurd has' (none e' member')
      | wildcard e' _ member' has' loads' =>
          rw [has.unique distinct member member' has'] at loads
          exact Except.ok.inj (loads.symm.trans loads')
      | default _ noWildcard => exact absurd has (noWildcard e member)
  | default none noWildcard loads =>
      cases second with
      | exactName e' member' has' => exact absurd has' (none e' member')
      | wildcard e' _ member' has' => exact absurd has' (noWildcard e' member')
      | default _ _ loads' => exact Except.ok.inj (loads.symm.trans loads')

/-! ## Rearranged configurations -/

/-- The same files and the same names, in any order and spelling. -/
structure SniCertConfig.Rearranged (e e' : SniCertConfig) : Prop where
  certFile : e'.certFile = e.certFile
  keyFile : e'.keyFile = e.keyFile
  serverNames : ∃ names, e.serverNames.Perm names ∧ List.Forall₂ Respelled e'.serverNames names

/-- The same files and the same entries in any order, each with its names in any order. -/
structure TlsConfig.Rearranged (cfg cfg' : TlsConfig) : Prop where
  certFile : cfg'.certFile = cfg.certFile
  keyFile : cfg'.keyFile = cfg.keyFile
  sni : ∃ entries, cfg.sni.Perm entries ∧ List.Forall₂ SniCertConfig.Rearranged entries cfg'.sni

variable {e e' : SniCertConfig} {cfg' : TlsConfig}

theorem normalize_respelled {raws names : List Text}
    (respelled : List.Forall₂ Respelled raws names) :
    raws.map normalizeSniPattern = names.map normalizeSniPattern := by
  induction respelled with
  | nil => rfl
  | cons first _ ih =>
      rw [List.map_cons, List.map_cons, ih, normalizeSniPattern_congr first.folded]

theorem SniCertConfig.Rearranged.normalized (rearranged : e.Rearranged e') :
    (e'.serverNames.map normalizeSniPattern).Perm (e.serverNames.map normalizeSniPattern) := by
  obtain ⟨names, permuted, respelled⟩ := rearranged.serverNames
  rw [normalize_respelled respelled]
  exact (permuted.map _).symm

theorem SniCertConfig.Rearranged.mem_names (rearranged : e.Rearranged e') {name : Text} :
    name ∈ e'.names ↔ name ∈ e.names := by
  have names (entry : SniCertConfig) : entry.names =
      (entry.serverNames.map normalizeSniPattern).filterMap id := by
    rw [List.filterMap_map, Function.id_comp, SniCertConfig.names]
  rw [names, names]
  exact (rearranged.normalized.filterMap id).mem_iff

theorem SniCertConfig.Rearranged.hasExact (rearranged : e.Rearranged e') {candidate : Text} :
    e'.HasExact candidate ↔ e.HasExact candidate := by
  rw [HasExact, HasExact, rearranged.mem_names]

theorem SniCertConfig.Rearranged.hasWildcard (rearranged : e.Rearranged e') {candidate : Text} :
    e'.HasWildcard candidate ↔ e.HasWildcard candidate := by
  simp only [HasWildcard, rearranged.mem_names]

theorem SniCertConfig.Rearranged.loads (rearranged : e.Rearranged e') {key : Key} :
    e'.Loads files key ↔ e.Loads files key := by
  rw [Loads, Loads, rearranged.certFile, rearranged.keyFile]

theorem TlsConfig.Rearranged.mem (rearranged : cfg.Rearranged cfg') :
    (∀ e ∈ cfg.sni, ∃ e' ∈ cfg'.sni, e.Rearranged e') ∧
      ∀ e' ∈ cfg'.sni, ∃ e ∈ cfg.sni, e.Rearranged e' := by
  obtain ⟨entries, permuted, related⟩ := rearranged.sni
  obtain ⟨first, second⟩ := related_mem related
  simp only [permuted.mem_iff]
  exact ⟨first, second⟩

/-- The slot of an entry can be built from it rearranged. -/
theorem SniCertConfig.Rearranged.exists_slotOf (rearranged : e.Rearranged e')
    (built : slotOf files e = .ok slot) : ∃ slot', slotOf files e' = .ok slot' := by
  obtain ⟨⟨valid, -⟩, loaded, stamped, -⟩ := slotOf_eq_ok.mp built
  have valid' : ∀ raw ∈ e'.serverNames, (normalizeSniPattern raw).isSome = true := by
    have every : ∀ pattern ∈ e.serverNames.map normalizeSniPattern, pattern.isSome = true :=
      List.forall_mem_map.mpr valid
    intro raw member
    exact every _ (rearranged.normalized.mem_iff.mp (List.mem_map_of_mem member))
  rw [← rearranged.certFile, ← rearranged.keyFile] at loaded stamped
  exact ⟨⟨e'.names, e'.certFile, e'.keyFile, slot.stamp, slot.certified⟩,
    slotOf_eq_ok.mpr ⟨⟨valid', rfl⟩, loaded, stamped, rfl, rfl⟩⟩

theorem exists_slotsOf {entries : List SniCertConfig}
    (built : ∀ entry ∈ entries, ∃ slot, slotOf files entry = .ok slot) :
    ∃ slots, slotsOf files entries = .ok slots := by
  induction entries with
  | nil => exact ⟨[], rfl⟩
  | cons entry rest ih =>
      obtain ⟨⟨slot, first⟩, others⟩ := List.forall_mem_cons.mp built
      obtain ⟨slots, later⟩ := ih others
      rw [slotsOf_eq_ok] at later
      exact ⟨slot :: slots, slotsOf_eq_ok.mpr (.cons first later)⟩

theorem TlsConfig.Rearranged.exists_fromConfig (rearranged : cfg.Rearranged cfg')
    (built : fromConfig files cfg = .ok store) : ∃ store', fromConfig files cfg' = .ok store' := by
  obtain ⟨loaded, stamped, slots, -, -⟩ := fromConfig_eq_ok.mp built
  obtain ⟨slots', built'⟩ : ∃ slots', slotsOf files cfg'.sni = .ok slots' := by
    apply exists_slotsOf
    intro e' member'
    obtain ⟨e, member, same⟩ := rearranged.mem.2 e' member'
    obtain ⟨slot, -, isSlot⟩ := (related_mem slots).1 e member
    exact same.exists_slotOf isSlot
  rw [← rearranged.certFile, ← rearranged.keyFile] at loaded stamped
  exact ⟨⟨cfg'.certFile, cfg'.keyFile, store.defaultStamp, store.defaultCertified, slots'⟩,
    fromConfig_eq_ok.mpr ⟨loaded, stamped, slotsOf_eq_ok.mp built', rfl, rfl⟩⟩

/-- What a name resolves to in a rearranged configuration it resolves to in the original. -/
theorem TlsConfig.Rearranged.resolved (rearranged : cfg.Rearranged cfg')
    {candidate : Text} {key : Key}
    (resolved : Resolved files cfg' candidate key) : Resolved files cfg candidate key := by
  obtain ⟨forth, back⟩ := rearranged.mem
  have noExact (none : ∀ e' ∈ cfg'.sni, ¬e'.HasExact candidate) :
      ∀ e ∈ cfg.sni, ¬e.HasExact candidate := by
    intro e member has
    obtain ⟨e', member', same⟩ := forth e member
    exact none e' member' (same.hasExact.mpr has)
  cases resolved with
  | exactName e' member' has loads =>
      obtain ⟨e, member, same⟩ := back e' member'
      exact .exactName e member (same.hasExact.mp has) (same.loads.mp loads)
  | wildcard e' none member' has loads =>
      obtain ⟨e, member, same⟩ := back e' member'
      exact .wildcard e (noExact none) member (same.hasWildcard.mp has) (same.loads.mp loads)
  | default none noWildcard loads =>
      apply Resolved.default (noExact none)
      · intro e member has
        obtain ⟨e', member', same⟩ := forth e member
        exact noWildcard e' member' (same.hasWildcard.mpr has)
      · rwa [rearranged.certFile, rearranged.keyFile] at loads

end Resolution

/-! ## The certificate for a name -/

/-- A list whose elements are different and all equal has at most one. -/
theorem length_le_one {l : List Text} (distinct : l.Nodup) (same : ∀ a ∈ l, ∀ b ∈ l, a = b) :
    l.length ≤ 1 := by
  cases l with
  | nil => exact Nat.zero_le _
  | cons a rest =>
      cases rest with
      | nil => exact le_rfl
      | cons b rest =>
          have equal : a = b := same a (List.mem_cons_self ..) b (by simp)
          exact absurd (equal ▸ List.mem_cons_self ..) (List.nodup_cons.mp distinct).1

/-- At most one exact name and one wildcard match a server name; the exact name decides,
then the wildcard, then the default; spelling and order play no role. -/
theorem resolveName_unambiguous {Stamp Key : Type} {files files' : Files Stamp Key} {ctx : String}
    {cfg : TlsConfig} {store : CertStore Stamp Key} (accepted : cfg.validate files' ctx = .ok ())
    (built : fromConfig files cfg = .ok store) :
    (∀ name,
      (cfg.names.filter fun p => !isWildcard p && sniMatches p name).length ≤ 1 ∧
      (cfg.names.filter fun p => isWildcard p && sniMatches p name).length ≤ 1) ∧
    (∀ name candidate, toAsciiLowercase (trim name) = candidate →
      (∀ e ∈ cfg.sni, e.HasExact candidate → e.Loads files (store.resolveName (some name))) ∧
      ((∀ e ∈ cfg.sni, ¬e.HasExact candidate) →
        (∀ e ∈ cfg.sni, e.HasWildcard candidate → e.Loads files (store.resolveName (some name))) ∧
        ((∀ e ∈ cfg.sni, ¬e.HasWildcard candidate) →
          files.load cfg.certFile cfg.keyFile = .ok (store.resolveName (some name))))) ∧
    files.load cfg.certFile cfg.keyFile = .ok (store.resolveName none) ∧
    (∀ name name', Respelled name' name →
      store.resolveName (some name') = store.resolveName (some name)) ∧
    ∀ cfg', cfg.Rearranged cfg' → ∃ store', fromConfig files cfg' = .ok store' ∧
      ∀ name, store'.resolveName name = store.resolveName name := by
  have distinct := cfg.nodup_of_validate accepted
  obtain ⟨loaded, -, slots, -⟩ := fromConfig_eq_ok.mp built
  have loads (e : SniCertConfig) (member : e ∈ cfg.sni) : ∃ key, e.Loads files key := by
    obtain ⟨slot, -, isSlot⟩ := (related_mem slots).1 e member
    exact ⟨slot.certified, (slotOf_eq_ok.mp isSlot).2.1⟩
  refine ⟨fun name => ⟨?_, ?_⟩, ?_, loaded, ?_, ?_⟩
  · apply length_le_one (distinct.filter _)
    simp only [List.mem_filter, Bool.and_eq_true, Bool.not_eq_true']
    rintro p ⟨-, isExact, matches_⟩ q ⟨-, isExact', matches'⟩
    rw [(sniMatches_exact isExact name).mp matches_, (sniMatches_exact isExact' name).mp matches']
  · apply length_le_one (distinct.filter _)
    simp only [List.mem_filter, Bool.and_eq_true, isWildcard_iff]
    rintro _ ⟨-, ⟨domain, rfl⟩, matches_⟩ _ ⟨-, ⟨domain', rfl⟩, matches'⟩
    rw [sniMatches_wildcard] at matches_ matches'
    rw [matches_.unique matches']
  · rintro name _ rfl
    have resolved := resolved_resolveName built name
    refine ⟨?_, fun noExact => ⟨?_, fun noWildcard => ?_⟩⟩
    · intro e member has
      obtain ⟨key, loads⟩ := loads e member
      exact (Resolved.exactName e member has loads).unique distinct resolved ▸ loads
    · intro e member has
      obtain ⟨key, loads⟩ := loads e member
      exact (Resolved.wildcard e noExact member has loads).unique distinct resolved ▸ loads
    · exact (Resolved.default noExact noWildcard loaded).unique distinct resolved ▸ loaded
  · intro name name' respelled
    have resolved := resolved_resolveName built name'
    rw [respelled.folded] at resolved
    exact resolved.unique distinct (resolved_resolveName built name)
  · intro cfg' rearranged
    obtain ⟨store', built'⟩ := rearranged.exists_fromConfig built
    refine ⟨store', built', fun name => ?_⟩
    cases name with
    | none =>
        have loaded' := (fromConfig_eq_ok.mp built').1
        rw [rearranged.certFile, rearranged.keyFile] at loaded'
        exact Except.ok.inj (loaded'.symm.trans loaded)
    | some name =>
        exact (rearranged.resolved (resolved_resolveName built' name)).unique distinct
          (resolved_resolveName built name)

/-- Two entries, one with a wildcard. -/
def sampleConfig : TlsConfig where
  certFile := "default.crt".toList
  keyFile := "default.key".toList
  sni :=
    [⟨["*.b.io".toList, "X.a.io".toList], "one.crt".toList, "one.key".toList⟩,
      ⟨["x.b.io ".toList], "two.crt".toList, "two.key".toList⟩]

/-- The certificate is the name of its file. -/
def sampleFiles : Files Unit Text where
  stat _ _ := .ok ()
  load certFile _ := .ok certFile

/-- The exact name wins over the wildcard, which has the other names below its domain. -/
theorem resolveName_unambiguous_sample :
    ∃ store, fromConfig sampleFiles sampleConfig = .ok store ∧
      store.resolveName (some "X.B.io".toList) = "two.crt".toList ∧
      store.resolveName (some "y.b.io".toList) = "one.crt".toList ∧
      ∀ name name', Respelled name' name →
        store.resolveName (some name') = store.resolveName (some name) := by
  have accepted : sampleConfig.validate sampleFiles "" = .ok () := by decide +kernel
  have found : (fromConfig sampleFiles sampleConfig).toOption.any (fun store => decide
      (store.resolveName (some "X.B.io".toList) = "two.crt".toList ∧
        store.resolveName (some "y.b.io".toList) = "one.crt".toList)) = true := by
    decide +kernel
  cases built : fromConfig sampleFiles sampleConfig with
  | error err =>
      rw [built] at found
      cases found
  | ok store =>
      rw [built] at found
      have names := of_decide_eq_true found
      exact ⟨store, rfl, names.1, names.2, (resolveName_unambiguous accepted built).2.2.2.1⟩

end FleetRouter.Tls
