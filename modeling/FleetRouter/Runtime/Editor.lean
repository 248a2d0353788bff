import Mathlib.Data.String.Basic
import FleetRouter.Lib.Fallible
import FleetRouter.Lib.JsonText
import FleetRouter.Runtime.Replace

/-!
# The configuration editor

The dashboard loads the configuration file, changes it and has it reloaded.  The control token
is replaced by a placeholder in what it shows, and put back into a draft that is saved.  Other
programs edit the file at any time, also while a change is under way; the changes themselves
hold the engine's lock.
-/

namespace FleetRouter.Editor

open JsonText Transition

def maxSource : Nat := 1024 * 1024

def keepSecret : String := "__FLEET_ROUTER_KEEP_SECRET__"

/-! ## The control token -/

variable {ν : Type}

/-- A parsed JSON value; its objects are maps sorted by key. -/
@[ext]
structure Json (ν : Type) where
  value : Value ν String
  sorted : value.Sorted

namespace Json

variable (v : Json ν)

/-- The string at `/dashboard/control_token`. -/
def token : Option String :=
  ((v.value.member "dashboard").bind (Value.member "control_token")).bind Value.asStr

/-- Replaces what is at `/dashboard/control_token`. -/
def setToken (secret : String) : Json ν where
  value := v.value.modifyMember "dashboard" (Value.modifyMember "control_token" fun _ =>
    .scalar (.string secret))
  sorted := v.sorted.modifyMember fun _ inner => inner.modifyMember fun _ _ => .scalar _

theorem setToken_setToken (secret secret' : String) :
    (v.setToken secret).setToken secret' = v.setToken secret' := by
  simp only [setToken, Value.modifyMember_modifyMember, mk.injEq]
  congr 1
  funext inner
  rw [Function.comp_apply, Value.modifyMember_modifyMember]
  rfl

variable {v}

theorem token_setToken (present : v.token.isSome) (secret : String) :
    (v.setToken secret).token = some secret := by
  simp only [token, setToken, Value.member_modifyMember] at present ⊢
  cases dashboard : v.value.member "dashboard" with
  | none => simp [dashboard] at present
  | some inner =>
      rw [dashboard, Option.bind_some] at present
      rw [Option.map_some, Option.bind_some, Value.member_modifyMember]
      cases control : inner.member "control_token" with
      | none => simp [control] at present
      | some old => rfl

theorem setToken_token {secret : String} (isToken : v.token = some secret) :
    v.setToken secret = v := by
  obtain ⟨control, found, isString⟩ := Option.bind_eq_some_iff.mp isToken
  obtain ⟨dashboard, inner, member⟩ := Option.bind_eq_some_iff.mp found
  apply Json.ext
  apply Value.modifyMember_eq_self
  intro w isDashboard
  rw [inner] at isDashboard
  cases isDashboard
  apply Value.modifyMember_eq_self
  intro w isMember
  rw [member] at isMember
  cases isMember
  exact (Value.asStr_eq_some isString).symm

end Json

/-- The placeholder stands for a token that is a string. -/
def Json.hide (v : Json ν) : Json ν := if v.token.isSome then v.setToken keepSecret else v

theorem Json.hide_setToken {v : Json ν} (present : v.token.isSome) (secret : String) :
    (v.setToken secret).hide = v.hide := by
  rw [hide, hide, token_setToken present, Option.isSome_some, if_pos rfl, if_pos present,
    setToken_setToken]

/-! ## Texts -/

/-- How texts are read, printed and told apart.  Printing and parsing are inverse, with or
without a line feed at the end, and different texts have different revisions. -/
structure Format (ν : Type) where
  parse : String → Except String (Json ν)
  print : Json ν → String
  diskRevision : String → String
  readConfig : String → Except String ServerConfig
  warnings : ServerConfig → List String
  /-- Whether the dashboard's own settings differ. -/
  accessDiffers : ServerConfig → ServerConfig → Bool
  parse_print : ∀ v, parse (print v) = .ok v
  parse_printLine : ∀ v, parse (print v ++ "\n") = .ok v
  diskRevision_injective : Function.Injective diskRevision

/-- Reads the file, whose contents or error are given. -/
def readSource (file : Except String String) : Except String String :=
  file.bind fun source =>
    if maxSource < source.utf8ByteSize then .error "configuration exceeds 1 MiB" else .ok source

namespace Format

variable (F : Format ν)

def redact (source : String) : Except String String := (F.parse source).map fun v => F.print v.hide

def restoreSecret (source previous : String) : Except String String :=
  (F.parse source).bind fun v =>
    if v.token = some keepSecret then
      (F.parse previous).bind fun old =>
        match old.token with
        | none => .error "no saved control token to preserve"
        | some secret => .ok (F.print (v.setToken secret) ++ "\n")
    else .ok (F.print v ++ "\n")

/-- The file, or the running configuration while the file is not JSON. -/
def previous (disk running : String) : String := if (F.parse disk).isOk then disk else running

end Format

/-! ## Requests and answers -/

structure Change where
  expectedRevision : Nat
  expectedDiskRevision : String
  source : Option String
  deriving DecidableEq

inductive Route where
  | save
  | reload
  | validate
  deriving DecidableEq, Repr

inductive Status where
  | badRequest
  | conflict
  | payloadTooLarge
  deriving DecidableEq, Repr

structure ApiError where
  status : Status
  message : String
  deriving DecidableEq, Repr

/-- What the engine runs. -/
structure Running where
  revision : Nat
  source : String
  config : Option ServerConfig

structure Document where
  revision : Nat
  diskRevision : String
  source : String
  diskError : Option String
  diskMatchesRunning : Bool
  warnings : List String

/-- What preparing a configuration comes to. -/
structure Outcome where
  listeners : Nat
  upstreams : Nat
  replacedListeners : List String

structure Summary extends Outcome where
  warnings : List String

structure Applied where
  revision : Nat
  diskRevision : String
  summary : Summary
  source : String
  accessChanged : Bool

/-- The file and the running configuration a request met. -/
structure Seen where
  file : Except String String
  running : String

/-- An answer to the editor, with what its request met; a change that was applied also with
what it wrote to the file and the configuration that runs since. -/
inductive Answer where
  | document (d : Document) (seen : Seen)
  | applied (request : Change) (route : Route) (r : Applied) (seen : Seen) (written : Option String)
      (running : String)
  | validated (summary : Summary)
  | failed (err : ApiError)

def notJson (err : String) : String :=
  "File is not valid JSON: " ++ err ++ ". The editor shows the running configuration."

namespace Format

variable (F : Format ν)

def document (file : Except String String) (engine : Running) : Except String Document :=
  (readSource file).bind fun disk =>
    let answer (source : String) (diskError : Option String) : Document :=
      { revision := engine.revision
        diskRevision := F.diskRevision disk
        source
        diskError
        diskMatchesRunning := disk = engine.source
        warnings := (engine.config.map F.warnings).getD [] }
    match F.redact disk with
    | .ok source => .ok (answer source none)
    | .error err => (F.redact engine.source).map fun source => answer source (some (notJson err))

end Format

/-! ## Changes -/

/-- What the answer to a change will have. -/
structure Reply where
  summary : Summary
  source : String
  accessChanged : Bool

/-- Where a change is; other programs can edit the file in between. -/
inductive Phase where
  | preparing
  | prepared (summary : Summary)
  /-- The file is as it was; a save is to write its temporary file. -/
  | checked (reply : Reply)
  | staged (reply : Reply)
  /-- The file is still as it was and is to be replaced. -/
  | confirmed (reply : Reply)
  | ready (reply : Reply)

/-- The change that holds the engine's lock. -/
structure Pending where
  request : Change
  route : Route
  seen : Seen
  disk : String
  source : String
  config : ServerConfig
  phase : Phase
  written : Option String

def badRequest (message : String) : ApiError := ⟨.badRequest, message⟩

namespace Format

variable (F : Format ν)

/-- The configuration that is to run. -/
def proposed (request : Change) (route : Route) (disk running : String) : Except ApiError String :=
  let misplaced := badRequest "save requires source; reload reads the configured file"
  match request.source with
  | some draft =>
      if route = .reload then .error misplaced
      else if maxSource < draft.utf8ByteSize then
        .error ⟨.payloadTooLarge, "configuration exceeds 1 MiB"⟩
      else (F.restoreSecret draft (F.previous disk running)).mapError badRequest
  | none => if route = .save then .error misplaced else .ok disk

/-- A change up to the preparation of its configuration. -/
def accept (file : Except String String) (engine : Running) (request : Change) (route : Route) :
    Except ApiError Pending := do
  let disk ← (readSource file).mapError badRequest
  if engine.revision ≠ request.expectedRevision ∨
      F.diskRevision disk ≠ request.expectedDiskRevision then
    throw ⟨.conflict,
      "configuration changed since it was loaded; load the file again before applying"⟩
  let source ← F.proposed request route disk engine.source
  let config ← (F.readConfig source).mapError badRequest
  return ⟨request, route, ⟨file, engine.source⟩, disk, source, config, .preparing, none⟩

end Format

/-- The file is read again and must be as it was. -/
def recheck (file : Except String String) (disk message : String) : Except ApiError Unit :=
  match readSource file with
  | .error err => .error (badRequest err)
  | .ok now => if now = disk then .ok () else .error ⟨.conflict, message⟩

/-! ## Runs -/

/-- The file, the engine, the change under way and the answers, newest first. -/
structure EditorRun where
  file : Except String String
  engine : Running
  pending : Option Pending
  log : List Answer

inductive EditorEvent where
  /-- Another program edits the file. -/
  | edit (file : Except String String)
  | load
  | submit (request : Change) (route : Route)
  /-- The configuration was prepared or could not be. -/
  | prepared (result : Except String Outcome)
  | recheck
  /-- The temporary file was written or could not be. -/
  | stage (result : Except String Unit)
  | confirm
  /-- The file was replaced or could not be. -/
  | persist (result : Except String Unit)
  | commit

namespace EditorRun

variable (F : Format ν) (s : EditorRun)

/-- The answer ends the change that was under way. -/
def answer (a : Answer) : EditorRun := { s with pending := none, log := a :: s.log }

/-- The change goes on, or ends with an error. -/
def advance (p : Pending) (outcome : Except ApiError Phase) : EditorRun :=
  match outcome with
  | .error err => s.answer (.failed err)
  | .ok phase => { s with pending := some { p with phase } }

def step : EditorEvent → Option EditorRun
  | .edit file => some { s with file }
  | .load =>
      match s.pending with
      | some _ => none
      | none =>
          match F.document s.file s.engine with
          | .error err => some (s.answer (.failed (badRequest err)))
          | .ok d => some (s.answer (.document d ⟨s.file, s.engine.source⟩))
  | .submit request route =>
      match s.pending with
      | some _ => none
      | none =>
          match F.accept s.file s.engine request route with
          | .error err => some (s.answer (.failed err))
          | .ok p => some { s with pending := some p }
  | .prepared result =>
      s.pending.bind fun p =>
        match p.phase with
        | .preparing =>
            match result with
            | .error err => some (s.answer (.failed (badRequest err)))
            | .ok outcome =>
                let summary : Summary := ⟨outcome, F.warnings p.config⟩
                some (if p.route = .validate then s.answer (.validated summary)
                  else { s with pending := some { p with phase := .prepared summary } })
        | _ => none
  | .recheck =>
      s.pending.bind fun p =>
        match p.phase with
        | .prepared summary =>
            some (s.advance p do
              recheck s.file p.disk "configuration file changed during validation; load it again"
              let source ← (F.redact p.source).mapError badRequest
              let reply : Reply :=
                ⟨summary, source, s.engine.config.any (F.accessDiffers · p.config)⟩
              return if p.route = .save then .checked reply else .ready reply)
        | _ => none
  | .stage result =>
      s.pending.bind fun p =>
        match p.phase with
        | .checked reply =>
            some (s.advance p ((result.mapError badRequest).map fun _ => .staged reply))
        | _ => none
  | .confirm =>
      s.pending.bind fun p =>
        match p.phase with
        | .staged reply =>
            some (s.advance p
              ((recheck s.file p.disk "configuration file changed while saving; load it again").map
                fun _ => .confirmed reply))
        | _ => none
  | .persist result =>
      s.pending.bind fun p =>
        match p.phase with
        | .confirmed reply =>
            match result with
            | .error err => some (s.answer (.failed (badRequest err)))
            | .ok _ =>
                some
                  { s with
                    file := .ok p.source
                    pending := some { p with phase := .ready reply, written := some p.source } }
        | _ => none
  | .commit =>
      s.pending.bind fun p =>
        match p.phase with
        | .ready reply =>
            let engine : Running := ⟨s.engine.revision + 1, p.source, some p.config⟩
            some ({ s with engine }.answer (.applied p.request p.route
              ⟨engine.revision, F.diskRevision p.source, reply.summary, reply.source,
                reply.accessChanged⟩
              p.seen p.written p.source))
        | _ => none

end EditorRun

/-- A started router: nothing was asked of its editor yet. -/
def editorMachine (F : Format ν) : Machine EditorRun EditorEvent where
  init s := s.pending = none ∧ s.log = []
  step := EditorRun.step F

/-! ## The engine -/

theorem engine_modify {s s' : Runtime} {id : Nat} {f : Generation → Option Generation}
    (modified : s.modify id f = some s') : s'.engine = s.engine := by
  unfold Runtime.modify at modified
  split at modified
  · cases modified
  · obtain ⟨g', -, rfl⟩ := Option.map_eq_some_iff.mp modified
    rfl

/-- Only a commit changes the revision and the source that runs, and it counts the revision up,
as the editor's does. -/
theorem running_of_step {s s' : Runtime} {e : RuntimeEvent} (step : s.step e = some s') :
    (s'.engine.revision = s.engine.revision ∧ s'.engine.source = s.engine.source) ∨
      ∃ config env source, e = .commit config env source ∧
        s'.engine.revision = s.engine.revision + 1 ∧ s'.engine.source = source := by
  cases e with
  | commit config env source =>
      simp only [Runtime.step, Runtime.commit] at step
      split at step
      · split at step
        · cases step
          exact .inl ⟨rfl, rfl⟩
        · cases step
          exact .inr ⟨config, env, source, rfl, rfl, rfl⟩
      · cases step
  | close port id =>
      rw [engine_modify step]
      exact .inl ⟨rfl, rfl⟩
  | takePermit addr =>
      simp only [Runtime.step, Runtime.takePermit] at step
      split at step
      · cases step
      · split at step
        · cases step
        · split at step
          · cases step
            exact .inl ⟨rfl, rfl⟩
          · cases step
            cases taken : Runtime.modify _ _ _ with
            | none => exact .inl ⟨rfl, rfl⟩
            | some s' =>
                rw [Option.getD_some, engine_modify taken]
                exact .inl ⟨rfl, rfl⟩
  | dispatch addr => exact .inl (by grind [Runtime.step, Runtime.dispatch])
  | count addr => exact .inl (by grind [Runtime.step, Runtime.count])
  | publish => exact .inl (by grind [Runtime.step, Runtime.publish])
  | finish => exact .inl (by grind [Runtime.step, Runtime.finish])
  | reap => exact .inl (by grind [Runtime.step, Runtime.reap])
  | publishReap => exact .inl (by grind [Runtime.step, Runtime.publishReap])

/-! ## What is shown and what is restored -/

namespace Format

variable {F : Format ν}

/-- The texts are equal, or JSON that differs in the string at `/dashboard/control_token`. -/
def SameButToken (F : Format ν) (text text' : String) : Prop :=
  text = text' ∨ ∃ v secret, F.parse text = .ok v ∧ v.token.isSome ∧
    F.parse text' = .ok (v.setToken secret)

theorem redact_congr {text text' : String} (same : F.SameButToken text text') :
    F.redact text = F.redact text' := by
  rcases same with rfl | ⟨v, secret, parsed, present, parsed'⟩
  · rfl
  · rw [redact, redact, parsed, parsed', Except.map, Except.map, v.hide_setToken present]

theorem previous_congr {disk disk' running running' : String} (disks : F.SameButToken disk disk')
    (runnings : F.SameButToken running running') :
    F.SameButToken (F.previous disk running) (F.previous disk' running') := by
  rcases disks with rfl | ⟨v, secret, parsed, present, parsed'⟩
  · rw [previous, previous]
    split
    · exact .inl rfl
    · exact runnings
  · rw [previous, previous, parsed, parsed']
    exact .inr ⟨v, secret, parsed, present, parsed'⟩

/-- What a document shows is the redaction of the file, or of what runs. -/
theorem document_eq {file : Except String String} {disk : String} (engine : Running)
    (read : readSource file = .ok disk) :
    ∃ diskError, F.document file engine =
      (F.redact (F.previous disk engine.source)).map fun source =>
        ⟨engine.revision, F.diskRevision disk, source, diskError, disk = engine.source,
          (engine.config.map F.warnings).getD []⟩ := by
  rw [document, read, previous]
  cases parsed : F.parse disk with
  | ok v =>
      have hidden : F.redact disk = .ok (F.print v.hide) := by
        rw [redact, parsed]
        rfl
      refine ⟨none, ?_⟩
      simp only [Except.bind, hidden, Except.isOk, Except.toBool, if_true, Except.map]
  | error err =>
      have noJson : F.redact disk = .error err := by
        rw [redact, parsed]
        rfl
      refine ⟨some (notJson err), ?_⟩
      simp only [Except.bind, noJson, Except.isOk, Except.toBool, Bool.false_eq_true, if_false]

theorem exists_document {file : Except String String} {disk source : String} (engine : Running)
    (read : readSource file = .ok disk)
    (redacted : F.redact (F.previous disk engine.source) = .ok source) :
    ∃ d, F.document file engine = .ok d ∧ d.revision = engine.revision ∧
      d.diskRevision = F.diskRevision disk ∧ d.source = source := by
  obtain ⟨diskError, equation⟩ := document_eq engine read
  rw [equation, redacted]
  exact ⟨_, rfl, rfl, rfl, rfl⟩

theorem document_eq_ok {file : Except String String} {engine : Running} {d : Document}
    (shown : F.document file engine = .ok d) :
    ∃ disk, readSource file = .ok disk ∧ d.revision = engine.revision ∧
      d.diskRevision = F.diskRevision disk ∧
      F.redact (F.previous disk engine.source) = .ok d.source := by
  obtain ⟨disk, read, -⟩ := Fallible.bind_eq_ok.mp shown
  obtain ⟨diskError, equation⟩ := document_eq engine read
  rw [equation] at shown
  obtain ⟨source, redacted, rfl⟩ := Fallible.map_eq_ok.mp shown
  exact ⟨disk, read, rfl, rfl, redacted⟩

/-- A restored draft is the draft, with the token of the previous configuration for a
placeholder. -/
theorem restoreSecret_eq_ok {draft previous source : String}
    (restored : F.restoreSecret draft previous = .ok source) :
    ∃ v w, F.parse draft = .ok v ∧ source = F.print w ++ "\n" ∧
      (v.token = some keepSecret →
        ∃ c secret, F.parse previous = .ok c ∧ c.token = some secret ∧ w = v.setToken secret) ∧
      (v.token ≠ some keepSecret → w = v) := by
  obtain ⟨v, parsed, restored⟩ := Fallible.bind_eq_ok.mp restored
  split at restored
  · rename_i isPlaceholder
    obtain ⟨c, isPrevious, restored⟩ := Fallible.bind_eq_ok.mp restored
    split at restored
    · cases restored
    · rename_i secret isSecret
      cases restored
      exact ⟨v, v.setToken secret, parsed, rfl, fun _ => ⟨c, secret, isPrevious, isSecret, rfl⟩,
        fun other => absurd isPlaceholder other⟩
  · rename_i other
    cases restored
    exact ⟨v, v, parsed, rfl, fun isPlaceholder => absurd isPlaceholder other, fun _ => rfl⟩

theorem proposed_save {request : Change} {disk running source : String}
    (proposed : F.proposed request .save disk running = .ok source) :
    ∃ draft, request.source = some draft ∧
      F.restoreSecret draft (F.previous disk running) = .ok source := by
  unfold Format.proposed at proposed
  cases isDraft : request.source with
  | none =>
      simp only [isDraft, if_true] at proposed
      cases proposed
  | some draft =>
      simp only [isDraft, reduceCtorEq, if_false] at proposed
      split at proposed
      · cases proposed
      · exact ⟨draft, rfl, Fallible.mapError_eq_ok.mp proposed⟩

theorem proposed_reload {request : Change} {disk running source : String}
    (proposed : F.proposed request .reload disk running = .ok source) : source = disk := by
  unfold Format.proposed at proposed
  cases isDraft : request.source with
  | none =>
      simp only [isDraft, reduceCtorEq, if_false] at proposed
      exact (Except.ok.inj proposed).symm
  | some draft =>
      simp only [isDraft, if_true] at proposed
      cases proposed

/-- What a restored draft shows does not depend on the token. -/
theorem restoreSecret_sameButToken {draft previous previous' source source' : String}
    (restored : F.restoreSecret draft previous = .ok source)
    (restored' : F.restoreSecret draft previous' = .ok source') :
    F.SameButToken source source' := by
  obtain ⟨v, w, parsed, rfl, placeholder, other⟩ := restoreSecret_eq_ok restored
  obtain ⟨v', w', parsed', rfl, placeholder', other'⟩ := restoreSecret_eq_ok restored'
  rw [parsed] at parsed'
  cases parsed'
  by_cases isPlaceholder : v.token = some keepSecret
  · obtain ⟨_, secret, -, -, rfl⟩ := placeholder isPlaceholder
    obtain ⟨_, secret', -, -, rfl⟩ := placeholder' isPlaceholder
    have present : v.token.isSome := by rw [isPlaceholder, Option.isSome_some]
    refine .inr ⟨v.setToken secret, secret', F.parse_printLine _, ?_, ?_⟩
    · rw [v.token_setToken present, Option.isSome_some]
    · rw [F.parse_printLine, v.setToken_setToken]
  · rw [other isPlaceholder, other' isPlaceholder]
    exact .inl rfl

end Format

/-! ## What holds along a run -/

/-- What a document or the answer to a change shows: `config` is the configuration whose
redaction is the source. -/
structure Shown where
  revision : Nat
  diskRevision : String
  source : String
  config : String

def Answer.shows (F : Format ν) : Answer → Option Shown
  | .document d seen => (readSource seen.file).toOption.map fun disk =>
      ⟨d.revision, d.diskRevision, d.source, F.previous disk seen.running⟩
  | .applied _ _ r _ _ running => some ⟨r.revision, r.diskRevision, r.source, running⟩
  | .validated _ | .failed _ => none

/-- As long as the revisions are those shown, the draft is restored from what was shown. -/
structure Shown.Current (F : Format ν) (engine : Running) (shown : Shown) : Prop where
  redacted : F.redact shown.config = .ok shown.source
  past : shown.revision ≤ engine.revision
  previous : shown.revision = engine.revision → ∀ disk, F.diskRevision disk = shown.diskRevision →
    F.previous disk engine.source = shown.config

/-- The answer to a change shows what was proposed to it. -/
structure Explained (F : Format ν) (request : Change) (route : Route) (r : Applied) (seen : Seen)
    (running : String) : Prop where
  applies : route ≠ .validate
  redacted : F.redact running = .ok r.source
  proposed : ∃ disk, readSource seen.file = .ok disk ∧
    F.proposed request route disk seen.running = .ok running

/-- The configuration written and running is the draft, with the token of `config` for a
placeholder. -/
def Restores (F : Format ν) (request : Change) (config : String) (written : Option String)
    (running : String) : Prop :=
  written = some running ∧ ∃ draft v w, request.source = some draft ∧ F.parse draft = .ok v ∧
    F.parse running = .ok w ∧
    (v.token = some keepSecret →
      ∃ c secret, F.parse config = .ok c ∧ c.token = some secret ∧ w = v.setToken secret) ∧
    (v.token ≠ some keepSecret → w = v)

/-- A save with the revisions an older answer showed restores the token from there. -/
def Keeps (F : Format ν) (newer older : Answer) : Prop :=
  ∀ request r seen written running, newer = .applied request .save r seen written running →
    ∀ shown, older.shows F = some shown → shown.revision = request.expectedRevision →
      shown.diskRevision = request.expectedDiskRevision →
      Restores F request shown.config written running

def Phase.reply : Phase → Option Reply
  | .preparing | .prepared _ => none
  | .checked reply | .staged reply | .confirmed reply | .ready reply => some reply

/-- The change under way met the engine as it still is. -/
structure Admitted (F : Format ν) (engine : Running) (p : Pending) : Prop where
  revision : p.request.expectedRevision = engine.revision
  diskRevision : p.request.expectedDiskRevision = F.diskRevision p.disk
  read : readSource p.seen.file = .ok p.disk
  running : p.seen.running = engine.source
  proposed : F.proposed p.request p.route p.disk engine.source = .ok p.source
  applies : p.phase ≠ .preparing → p.route ≠ .validate
  reply : ∀ reply, p.phase.reply = some reply → F.redact p.source = .ok reply.source
  written : ∀ reply, p.phase = .ready reply → p.route = .save → p.written = some p.source

section Soundness

variable {F : Format ν} {file : Except String String} {engine : Running} {request : Change}
  {route : Route} {p : Pending}

theorem admitted_of_accept (accept : F.accept file engine request route = .ok p) :
    p.request = request ∧ p.route = route ∧ Admitted F engine p := by
  obtain ⟨disk, isDisk, accept⟩ := Fallible.bind_eq_ok.mp accept
  simp only at accept
  split at accept
  · cases accept
  · rename_i matching
    obtain ⟨revision, diskRevision⟩ := not_or.mp matching
    obtain ⟨source, proposed, accept⟩ := Fallible.bind_eq_ok.mp accept
    obtain ⟨config, -, accept⟩ := Fallible.bind_eq_ok.mp accept
    cases accept
    refine ⟨rfl, rfl, ?_⟩
    exact
      { revision := (not_not.mp revision).symm
        diskRevision := (not_not.mp diskRevision).symm
        read := Fallible.mapError_eq_ok.mp isDisk
        running := rfl
        proposed
        applies := fun later => absurd rfl later
        reply := fun _ none => by cases none
        written := fun _ other => by cases other }

theorem Admitted.withPhase {phase : Phase} (admitted : Admitted F engine p)
    (applies : p.route ≠ .validate)
    (reply : ∀ reply, phase.reply = some reply → F.redact p.source = .ok reply.source)
    (written : ∀ reply, phase = .ready reply → p.route = .save → p.written = some p.source) :
    Admitted F engine { p with phase } :=
  { admitted with applies := fun _ => applies, reply, written }

/-- The steps of a save after its first check keep the reply. -/
theorem Admitted.replied {phase : Phase} {reply : Reply} {written : Option String}
    (admitted : Admitted F engine p) (before : p.phase.reply = some reply)
    (after : phase.reply = some reply)
    (isWritten : ∀ reply, phase = .ready reply → p.route = .save → written = some p.source) :
    Admitted F engine { p with phase, written } := by
  have applies : p.route ≠ .validate := by
    apply admitted.applies
    intro preparing
    rw [preparing] at before
    cases before
  refine { admitted with applies := fun _ => applies, reply := ?_, written := isWritten }
  intro reply' isReply
  rw [after] at isReply
  cases isReply
  exact admitted.reply reply before

/-- The first check stores the reply with the redaction of what was proposed. -/
theorem Admitted.checked {reply : Reply} (admitted : Admitted F engine p)
    (applies : p.route ≠ .validate) (redacted : F.redact p.source = .ok reply.source) :
    Admitted F engine
      { p with phase := if p.route = .save then .checked reply else .ready reply } := by
  apply admitted.withPhase applies
  · intro reply' isReply
    split at isReply <;> cases isReply <;> exact redacted
  · intro reply' isReady isSave
    rw [if_pos isSave] at isReady
    cases isReady

end Soundness

namespace EditorRun

/-- Everything shown is explained by what it was made from. -/
structure Sound (F : Format ν) (s : EditorRun) : Prop where
  shown : ∀ a ∈ s.log, ∀ shown, a.shows F = some shown → shown.Current F s.engine
  explained : ∀ request route r seen written running,
    .applied request route r seen written running ∈ s.log → Explained F request route r seen running
  keeps : s.log.Pairwise (Keeps F)
  admitted : ∀ p, s.pending = some p → Admitted F s.engine p

variable {F : Format ν} {s s' : EditorRun} {p : Pending}

/-- What an answer has to satisfy, whatever engine it leaves. -/
theorem Sound.answer {a : Answer} (sound : s.Sound F) (engine : Running)
    (later : ∀ shown : Shown, shown.Current F s.engine → shown.Current F engine)
    (shown : ∀ shown, a.shows F = some shown → shown.Current F engine)
    (explained : ∀ request route r seen written running,
      a = .applied request route r seen written running → Explained F request route r seen running)
    (keeps : ∀ older ∈ s.log, Keeps F a older) : Sound F ({ s with engine }.answer a) where
  shown := by
    intro b member
    rcases List.mem_cons.mp member with rfl | older
    · exact shown
    · exact fun old shows => later old (sound.shown b older old shows)
  explained := by
    intro request route r seen written running member
    rcases List.mem_cons.mp member with new | older
    · exact explained _ _ _ _ _ _ new.symm
    · exact sound.explained _ _ _ _ _ _ older
  keeps := List.pairwise_cons.mpr ⟨keeps, sound.keeps⟩
  admitted := fun p isPending => by cases isPending

/-- An answer that shows nothing leaves the rest as it was. -/
theorem Sound.silent (sound : s.Sound F) {a : Answer} (silent : a.shows F = none) :
    (s.answer a).Sound F := by
  apply sound.answer s.engine (fun _ current => current)
  · intro shown shows
    rw [silent] at shows
    cases shows
  · rintro request route r seen written running rfl
    cases silent
  · rintro older - request r seen written running rfl
    cases silent

theorem Sound.document {d : Document} (sound : s.Sound F)
    (shown : F.document s.file s.engine = .ok d) :
    (s.answer (.document d ⟨s.file, s.engine.source⟩)).Sound F := by
  obtain ⟨disk, read, revision, diskRevision, redacted⟩ := Format.document_eq_ok shown
  apply sound.answer s.engine (fun _ current => current)
  · intro shown shows
    rw [Answer.shows, read] at shows
    cases shows
    refine ⟨redacted, revision.le, ?_⟩
    intro _ disk' same
    rw [diskRevision] at same
    rw [F.diskRevision_injective same]
  · intro request route r seen written running isApplied
    cases isApplied
  · intro older _ request r seen written running isApplied
    cases isApplied

/-- The change under way goes on. -/
theorem Sound.pending (sound : s.Sound F) (admitted : Admitted F s.engine p)
    (file : Except String String) : Sound F { s with file, pending := some p } where
  shown := sound.shown
  explained := sound.explained
  keeps := sound.keeps
  admitted := fun q isPending => by
    cases isPending
    exact admitted

/-- A save was checked against what runs, so the token comes from what was shown. -/
theorem Sound.restored {shown : Shown} {older : Answer} (sound : s.Sound F)
    (admitted : Admitted F s.engine p) (isSave : p.route = .save) (member : older ∈ s.log)
    (shows : older.shows F = some shown) (revision : shown.revision = p.request.expectedRevision)
    (diskRevision : shown.diskRevision = p.request.expectedDiskRevision) :
    ∃ draft, p.request.source = some draft ∧ F.restoreSecret draft shown.config = .ok p.source := by
  have isPrevious := (sound.shown older member shown shows).previous
    (revision.trans admitted.revision) p.disk (diskRevision.trans admitted.diskRevision).symm
  have proposed := admitted.proposed
  rw [isSave] at proposed
  rw [← isPrevious]
  exact Format.proposed_save proposed

theorem Sound.commit (sound : s.Sound F) (admitted : Admitted F s.engine p) {reply : Reply}
    (ready : p.phase = .ready reply) :
    Sound F ({ s with engine := ⟨s.engine.revision + 1, p.source, some p.config⟩ }.answer
      (.applied p.request p.route
        ⟨s.engine.revision + 1, F.diskRevision p.source, reply.summary, reply.source,
          reply.accessChanged⟩
        p.seen p.written p.source)) := by
  have redacted := admitted.reply reply (by rw [ready, Phase.reply])
  apply sound.answer _
  · intro shown current
    refine ⟨current.redacted, Nat.le_succ_of_le current.past, ?_⟩
    intro same
    exact absurd (same ▸ current.past) (Nat.not_succ_le_self _)
  · intro shown shows
    cases shows
    refine ⟨redacted, le_rfl, ?_⟩
    intro _ disk same
    rw [F.diskRevision_injective same, Format.previous, ite_self]
  · intro request route r seen written running isApplied
    cases isApplied
    refine ⟨admitted.applies (by simp [ready]), redacted, p.disk, admitted.read, ?_⟩
    rw [admitted.running]
    exact admitted.proposed
  · intro older member request r seen written running isApplied shown shows
    injection isApplied with isRequest isSave _ _ sameWritten isRunning
    subst isRequest sameWritten isRunning
    intro revision diskRevision
    obtain ⟨draft, isDraft, restored⟩ :=
      sound.restored admitted isSave member shows revision diskRevision
    obtain ⟨v, w, parsed, isSource, tokens⟩ := Format.restoreSecret_eq_ok restored
    refine ⟨admitted.written reply ready isSave, draft, v, w, isDraft, parsed, ?_, tokens⟩
    rw [isSource]
    exact F.parse_printLine w

/-- A change that goes on keeps what it was admitted with. -/
theorem Sound.advance (sound : s.Sound F) {outcome : Except ApiError Phase}
    (goes : ∀ phase, outcome = .ok phase → Admitted F s.engine { p with phase }) :
    (s.advance p outcome).Sound F := by
  cases outcome with
  | error err => exact sound.silent rfl
  | ok phase => exact sound.pending (goes phase rfl) s.file

/-- A step of a save that stores nothing new. -/
theorem Sound.carry {α : Type} {outcome : Except ApiError α} {phase : Phase} {reply : Reply}
    (sound : s.Sound F) (admitted : Admitted F s.engine p) (before : p.phase.reply = some reply)
    (after : phase.reply = some reply) (unfinished : ∀ reply, phase ≠ .ready reply) :
    (s.advance p (outcome.map fun _ => phase)).Sound F := by
  apply sound.advance
  intro phase' goes
  obtain ⟨-, -, rfl⟩ := Fallible.map_eq_ok.mp goes
  exact admitted.replied before after fun reply isReady => absurd isReady (unfinished reply)

theorem Sound.prepared (sound : s.Sound F) (admitted : Admitted F s.engine p) (summary : Summary) :
    Sound F (if p.route = .validate then s.answer (.validated summary)
      else { s with pending := some { p with phase := .prepared summary } }) := by
  split
  · exact sound.silent rfl
  · rename_i applies
    exact sound.pending (admitted.withPhase applies (fun _ none => by cases none)
      fun _ other => by cases other) s.file

theorem Sound.step {e : EditorEvent} (sound : s.Sound F) (step : s.step F e = some s') :
    s'.Sound F := by
  cases e with
  | edit file =>
      cases step
      exact ⟨sound.shown, sound.explained, sound.keeps, sound.admitted⟩
  | load =>
      simp only [EditorRun.step] at step
      split at step
      · cases step
      · split at step
        · cases step
          exact sound.silent rfl
        · rename_i shown
          cases step
          exact sound.document shown
  | submit request route =>
      simp only [EditorRun.step] at step
      split at step
      · cases step
      · split at step
        · cases step
          exact sound.silent rfl
        · rename_i p accept
          cases step
          exact sound.pending (admitted_of_accept accept).2.2 s.file
  | prepared result =>
      obtain ⟨p, isPending, step⟩ := Option.bind_eq_some_iff.mp step
      have admitted := sound.admitted p isPending
      split at step
      · split at step
        · cases step
          exact sound.silent rfl
        · cases step
          exact sound.prepared admitted _
      · cases step
  | recheck =>
      obtain ⟨p, isPending, step⟩ := Option.bind_eq_some_iff.mp step
      have admitted := sound.admitted p isPending
      split at step
      · rename_i summary phase
        cases step
        apply sound.advance
        intro phase' checked
        obtain ⟨⟨⟩, -, checked⟩ := Fallible.bind_eq_ok.mp checked
        obtain ⟨source, redacted, checked⟩ := Fallible.bind_eq_ok.mp checked
        cases checked
        exact admitted.checked (admitted.applies (by simp [phase]))
          (Fallible.mapError_eq_ok.mp redacted)
      · cases step
  | stage | confirm =>
      obtain ⟨p, isPending, step⟩ := Option.bind_eq_some_iff.mp step
      have admitted := sound.admitted p isPending
      split at step
      · rename_i reply phase
        cases step
        exact sound.carry admitted (by rw [phase, Phase.reply]) rfl nofun
      · cases step
  | persist result =>
      obtain ⟨p, isPending, step⟩ := Option.bind_eq_some_iff.mp step
      have admitted := sound.admitted p isPending
      split at step
      · rename_i reply phase
        split at step
        · cases step
          exact sound.silent rfl
        · cases step
          exact sound.pending (admitted.replied (by rw [phase, Phase.reply]) rfl fun _ _ _ => rfl) _
      · cases step
  | commit =>
      obtain ⟨p, isPending, step⟩ := Option.bind_eq_some_iff.mp step
      split at step
      · rename_i reply ready
        cases step
        exact sound.commit (sound.admitted p isPending) ready
      · cases step

theorem Sound.of_reachable {allowed : EditorRun → EditorEvent → Prop}
    (reachable : Reachable (editorMachine F) allowed s) : s.Sound F := by
  apply reachable.invariant (P := Sound F)
  · rintro s ⟨idle, noAnswer⟩
    constructor
    · rw [noAnswer]
      exact List.forall_mem_nil _
    · rw [noAnswer]
      exact fun _ _ _ _ _ _ member => absurd member List.not_mem_nil
    · rw [noAnswer]
      exact .nil
    · intro p isPending
      rw [idle] at isPending
      cases isPending
  · intro s e s' _ before _ step
    exact before.step step

end EditorRun

/-! ## Progress -/

section Progress

variable {F : Format ν} {s : EditorRun} {request : Change} {disk draft source : String}
  {config : ServerConfig}

/-- A save whose revisions and draft are in order is admitted. -/
theorem accept_save (read : readSource s.file = .ok disk)
    (revision : s.engine.revision = request.expectedRevision)
    (diskRevision : F.diskRevision disk = request.expectedDiskRevision)
    (isDraft : request.source = some draft) (bounded : draft.utf8ByteSize ≤ maxSource)
    (restored : F.restoreSecret draft (F.previous disk s.engine.source) = .ok source)
    (isConfig : F.readConfig source = .ok config) :
    F.accept s.file s.engine request .save = .ok ⟨request, .save, ⟨s.file, s.engine.source⟩, disk,
      source, config, .preparing, none⟩ := by
  have proposed : F.proposed request .save disk s.engine.source = .ok source := by
    simp only [Format.proposed, isDraft, reduceCtorEq, if_false, bounded.not_gt, restored]
    rfl
  have isConfig' : (F.readConfig source).mapError badRequest = .ok config :=
    Fallible.mapError_eq_ok.mpr isConfig
  have read' : (readSource s.file).mapError badRequest = .ok disk :=
    Fallible.mapError_eq_ok.mpr read
  simp only [Format.accept, read', revision, diskRevision, ne_eq, not_true_eq_false,
    or_self, if_false, proposed, isConfig', bind, Except.bind, pure, Except.pure]

/-- A save that nothing disturbs is applied. -/
theorem save_applies (request : Change) (idle : s.pending = none)
    (read : readSource s.file = .ok disk)
    (revision : s.engine.revision = request.expectedRevision)
    (diskRevision : F.diskRevision disk = request.expectedDiskRevision)
    (isDraft : request.source = some draft) (bounded : draft.utf8ByteSize ≤ maxSource)
    (restored : F.restoreSecret draft (F.previous disk s.engine.source) = .ok source)
    (isConfig : F.readConfig source = .ok config) :
    ∃ s' r, Reachable ((editorMachine F).startingAt s) (fun _ _ => True) s' ∧
      s'.file = .ok source ∧ s'.engine = ⟨s.engine.revision + 1, source, some config⟩ ∧
      s'.log =
        .applied request .save r ⟨s.file, s.engine.source⟩ (some source) source :: s.log := by
  obtain ⟨v, w, -, isSource, -⟩ := Format.restoreSecret_eq_ok restored
  have redacted : F.redact source = .ok (F.print w.hide) := by
    rw [isSource, Format.redact, F.parse_printLine]
    rfl
  have unchanged (message : String) : recheck s.file disk message = .ok () := by
    rw [recheck, read]
    exact if_pos rfl
  let p : Pending :=
    ⟨request, .save, ⟨s.file, s.engine.source⟩, disk, source, config, .preparing, none⟩
  let summary : Summary := ⟨⟨0, 0, []⟩, F.warnings config⟩
  let reply : Reply :=
    ⟨summary, F.print w.hide, s.engine.config.any (F.accessDiffers · config)⟩
  let during (phase : Phase) : EditorRun := { s with pending := some { p with phase } }
  let Later := Reachable ((editorMachine F).startingAt s) fun _ _ => True
  have submitted : Later (during .preparing) := by
    refine .next (e := .submit request .save) (.start rfl) trivial ?_
    simp only [Machine.startingAt, editorMachine, EditorRun.step, idle,
      accept_save read revision diskRevision isDraft bounded restored isConfig]
    rfl
  have prepared : Later (during (.prepared summary)) :=
    .next (e := .prepared (.ok ⟨0, 0, []⟩)) submitted trivial rfl
  have checked : Later (during (.checked reply)) := by
    refine .next (e := .recheck) prepared trivial ?_
    have goesOn : (do
        recheck s.file disk "configuration file changed during validation; load it again"
        let visible ← (F.redact source).mapError badRequest
        return Phase.checked
          ⟨summary, visible, s.engine.config.any (F.accessDiffers · config)⟩ :
          Except ApiError Phase) = .ok (.checked reply) := by
      rw [unchanged, redacted]
      rfl
    exact congrArg (fun outcome => some ((during (.prepared summary)).advance p outcome)) goesOn
  have staged : Later (during (.staged reply)) := .next (e := .stage (.ok ())) checked trivial rfl
  have confirmed : Later (during (.confirmed reply)) := by
    refine .next (e := .confirm) staged trivial ?_
    have goesOn := congrArg (Except.map fun _ => Phase.confirmed reply)
      (unchanged "configuration file changed while saving; load it again")
    exact congrArg (fun outcome => some ((during (.staged reply)).advance p outcome)) goesOn
  have persisted : Later { s with
      file := .ok source
      pending := some { p with phase := .ready reply, written := some source } } :=
    .next (e := .persist (.ok ())) confirmed trivial rfl
  exact ⟨_, _, .next (e := .commit) persisted trivial rfl, rfl, rfl, rfl⟩

/-- A document that is saved as it was shown leaves the configuration as it was. -/
theorem save_of_shown {c : Json ν} {secret : String} (idle : s.pending = none)
    (read : readSource s.file = .ok disk) (parsed : F.parse disk = .ok c)
    (isSecret : c.token = some secret) (bounded : (F.print c.hide).utf8ByteSize ≤ maxSource)
    (isConfig : F.readConfig (F.print c ++ "\n") = .ok config) :
    ∃ s' request r d seen, Reachable ((editorMachine F).startingAt s) (fun _ _ => True) s' ∧
      s'.log = .applied request .save r seen (some (F.print c ++ "\n")) (F.print c ++ "\n")
        :: .document d seen :: s.log ∧
      request = ⟨d.revision, d.diskRevision, some d.source⟩ ∧
      readSource seen.file = .ok disk := by
  have present : c.token.isSome := by rw [isSecret, Option.isSome_some]
  have hidden : c.hide = c.setToken keepSecret := if_pos present
  have previous : F.previous disk s.engine.source = disk := by
    rw [Format.previous, parsed]
    rfl
  have redacted : F.redact disk = .ok (F.print c.hide) := by
    rw [Format.redact, parsed]
    rfl
  have restored : F.restoreSecret (F.print c.hide) (F.previous disk s.engine.source) =
      .ok (F.print c ++ "\n") := by
    rw [previous, Format.restoreSecret, F.parse_print, hidden]
    simp only [Except.bind, c.token_setToken present, if_true, parsed, isSecret]
    rw [c.setToken_setToken, c.setToken_token isSecret]
  obtain ⟨d, shown, revision, diskRevision, source⟩ :=
    Format.exists_document s.engine read (by rw [previous, redacted])
  let loaded := s.answer (.document d ⟨s.file, s.engine.source⟩)
  have load : s.step F .load = some loaded := by
    simp only [EditorRun.step, idle, shown]
    rfl
  obtain ⟨s', r, later, -, -, log⟩ := save_applies (s := loaded)
    ⟨d.revision, d.diskRevision, some d.source⟩ rfl read revision.symm diskRevision.symm rfl
    (source ▸ bounded) (source ▸ restored) isConfig
  refine ⟨s', _, r, d, _, ?_, log, rfl, read⟩
  have isLoaded : Reachable ((editorMachine F).startingAt s) (fun _ _ => True) loaded :=
    .next (e := .load) (.start rfl) trivial load
  exact isLoaded.later (fun _ _ isAllowed => isAllowed) later

end Progress

/-! ## The token stays in -/

/-- The files are in the same state, or differ in the string at `/dashboard/control_token`. -/
def SameFile (F : Format ν) (file file' : Except String String) : Prop :=
  file = file' ∨ ∃ text text', file = .ok text ∧ file' = .ok text' ∧ F.SameButToken text text'

section Interference

variable {F : Format ν} {file file' : Except String String} {disk disk' : String}

theorem eq_of_readSource (read : readSource file = .ok disk) : file = .ok disk := by
  obtain ⟨source, isSource, bounded⟩ := Fallible.bind_eq_ok.mp read
  split at bounded
  · cases bounded
  · cases bounded
    exact isSource

theorem SameFile.disks (same : SameFile F file file') (read : readSource file = .ok disk)
    (read' : readSource file' = .ok disk') : F.SameButToken disk disk' := by
  have isDisk := eq_of_readSource read
  have isDisk' := eq_of_readSource read'
  rcases same with rfl | ⟨text, text', rfl, rfl, same⟩
  · rw [isDisk] at isDisk'
    exact .inl (Except.ok.inj isDisk')
  · cases isDisk
    cases isDisk'
    exact same

theorem document_sameFile {engine engine' : Running} {d : Document} (same : SameFile F file file')
    (runs : F.SameButToken engine.source engine'.source) (shown : F.document file engine = .ok d)
    (read' : readSource file' = .ok disk') :
    ∃ d', F.document file' engine' = .ok d' ∧ d'.source = d.source := by
  obtain ⟨disk, read, -, -, redacted⟩ := Format.document_eq_ok shown
  rw [Format.redact_congr (Format.previous_congr (same.disks read read') runs)] at redacted
  obtain ⟨d', shown', -, -, source⟩ := Format.exists_document engine' read' redacted
  exact ⟨d', shown', source⟩

theorem Explained.source_eq {request request' : Change} {route : Route} {r r' : Applied}
    {seen seen' : Seen} {running running' : String}
    (explained : Explained F request route r seen running)
    (explained' : Explained F request' route r' seen' running')
    (same : SameFile F seen.file seen'.file) (draft : request.source = request'.source) :
    r.source = r'.source := by
  obtain ⟨disk, read, proposed⟩ := explained.proposed
  obtain ⟨disk', read', proposed'⟩ := explained'.proposed
  have alike : F.SameButToken running running' := by
    cases route with
    | save =>
        obtain ⟨text, isDraft, restored⟩ := Format.proposed_save proposed
        obtain ⟨text', isDraft', restored'⟩ := Format.proposed_save proposed'
        rw [draft, isDraft'] at isDraft
        cases isDraft
        exact Format.restoreSecret_sameButToken restored restored'
    | reload =>
        rw [Format.proposed_reload proposed, Format.proposed_reload proposed']
        exact same.disks read read'
    | validate => exact absurd rfl explained.applies
  have shown := explained.redacted
  rw [Format.redact_congr alike, explained'.redacted] at shown
  exact (Except.ok.inj shown).symm

end Interference

/-- In states that differ in the control token only, documents show the same text, and changes
of the same draft that are applied answer with the same text.  A save with the revisions of an
older document or answer writes and runs the draft, with the token of the configuration shown
there for a placeholder, and is refused if there is none. -/
theorem token_stays_in (F : Format ν) :
    (∀ s s' : EditorRun, SameFile F s.file s'.file →
      F.SameButToken s.engine.source s'.engine.source →
      ∀ d disk', F.document s.file s.engine = .ok d → readSource s'.file = .ok disk' →
        ∃ d', F.document s'.file s'.engine = .ok d' ∧ d'.source = d.source) ∧
    (∀ s s', Reachable (editorMachine F) (fun _ _ => True) s →
      Reachable (editorMachine F) (fun _ _ => True) s' →
      ∀ request request' route r r' seen seen' written written' running running',
        .applied request route r seen written running ∈ s.log →
        .applied request' route r' seen' written' running' ∈ s'.log →
        SameFile F seen.file seen'.file → request.source = request'.source →
        r.source = r'.source) ∧
    ∀ s, Reachable (editorMachine F) (fun _ _ => True) s →
      (∀ a ∈ s.log, ∀ shown, a.shows F = some shown → F.redact shown.config = .ok shown.source) ∧
      s.log.Pairwise (Keeps F) ∧
      ∀ a ∈ s.log, ∀ shown, a.shows F = some shown → s.pending = none →
        ∀ request draft v, request.expectedRevision = shown.revision →
          request.expectedDiskRevision = shown.diskRevision → request.source = some draft →
          F.parse draft = .ok v → v.token = some keepSecret →
          (∀ c, F.parse shown.config = .ok c → c.token = none) →
          ∃ err, s.step F (.submit request .save) = some (s.answer (.failed err)) := by
  refine ⟨?_, ?_, ?_⟩
  · intro s s' same runs d disk' shown read'
    exact document_sameFile same runs shown read'
  · intro s s' reachable reachable' request request' route r r' seen seen' written written' running
      running' applied applied' same draft
    have explained := (EditorRun.Sound.of_reachable reachable).explained _ _ _ _ _ _ applied
    have explained' := (EditorRun.Sound.of_reachable reachable').explained _ _ _ _ _ _ applied'
    exact explained.source_eq explained' same draft
  · intro s reachable
    have sound := EditorRun.Sound.of_reachable reachable
    refine ⟨fun a member shown shows =>
      (sound.shown a member shown shows).redacted, sound.keeps, ?_⟩
    intro a member shown shows idle request draft v revision diskRevision isDraft parsed placeholder
      noToken
    simp only [EditorRun.step, idle]
    cases accept : F.accept s.file s.engine request .save with
    | error err => exact ⟨err, rfl⟩
    | ok p =>
        obtain ⟨rfl, isSave, admitted⟩ := admitted_of_accept accept
        obtain ⟨draft', isDraft', restored⟩ :=
          sound.restored admitted isSave member shows revision.symm diskRevision.symm
        rw [isDraft] at isDraft'
        cases isDraft'
        obtain ⟨v', w, parsed', -, tokens, -⟩ := Format.restoreSecret_eq_ok restored
        rw [parsed] at parsed'
        cases parsed'
        obtain ⟨c, secret, isShown, isSecret, -⟩ := tokens placeholder
        rw [noToken c isShown] at isSecret
        cases isSecret

/-! ## A format -/

/-- Bytes as the characters with their codes. -/
def sampleText (v : Json Unit) : String :=
  .ofList ((write sampleEncode v.value).map Char.ofUInt8)

theorem ofUInt8_injective : Function.Injective Char.ofUInt8 := by
  intro a b same
  have codes : a.toUInt32 = b.toUInt32 := congrArg Char.val same
  simpa using congrArg UInt32.toUInt8 codes

theorem sampleText_injective : Function.Injective sampleText := by
  intro v w same
  have characters := congrArg String.toList same
  rw [sampleText, sampleText, String.toList_ofList, String.toList_ofList] at characters
  have values := write_injective sampleEncoder (ofUInt8_injective.list_map characters)
  cases v
  cases w
  cases values
  rfl

/-- No text ends with a line feed. -/
theorem getLast?_write (v : Value Unit String) :
    ∃ c, (write sampleEncode v).getLast? = some c ∧ Char.ofUInt8 c ≠ '\n' := by
  cases v with
  | array items => exact ⟨closeArray, List.getLast?_concat .., by decide⟩
  | object members => exact ⟨closeObject, List.getLast?_concat .., by decide⟩
  | scalar s =>
      cases s with
      | string text =>
          refine ⟨quote, ?_, by decide⟩
          rw [write, sampleEncode, ← List.cons_append, List.getLast?_concat]
      | null => exact ⟨0x6E, rfl, by decide⟩
      | number value => exact ⟨0x30, rfl, by decide⟩
      | bool value =>
          cases value with
          | true => exact ⟨0x74, rfl, by decide⟩
          | false => exact ⟨0x66, rfl, by decide⟩

theorem sampleText_ne_line (v w : Json Unit) : sampleText v ≠ sampleText w ++ "\n" := by
  intro same
  have last := congrArg (fun text => text.toList.getLast?) same
  obtain ⟨c, isLast, other⟩ := getLast?_write v.value
  simp only [sampleText, String.toList_append, String.toList_ofList, List.getLast?_map,
    isLast] at last
  rw [List.getLast?_append_of_ne_nil _ (by decide)] at last
  exact other (Option.some.inj last)

open Classical in
/-- Reads what it prints; the hash is replaced by the text itself. -/
noncomputable def sampleFormat : Format Unit where
  parse text :=
    if json : ∃ v, text = sampleText v ∨ text = sampleText v ++ "\n" then .ok json.choose
    else .error "expected value"
  print := sampleText
  diskRevision := id
  readConfig _ := .ok ⟨[], none, List.nodup_nil⟩
  warnings _ := []
  accessDiffers _ _ := false
  parse_print v := by
    have json : ∃ w, sampleText v = sampleText w ∨ sampleText v = sampleText w ++ "\n" :=
      ⟨v, .inl rfl⟩
    rw [dif_pos json]
    rcases json.choose_spec with same | line
    · exact congrArg Except.ok (sampleText_injective same).symm
    · exact absurd line (sampleText_ne_line _ _)
  parse_printLine v := by
    have json :
        ∃ w, sampleText v ++ "\n" = sampleText w ∨ sampleText v ++ "\n" = sampleText w ++ "\n" :=
      ⟨v, .inr rfl⟩
    rw [dif_pos json]
    rcases json.choose_spec with same | line
    · exact absurd same.symm (sampleText_ne_line _ _)
    · have characters := congrArg String.toList line
      rw [String.toList_append, String.toList_append] at characters
      have texts := String.toList_inj.mp (List.append_cancel_right characters)
      exact congrArg Except.ok (sampleText_injective texts).symm
  diskRevision_injective := fun _ _ same => same

/-- A configuration with a control token. -/
def sampleConfig (secret : String) : Json Unit where
  value := .object [("dashboard", .object [("control_token", .scalar (.string secret))])]
  sorted := by
    refine .object (List.pairwise_singleton ..) (List.forall_mem_singleton.mpr ?_)
    exact .object (List.pairwise_singleton ..) (List.forall_mem_singleton.mpr (.scalar _))

theorem token_sampleConfig (secret : String) : (sampleConfig secret).token = some secret := by
  simp [sampleConfig, Json.token, Value.member, Value.asStr]

theorem setToken_sampleConfig (secret secret' : String) :
    (sampleConfig secret).setToken secret' = sampleConfig secret' := by
  simp [sampleConfig, Json.setToken, Value.modifyMember, modifyFirst]

/-- A document is loaded and saved as it is shown; the token is restored from the file. -/
theorem token_stays_in_sample :
    ∃ s request r seen running d, Reachable (editorMachine sampleFormat) (fun _ _ => True) s ∧
      s.log = [.applied request .save r seen (some running) running, .document d seen] ∧
      request.source = some d.source ∧
      Restores sampleFormat request (sampleText (sampleConfig "token")) (some running) running := by
  let text := sampleText (sampleConfig "token")
  let start : EditorRun := ⟨.ok text, ⟨1, text, none⟩, none, []⟩
  have parsed : sampleFormat.parse text = .ok (sampleConfig "token") := sampleFormat.parse_print _
  have read : readSource start.file = .ok text := by
    have bounded : text.utf8ByteSize ≤ maxSource := by decide +kernel
    simp only [readSource, start, Except.bind, bounded.not_gt, if_false]
  have hidden : (sampleConfig "token").hide = sampleConfig keepSecret := by
    rw [Json.hide, token_sampleConfig, Option.isSome_some, if_pos rfl, setToken_sampleConfig]
  obtain ⟨s, request, r, d, seen, later, log, isRequest, seenFile⟩ :=
    save_of_shown (F := sampleFormat) (s := start) rfl read parsed (token_sampleConfig _)
      (by rw [hidden]; decide +kernel) rfl
  have started : Reachable (editorMachine sampleFormat) (fun _ _ => True) start := .start ⟨rfl, rfl⟩
  have reachable := started.later (fun _ _ isAllowed => isAllowed) later
  have keeps := ((token_stays_in sampleFormat).2.2 s reachable).2.1
  rw [log] at keeps
  have newest := (List.pairwise_cons.mp keeps).1 _ (List.mem_cons_self ..)
  have shows : Answer.shows sampleFormat (.document d seen) =
      some ⟨d.revision, d.diskRevision, d.source, text⟩ := by
    rw [Answer.shows, seenFile, Except.toOption, Option.map_some, Format.previous, parsed]
    rfl
  refine ⟨s, request, r, seen, _, d, reachable, log, by rw [isRequest], ?_⟩
  exact newest request r seen _ _ rfl _ shows (by rw [isRequest]) (by rw [isRequest])

end FleetRouter.Editor
