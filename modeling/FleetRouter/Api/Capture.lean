import Mathlib.Algebra.Group.Nat.Defs
import FleetRouter.Lib.EventLog
import FleetRouter.Api.Dashboard

/-!
# Capturing the fleet for the dashboard

The publisher reads the parts of the fleet one after the other while others change them.
Events are logged and some parts are written inside lifecycle changes only: the running
configuration, the registered sessions and which upstream and request each has.  A change counts
up a generation when it begins and when it ends; a capture is complete only if no change was open
when it began and none has begun since.  Changes may nest and overlap.  The states of upstreams
and the counters are written at any time.
-/

namespace FleetRouter.Dashboard

open Transition EventLog

/-- The parts of the fleet and what the publisher makes of those it has read. -/
structure Surface where
  Key : Type
  decidableKey : DecidableEq Key
  Part : Type
  Body : Type
  Status : Type
  Session : Type
  Sample : Type
  Previous : Type
  /-- The parts that are written inside lifecycle changes only. -/
  guarded : Key → Bool
  view : List (Key × Part) → Status × List Session
  /-- The events for what differs from the status captured before. -/
  transitions : Previous → Status → List Body
  remember : Previous → Status → Previous
  start : Previous

instance (S : Surface) : DecidableEq S.Key := S.decidableKey

abbrev Surface.views (S : Surface) : Views := ⟨S.Status, S.Session, Entry S.Body, S.Sample⟩

variable {S : Surface} {Data Err : Type} {encode : Frame S.views → Except Err Data}

/-- Where the publisher is in its loop. -/
inductive Publisher (S : Surface) where
  | asleep
  | awake
  /-- A capture under way since `started` beginnings and ends of changes. -/
  | reading (generation : BitVec 64) (started : Nat) (reads : List (S.Key × S.Part))
  | captured (status : S.Status) (sessions : List S.Session) (events : List (Entry S.Body))
  | sending

def Publisher.started : Publisher S → Option Nat
  | .reading _ started _ => some started
  | .asleep | .awake | .captured _ _ _ | .sending => none

def Publisher.isCapturing : Publisher S → Bool
  | .awake | .reading _ _ _ => true
  | .asleep | .captured _ _ _ | .sending => false

/-- The telemetry, the parts of the fleet and the publisher.  `changes`, `history` and `seen`
record all beginnings and ends of changes, all events, and the last complete capture: how many
changes there were, and what it read. -/
structure Telemetry (encode : Frame S.views → Except Err Data) where
  generation : BitVec 64
  writers : Nat
  /-- The publisher is to be woken. -/
  changed : Bool
  parts : S.Key → S.Part
  events : Log S.Body maxEvents
  previous : S.Previous
  lastEvent : Nat
  publisher : Publisher S
  feed : Feed encode
  changes : Nat
  history : List S.Body
  seen : Nat × List (S.Key × S.Part)

inductive Act (S : Surface) where
  | beginChange
  | write (key : S.Key) (part : S.Part)
  | appendEvent (body : S.Body)
  | endChange
  /-- The publisher wakes because of a change. -/
  | notified
  /-- The publisher wakes for a sample. -/
  | tick
  | captureVersion
  | read (key : S.Key)
  | captureEvents
  | publish (sample : Option S.Sample)
  | send

/-- Whether the feed can encode a publication. -/
def Feed.encodes {V : Views} {encode : Frame V → Except Err Data} (f : Feed encode)
    (p : Publication V) : Bool :=
  (Update.ofFrame encode (p.frame (f.cache.latest.elim 1 fun s => s.revision + 1))).isOk

namespace Telemetry

def start (parts : S.Key → S.Part) : Telemetry encode where
  generation := 0
  writers := 0
  changed := false
  parts
  events := .empty
  previous := S.start
  lastEvent := 0
  publisher := .asleep
  feed := .default
  changes := 0
  history := []
  seen := (0, [])

def beginChange (s : Telemetry encode) : Telemetry encode :=
  { s with
    generation := s.generation + 1
    writers := s.writers + 1
    changes := s.changes + 1 }

/-- The end of a change; the last one that is open wakes the publisher. -/
def endChange (s : Telemetry encode) : Telemetry encode :=
  { s with
    generation := s.generation + 1
    writers := s.writers - 1
    changed := s.changed || s.writers - 1 == 0
    changes := s.changes + 1 }

def write (s : Telemetry encode) (key : S.Key) (part : S.Part) : Telemetry encode :=
  { s with parts := Function.update s.parts key part }

def appendEvents (s : Telemetry encode) (bodies : List S.Body) : Telemetry encode :=
  { s with events := bodies.foldl Log.append s.events, history := s.history ++ bodies }

/-- What completes a capture, with both locks held. -/
def captureEvents (s : Telemetry encode) (reads : List (S.Key × S.Part)) : Telemetry encode :=
  let (status, sessions) := S.view reads
  let s := s.appendEvents (S.transitions s.previous status)
  { s with
    previous := S.remember s.previous status
    publisher := .captured status sessions (s.events.after s.lastEvent)
    seen := (s.changes, reads) }

/-- Publishes a capture; its events count as published unless it cannot be encoded. -/
def publish (s : Telemetry encode) (p : Publication S.views) : Option (Telemetry encode) :=
  (s.feed.publish p).map fun feed =>
    if s.feed.encodes p then
      { s with
        feed
        publisher := .sending
        lastEvent := p.events.getLast?.elim s.lastEvent Entry.id }
    else { s with publisher := .asleep }

def step (s : Telemetry encode) : Act S → Option (Telemetry encode)
  | .beginChange => some s.beginChange
  | .write key part =>
      if 0 < s.writers ∨ S.guarded key = false then some (s.write key part) else none
  | .appendEvent body => if 0 < s.writers then some (s.appendEvents [body]) else none
  | .endChange => if 0 < s.writers then some s.endChange else none
  | .notified =>
      match s.publisher with
      | .asleep => if s.changed then some { s with changed := false, publisher := .awake } else none
      | _ => none
  | .tick =>
      match s.publisher with
      | .asleep => some { s with publisher := .awake }
      | _ => none
  | .captureVersion =>
      match s.publisher with
      | .awake =>
          if s.writers = 0 then some { s with publisher := .reading s.generation s.changes [] }
          else none
      | _ => none
  | .read key =>
      match s.publisher with
      | .reading generation started reads =>
          some { s with publisher := .reading generation started (reads ++ [(key, s.parts key)]) }
      | _ => none
  | .captureEvents =>
      match s.publisher with
      | .reading generation _ reads =>
          if s.writers ≠ 0 ∨ s.generation ≠ generation then some { s with publisher := .awake }
          else some (s.captureEvents reads)
      | _ => none
  | .publish sample =>
      match s.publisher with
      | .captured status sessions events => s.publish ⟨status, sessions, events, sample⟩
      | _ => none
  | .send =>
      match s.publisher with
      | .sending => s.feed.send.map fun feed => { s with feed, publisher := .asleep }
      | _ => none

/-- The generation does not come round during a capture. -/
def InTime (s : Telemetry encode) (_ : Act S) : Prop :=
  ∀ started ∈ s.publisher.started, s.changes < started + 2 ^ 64

end Telemetry

def telemetryMachine (encode : Frame S.views → Except Err Data) :
    Machine (Telemetry encode) (Act S) where
  init s := ∃ parts, s = .start parts
  step := Telemetry.step

/-! ## What one action can do -/

namespace Telemetry

variable {s s' : Telemetry encode} {a : Act S} {generation : BitVec 64} {started : Nat}
  {reads : List (S.Key × S.Part)}

/-- The actions, each with what it needs. -/
inductive Acts (s : Telemetry encode) : Telemetry encode → Prop
  | beginChange : Acts s s.beginChange
  | write (key : S.Key) (part : S.Part) : 0 < s.writers ∨ S.guarded key = false →
      Acts s (s.write key part)
  | appendEvent (body : S.Body) : 0 < s.writers → Acts s (s.appendEvents [body])
  | endChange : 0 < s.writers → Acts s s.endChange
  | wake (changed : Bool) : s.publisher = .asleep →
      Acts s { s with changed, publisher := .awake }
  | captureVersion : s.publisher = .awake → s.writers = 0 →
      Acts s { s with publisher := .reading s.generation s.changes [] }
  | read {generation : BitVec 64} {started : Nat} {reads : List (S.Key × S.Part)} (key : S.Key) :
      s.publisher = .reading generation started reads →
      Acts s { s with publisher := .reading generation started (reads ++ [(key, s.parts key)]) }
  | retry {generation : BitVec 64} {started : Nat} {reads : List (S.Key × S.Part)} :
      s.publisher = .reading generation started reads → Acts s { s with publisher := .awake }
  | captureEvents {started : Nat} {reads : List (S.Key × S.Part)} :
      s.publisher = .reading s.generation started reads → s.writers = 0 →
      Acts s (s.captureEvents reads)
  /-- What was captured cannot be encoded. -/
  | fail {status : S.Status} {sessions : List S.Session} {events : List (Entry S.Body)} :
      s.publisher = .captured status sessions events → Acts s { s with publisher := .asleep }
  | publish {p : Publication S.views} {feed : Feed encode} :
      s.publisher = .captured p.status p.sessions p.events →
      feed.published = s.feed.published ++ [p] →
      Acts s { s with
        feed
        publisher := .sending
        lastEvent := p.events.getLast?.elim s.lastEvent Entry.id }
  | send {feed : Feed encode} : s.publisher = .sending → feed.published = s.feed.published →
      Acts s { s with feed, publisher := .asleep }

theorem published_of_encodes {f f' : Feed encode} {p : Publication S.views}
    (published : f.publish p = some f') (encodes : f.encodes p = true) :
    f'.published = f.published ++ [p] := by
  unfold Feed.publish at published
  split at published
  · cases published
  · simp only at published
    split at published
    · rename_i failed
      rw [Feed.encodes, failed] at encodes
      cases encodes
    · cases published
      rfl

theorem acts (step : s.step a = some s') : s.Acts s' := by
  cases a with
  | beginChange =>
      cases step
      exact .beginChange
  | write key part =>
      simp only [Telemetry.step, Option.ite_none_right_eq_some] at step
      cases step.2
      exact .write key part step.1
  | appendEvent body =>
      simp only [Telemetry.step, Option.ite_none_right_eq_some] at step
      cases step.2
      exact .appendEvent body step.1
  | endChange =>
      simp only [Telemetry.step, Option.ite_none_right_eq_some] at step
      cases step.2
      exact .endChange step.1
  | notified =>
      simp only [Telemetry.step] at step
      split at step
      · simp only [Option.ite_none_right_eq_some] at step
        cases step.2
        exact .wake false ‹_›
      · cases step
  | tick =>
      simp only [Telemetry.step] at step
      split at step
      · cases step
        exact .wake s.changed ‹_›
      · cases step
  | captureVersion =>
      simp only [Telemetry.step] at step
      split at step
      · simp only [Option.ite_none_right_eq_some] at step
        cases step.2
        exact .captureVersion ‹_› step.1
      · cases step
  | read key =>
      simp only [Telemetry.step] at step
      split at step
      · cases step
        exact .read key ‹_›
      · cases step
  | captureEvents =>
      simp only [Telemetry.step] at step
      split at step
      · rename_i reading
        split at step
        · cases step
          exact .retry reading
        · rename_i quiet
          cases step
          rw [not_or, not_not, not_not] at quiet
          exact .captureEvents (quiet.2 ▸ reading) quiet.1
      · cases step
  | publish sample =>
      simp only [Telemetry.step] at step
      split at step
      · rename_i status sessions events isCaptured
        obtain ⟨feed, fed, rfl⟩ := Option.map_eq_some_iff.mp step
        cases encodes : s.feed.encodes ⟨status, sessions, events, sample⟩ with
        | false => exact .fail isCaptured
        | true => exact .publish isCaptured (published_of_encodes fed encodes)
      · cases step
  | send =>
      simp only [Telemetry.step] at step
      split at step
      · obtain ⟨feed, sent, rfl⟩ := Option.map_eq_some_iff.mp step
        obtain ⟨u, _, rfl⟩ := Feed.send_cases sent
        exact .send ‹_› rfl
      · cases step

/-! ## Captures -/

/-- A capture under way has read the guarded parts as they are, unless a change began since. -/
structure Reading (s : Telemetry encode) (generation : BitVec 64) (started : Nat)
    (reads : List (S.Key × S.Part)) : Prop where
  generation : generation = BitVec.ofNat 64 started
  before : started ≤ s.changes
  quiet : s.changes = started → s.writers = 0
  current : s.changes = started → ∀ part ∈ reads, S.guarded part.1 = true →
    s.parts part.1 = part.2

/-- What the events of a capture are: the newest of those logged and not published. -/
def Pending (s : Telemetry encode) (events : List (Entry S.Body)) : Prop :=
  ∃ through, s.lastEvent ≤ through ∧ through ≤ s.history.length ∧
    events = (((entries s.history).take through).drop s.lastEvent).rtake maxEvents ∧
    events.getLast?.elim s.lastEvent Entry.id = through

/-- What holds between any two actions. -/
structure Sound (s : Telemetry encode) : Prop where
  generation : s.generation = BitVec.ofNat 64 s.changes
  log : s.events.Of s.history
  lastEvent : s.lastEvent ≤ s.history.length
  reading : ∀ generation started reads, s.publisher = .reading generation started reads →
    s.Reading generation started reads
  captured : ∀ status sessions events, s.publisher = .captured status sessions events →
    s.Pending events

theorem Sound.start (parts : S.Key → S.Part) : Sound (start parts : Telemetry encode) where
  generation := rfl
  log := .empty
  lastEvent := le_rfl
  reading := nofun
  captured := nofun

/-- With the generation it began with, no change has begun since a capture did. -/
theorem Reading.unchanged (reading : s.Reading s.generation started reads) (sound : s.Sound)
    (inTime : s.changes < started + 2 ^ 64) : s.changes = started := by
  have same : BitVec.ofNat 64 s.changes = BitVec.ofNat 64 started :=
    sound.generation.symm.trans reading.generation
  have modulo := congrArg BitVec.toNat same
  rw [BitVec.toNat_ofNat, BitVec.toNat_ofNat] at modulo
  have before := reading.before
  omega

/-- A change that begins or ends leaves nothing to show of a capture under way. -/
theorem Reading.change
    (reading : s.Reading generation started reads) (changes : s'.changes = s.changes + 1) :
    s'.Reading generation started reads where
  generation := reading.generation
  before := changes ▸ Nat.le_succ_of_le reading.before
  quiet := by
    have before := reading.before
    omega
  current := by
    have before := reading.before
    omega

/-- What a writer does inside its change leaves nothing to show either. -/
theorem Reading.inside (reading : s.Reading generation started reads) (isOpen : 0 < s.writers)
    (changes : s'.changes = s.changes) : s'.Reading generation started reads where
  generation := reading.generation
  before := changes ▸ reading.before
  quiet := fun same => absurd (reading.quiet (changes ▸ same)) (Nat.ne_of_gt isOpen)
  current := fun same => absurd (reading.quiet (changes ▸ same)) (Nat.ne_of_gt isOpen)

/-- A guarded part keeps its value while one that is not guarded is written. -/
theorem write_guarded {key other : S.Key} {part : S.Part} (isGuarded : S.guarded other = true)
    (unguarded : S.guarded key = false) : (s.write key part).parts other = s.parts other := by
  refine Function.update_of_ne ?_ _ _
  rintro rfl
  rw [isGuarded] at unguarded
  cases unguarded

theorem Reading.write (reading : s.Reading generation started reads) {key : S.Key} {part : S.Part}
    (permitted : 0 < s.writers ∨ S.guarded key = false) :
    (s.write key part).Reading generation started reads := by
  cases permitted with
  | inl isOpen => exact reading.inside isOpen rfl
  | inr unguarded =>
      refine ⟨reading.generation, reading.before, reading.quiet, ?_⟩
      intro same read member isGuarded
      rw [write_guarded isGuarded unguarded]
      exact reading.current same read member isGuarded

theorem Pending.append {events : List (Entry S.Body)} (pending : s.Pending events)
    (lastEvent : s'.lastEvent = s.lastEvent) {bodies : List S.Body}
    (history : s'.history = s.history ++ bodies) : s'.Pending events := by
  obtain ⟨through, above, logged, isEvents, last⟩ := pending
  refine ⟨through, lastEvent ▸ above, ?_, ?_, lastEvent ▸ last⟩
  · rw [history, List.length_append]
    exact logged.trans (Nat.le_add_right _ _)
  · rw [history, entries_append, List.take_append_of_le_length (by simpa using logged), lastEvent]
    exact isEvents

theorem Sound.appendEvents (sound : s.Sound) (bodies : List S.Body) :
    (s.appendEvents bodies).events.Of (s.history ++ bodies) :=
  sound.log.foldl_append (by decide) bodies

/-- The events of a capture that completes now. -/
theorem Sound.pending_captureEvents (sound : s.Sound) (reads : List (S.Key × S.Part)) :
    (s.captureEvents reads).Pending
      ((s.appendEvents (S.transitions s.previous (S.view reads).1)).events.after s.lastEvent) := by
  have log := sound.appendEvents (S.transitions s.previous (S.view reads).1)
  have issued : s.lastEvent ≤
      (s.history ++ S.transitions s.previous (S.view reads).1).length := by
    rw [List.length_append]
    exact sound.lastEvent.trans (Nat.le_add_right _ _)
  refine ⟨(s.captureEvents reads).history.length, issued, le_rfl, ?_, ?_⟩
  · rw [log.after, List.take_of_length_le (by simp)]
    rfl
  · rw [log.after]
    exact through_eq (by decide) issued

theorem Sound.acts (sound : s.Sound) (acts : s.Acts s') : s'.Sound := by
  have generation := sound.generation
  have next : s.generation + 1 = BitVec.ofNat 64 (s.changes + 1) := by
    rw [generation, BitVec.ofNat_add]
    rfl
  cases acts with
  | beginChange | endChange =>
      exact
        { sound with
          generation := next
          reading := fun g started reads isAt => (sound.reading g started reads isAt).change rfl }
  | write key part permitted =>
      exact
        { sound with
          reading := fun g started reads isAt =>
            (sound.reading g started reads isAt).write permitted }
  | appendEvent body isOpen =>
      exact
        { generation
          log := sound.appendEvents [body]
          lastEvent := by
            rw [Telemetry.appendEvents, List.length_append]
            exact sound.lastEvent.trans (Nat.le_add_right _ _)
          reading := fun g started reads isAt =>
            (sound.reading g started reads isAt).inside isOpen rfl
          captured := fun status sessions events isAt =>
            (sound.captured status sessions events isAt).append rfl rfl }
  | wake | retry | fail | send => exact { sound with reading := nofun, captured := nofun }
  | captureVersion awake quiet =>
      refine { sound with reading := ?_, captured := nofun }
      intro g started reads isAt
      cases isAt
      exact ⟨generation, le_rfl, fun _ => quiet, fun _ => nofun⟩
  | read key isReading =>
      refine { sound with reading := ?_, captured := nofun }
      intro g started reads isAt
      cases isAt
      have reading := sound.reading _ _ _ isReading
      refine ⟨reading.generation, reading.before, reading.quiet, fun same part member guarded => ?_⟩
      rw [List.mem_append, List.mem_singleton] at member
      cases member with
      | inl before => exact reading.current same part before guarded
      | inr new =>
          subst new
          rfl
  | captureEvents isReading quiet =>
      rename_i started reads
      exact
        { generation
          log := sound.appendEvents _
          lastEvent := by
            change s.lastEvent ≤ (s.history ++ _).length
            rw [List.length_append]
            exact sound.lastEvent.trans (Nat.le_add_right _ _)
          reading := nofun
          captured := by
            intro status sessions events isAt
            cases isAt
            exact sound.pending_captureEvents reads }
  | publish isCaptured published =>
      obtain ⟨through, above, logged, isEvents, last⟩ := sound.captured _ _ _ isCaptured
      exact { sound with lastEvent := last ▸ logged, reading := nofun, captured := nofun }

theorem sound {allowed : Telemetry encode → Act S → Prop}
    (reachable : Reachable (telemetryMachine encode) allowed s) : s.Sound := by
  apply reachable.invariant (P := Sound)
  · exact fun s isInitial => isInitial.elim fun parts isStart => isStart ▸ .start parts
  · exact fun s a s' _ sound _ step => sound.acts (Telemetry.acts step)

/-- A publication is a capture. -/
theorem Acts.published (acts : s.Acts s') :
    (s'.feed.published = s.feed.published ∧ s'.lastEvent = s.lastEvent) ∨
      ∃ p : Publication S.views, s.publisher = .captured p.status p.sessions p.events ∧
        s'.feed.published = s.feed.published ++ [p] ∧
        s'.lastEvent = p.events.getLast?.elim s.lastEvent Entry.id := by
  cases acts with
  | publish isCaptured published => exact .inr ⟨_, isCaptured, published, rfl⟩
  | send isSending sent => exact .inl ⟨sent, rfl⟩
  | beginChange | write | appendEvent | endChange | wake | captureVersion | read | retry
  | captureEvents | fail => exact .inl ⟨rfl, rfl⟩

/-- A capture stays as it is until it is published. -/
theorem Acts.captured {status : S.Status} {sessions : List S.Session} {events : List (Entry S.Body)}
    (acts : s.Acts s') (isCaptured : s'.publisher = .captured status sessions events) :
    s.publisher = .captured status sessions events ∨
      ∃ started reads, s.publisher = .reading s.generation started reads ∧ s.writers = 0 ∧
        S.view reads = (status, sessions) ∧
        events = (s.appendEvents (S.transitions s.previous status)).events.after s.lastEvent := by
  cases acts with
  | captureEvents isReading quiet =>
      cases isCaptured
      exact .inr ⟨_, _, isReading, quiet, rfl, rfl⟩
  | beginChange | write | appendEvent | endChange => exact .inl isCaptured
  | wake | captureVersion | read | retry | fail | publish | send => cases isCaptured

/-! ## A publication shows one instant -/

theorem Acts.changes (acts : s.Acts s') : s.changes ≤ s'.changes := by
  cases acts with
  | beginChange | endChange => exact Nat.le_succ _
  | write | appendEvent | wake | captureVersion | read | retry | captureEvents | fail | publish
  | send => exact le_rfl

/-- The instant `past` came before `s` in a run. -/
structure Precedes (past s : Telemetry encode) : Prop where
  reachable : Reachable (telemetryMachine encode) InTime past
  run : Reachable ((telemetryMachine encode).startingAt past) InTime s

theorem Precedes.refl (reachable : Reachable (telemetryMachine encode) InTime s) :
    s.Precedes s :=
  ⟨reachable, .start rfl⟩

theorem Precedes.later {past : Telemetry encode} (precedes : past.Precedes s)
    (inTime : s.InTime a) (step : s.step a = some s') : past.Precedes s' :=
  ⟨precedes.reachable, .next precedes.run inTime step⟩

theorem Precedes.changes {past : Telemetry encode} (precedes : past.Precedes s) :
    past.changes ≤ s.changes := by
  apply precedes.run.invariant (P := fun s => past.changes ≤ s.changes)
  · rintro _ rfl
    exact le_rfl
  · exact fun s a s' _ before _ step => before.trans (Telemetry.acts step).changes

/-- The part was so at an instant since which no change has begun or ended and nothing was
published. -/
def WasSo (now : Telemetry encode) (read : S.Key × S.Part) : Prop :=
  ∃ past : Telemetry encode, past.Precedes now ∧ past.changes = now.changes ∧
    past.feed.published = now.feed.published ∧ past.parts read.1 = read.2

/-- What is shown are the guarded parts of the fleet at the instant `now`, at which no change is
open, the others each as it was at some instant since the last change and the last publication,
and the events logged until then that were not published before. -/
structure Shows (now : Telemetry encode) (status : S.Status) (sessions : List S.Session)
    (events : List (Entry S.Body)) : Prop where
  quiet : now.writers = 0
  parts : ∃ reads, S.view reads = (status, sessions) ∧ ∀ read ∈ reads,
    (S.guarded read.1 = true → now.parts read.1 = read.2) ∧ now.WasSo read
  events : events = ((entries (now.history ++ S.transitions now.previous status)).drop
    now.lastEvent).rtake maxEvents

/-- It shows an instant of the run that led to `s`. -/
def Shown (s : Telemetry encode) (status : S.Status) (sessions : List S.Session)
    (events : List (Entry S.Body)) : Prop :=
  ∃ now : Telemetry encode, now.Precedes s ∧ now.Shows status sessions events

theorem Shown.later {status : S.Status} {sessions : List S.Session} {events : List (Entry S.Body)}
    (shown : s.Shown status sessions events) (inTime : s.InTime a) (step : s.step a = some s') :
    s'.Shown status sessions events := by
  obtain ⟨now, precedes, shows⟩ := shown
  exact ⟨now, precedes.later inTime step, shows⟩

/-- A capture under way has read each part as it was since the capture began. -/
def Witnessed (s : Telemetry encode) : Prop :=
  ∀ generation started reads, s.publisher = .reading generation started reads → ∀ read ∈ reads,
    ∃ past : Telemetry encode, past.Precedes s ∧ started ≤ past.changes ∧
      past.feed.published = s.feed.published ∧ past.parts read.1 = read.2

/-- Nothing is published while a capture is under way. -/
theorem Acts.published_reading (acts : s.Acts s')
    (isReading : s.publisher = .reading generation started reads) :
    s'.feed.published = s.feed.published := by
  cases acts.published with
  | inl same => exact same.1
  | inr published =>
      obtain ⟨p, isCaptured, _⟩ := published
      rw [isReading] at isCaptured
      cases isCaptured

/-- What a capture under way has read it had read before, but for the part it reads now. -/
theorem Acts.reading
    (acts : s.Acts s') (isReading : s'.publisher = .reading generation started reads)
    {read : S.Key × S.Part} (member : read ∈ reads) :
    ∃ before, s.publisher = .reading generation started before ∧
      (read ∈ before ∨ s.parts read.1 = read.2) := by
  cases acts with
  | read key wasReading =>
      cases isReading
      rw [List.mem_append, List.mem_singleton] at member
      refine ⟨_, wasReading, member.imp_right ?_⟩
      rintro rfl
      rfl
  | captureVersion awake quiet =>
      cases isReading
      cases member
  | beginChange | write | appendEvent | endChange => exact ⟨reads, isReading, .inl member⟩
  | wake | retry | captureEvents | fail | publish | send => cases isReading

theorem witnessed (reachable : Reachable (telemetryMachine encode) InTime s) : s.Witnessed := by
  induction reachable with
  | start isInitial =>
      obtain ⟨parts, rfl⟩ := isInitial
      intro generation started reads isReading
      cases isReading
  | @next s s' a before inTime step ih =>
      intro generation started reads isReading read member
      obtain ⟨earlier, wasReading, old | now⟩ := (Telemetry.acts step).reading isReading member
      · obtain ⟨past, precedes, since, published, wasSo⟩ :=
          ih generation started earlier wasReading read old
        rw [← (Telemetry.acts step).published_reading wasReading] at published
        exact ⟨past, precedes.later inTime step, since, published, wasSo⟩
      · exact ⟨s, (Precedes.refl before).later inTime step,
          ((sound before).reading _ _ _ wasReading).before,
          ((Telemetry.acts step).published_reading wasReading).symm, now⟩

/-- The events of all publications, in the order they were published. -/
def publishedEvents (s : Telemetry encode) : List (Entry S.Body) :=
  s.feed.published.flatMap Publication.events

theorem publishedEvents_snoc {p : Publication S.views}
    (added : s'.feed.published = s.feed.published ++ [p]) :
    s'.publishedEvents = s.publishedEvents ++ p.events := by
  rw [publishedEvents, added, List.flatMap_append, List.flatMap_singleton]
  rfl

theorem Acts.history (acts : s.Acts s') : ∃ bodies, s'.history = s.history ++ bodies := by
  cases acts with
  | appendEvent body isOpen => exact ⟨[body], rfl⟩
  | captureEvents isReading quiet => exact ⟨_, rfl⟩
  | beginChange | write | endChange | wake | captureVersion | read | retry | fail | publish
  | send =>
      exact ⟨[], (List.append_nil _).symm⟩

/-- Events are published in the order they were logged, none twice, and as long as no publication
is full none is left out. -/
theorem events_published_once {allowed : Telemetry encode → Act S → Prop}
    (reachable : Reachable (telemetryMachine encode) allowed s) :
    s.publishedEvents.Sublist ((entries s.history).take s.lastEvent) ∧
      ((∀ p ∈ s.feed.published, p.events.length < maxEvents) →
        s.publishedEvents = (entries s.history).take s.lastEvent) := by
  induction reachable with
  | start isInitial =>
      obtain ⟨parts, rfl⟩ := isInitial
      exact ⟨.slnil, fun _ => rfl⟩
  | @next s s' a before isAllowed step ih =>
      have sound := sound before
      have acts := Telemetry.acts step
      obtain ⟨bodies, history⟩ := acts.history
      have kept (n : Nat) (logged : n ≤ s.history.length) :
          (entries s'.history).take n = (entries s.history).take n := by
        rw [history, entries_append, List.take_append_of_le_length (by simpa using logged)]
      cases acts.published with
      | inl same =>
          rw [same.2, kept s.lastEvent sound.lastEvent, publishedEvents, same.1]
          exact ih
      | inr published =>
          obtain ⟨p, isCaptured, added, isLast⟩ := published
          obtain ⟨through, above, logged, isEvents, last⟩ := sound.captured _ _ _ isCaptured
          have split : (entries s.history).take through =
              (entries s.history).take s.lastEvent ++
                ((entries s.history).take through).drop s.lastEvent := by
            conv_lhs => rw [← List.take_append_drop s.lastEvent ((entries s.history).take through)]
            rw [List.take_take, Nat.min_eq_left above]
          rw [publishedEvents_snoc added, isLast.trans last, kept through logged, split, added,
            List.forall_mem_append, List.forall_mem_singleton]
          refine ⟨ih.1.append ?_, fun short => ?_⟩
          · rw [isEvents]
            exact List.drop_sublist _ _
          · rw [ih.2 short.1, isEvents, rtake_of_length_lt (isEvents ▸ short.2)]

/-! ## No change is slept through -/

/-- The last capture is current, or the publisher is about to make another. -/
structure Attentive (s : Telemetry encode) : Prop where
  before : s.seen.1 ≤ s.changes
  quiet : s.changes = s.seen.1 → s.writers = 0
  current : s.changes = s.seen.1 → ∀ part ∈ s.seen.2, S.guarded part.1 = true →
    s.parts part.1 = part.2
  awaited : s.changes = s.seen.1 ∨ s.changed = true ∨ 0 < s.writers ∨
    s.publisher.isCapturing = true

theorem Attentive.start (parts : S.Key → S.Part) : Attentive (start parts : Telemetry encode) where
  before := le_rfl
  quiet := fun _ => rfl
  current := fun _ => nofun
  awaited := .inl rfl

/-- Another beginning or end of a change. -/
theorem Attentive.change (attentive : s.Attentive) (changes : s'.changes = s.changes + 1)
    (seen : s'.seen = s.seen) (noticed : s'.changed = true ∨ 0 < s'.writers) : s'.Attentive := by
  have before := attentive.before
  have ahead : s'.changes ≠ s'.seen.1 := by
    rw [changes, seen]
    omega
  exact
    { before := by
        rw [changes, seen]
        omega
      quiet := fun same => absurd same ahead
      current := fun same => absurd same ahead
      awaited := .inr (noticed.imp_right .inl) }

/-- The publisher goes on with what it has captured. -/
theorem Attentive.goOn (attentive : s.Attentive) (idle : s.publisher.isCapturing = false)
    (feed : Feed encode) (publisher : Publisher S) (lastEvent : Nat) :
    Attentive { s with feed, publisher, lastEvent } :=
  { attentive with
    awaited := attentive.awaited.imp_right fun noticed => noticed.imp_right fun more =>
      .inl (more.resolve_right (by simp [idle])) }

theorem Attentive.acts (attentive : s.Attentive) (sound : s.Sound) (inTime : s.InTime a)
    (acts : s.Acts s') : s'.Attentive := by
  cases acts with
  | beginChange => exact attentive.change rfl rfl (.inr (Nat.succ_pos _))
  | write key part permitted =>
      refine { attentive with current := ?_ }
      intro same read member isGuarded
      cases permitted with
      | inl isOpen => exact absurd (attentive.quiet same) (Nat.ne_of_gt isOpen)
      | inr unguarded =>
          rw [write_guarded isGuarded unguarded]
          exact attentive.current same read member isGuarded
  | appendEvent body isOpen => exact { attentive with }
  | endChange isOpen =>
      refine attentive.change rfl rfl ?_
      cases Nat.eq_zero_or_pos (s.writers - 1) with
      | inl last => exact .inl (by simp [Telemetry.endChange, last])
      | inr others => exact .inr others
  | wake | captureVersion | read | retry =>
      exact { attentive with awaited := .inr (.inr (.inr rfl)) }
  | captureEvents isReading isQuiet =>
      have reading := sound.reading _ _ _ isReading
      have unchanged := reading.unchanged sound (inTime _ (by rw [isReading]; rfl))
      exact ⟨le_rfl, fun _ => isQuiet, fun _ => reading.current unchanged, .inl rfl⟩
  | fail isCaptured => exact attentive.goOn (by rw [isCaptured]; rfl) s.feed .asleep s.lastEvent
  | publish isCaptured published => exact attentive.goOn (by rw [isCaptured]; rfl) _ .sending _
  | send isSending sent =>
      exact attentive.goOn (by rw [isSending]; rfl) _ .asleep s.lastEvent

/-- Whenever the publisher makes no capture, is not to be woken and no change is open, the guarded
parts of the fleet are as its last capture read them. -/
theorem no_change_slept_through (reachable : Reachable (telemetryMachine encode) InTime s)
    (idle : s.publisher.isCapturing = false) (notWoken : s.changed = false)
    (quiet : s.writers = 0) :
    ∀ part ∈ s.seen.2, S.guarded part.1 = true → s.parts part.1 = part.2 := by
  have attentive : s.Attentive := by
    apply reachable.invariant (P := Attentive)
    · exact fun s isInitial => isInitial.elim fun parts isStart => isStart ▸ .start parts
    · exact fun s a s' before attentive inTime step =>
        attentive.acts (sound before) inTime (Telemetry.acts step)
  apply attentive.current
  simpa [idle, notWoken, quiet] using attentive.awaited

/-! ## A change during a capture -/

instance (s : Telemetry encode) (a : Act S) : Decidable (s.InTime a) :=
  inferInstanceAs (Decidable (∀ started ∈ s.publisher.started, s.changes < started + 2 ^ 64))

end Telemetry

inductive Gauge where
  | sessions
  | failovers
  | frames
deriving DecidableEq

/-- Two guarded numbers and a counter, shown as they are. -/
def counters : Surface where
  Key := Gauge
  decidableKey := inferInstance
  Part := Nat
  Body := Nat
  Status := List Nat
  Session := Unit
  Sample := Unit
  Previous := List Nat
  guarded key := key ≠ .frames
  view reads := (reads.map Prod.snd, [])
  transitions previous status := if previous = status then [] else [100]
  remember _ status := status
  start := []

def encodeCounters (frame : Frame counters.views) : Except Unit Nat := .ok frame.revision

/-- Both numbers are set in one change with its event, so that the capture under way is made
again; the change also makes the publisher look once more.  The counter goes up in the middle of
a capture, which is complete all the same. -/
def overlappingRun : List (Act counters) :=
  let capture := [.captureVersion, .read .sessions, .write .frames (5 : Nat), .read .failovers,
    .read .frames, .captureEvents]
  let change := [.beginChange, .write .sessions (1 : Nat), .write .failovers (1 : Nat),
    .appendEvent (7 : Nat), .endChange]
  [.tick, .captureVersion, .read .sessions] ++ change ++
    [.read .failovers, .captureEvents] ++ capture ++ [.publish none, .send, .notified] ++ capture ++
      [.publish none, .send]

namespace Telemetry

/-- What the dashboard has been shown: the status and the numbers of the events. -/
def shown (s : Telemetry encodeCounters) : List (List Nat × List Nat) :=
  s.feed.published.map fun p => (p.status, p.events.map Entry.id)

theorem events_published_once_overlapping :
    ∃ s : Telemetry encodeCounters, Reachable (telemetryMachine encodeCounters) InTime s ∧
      s.history.length = 2 ∧ s.publishedEvents = (entries s.history).take 2 := by
  have found : ∃ s : Telemetry encodeCounters,
      Reachable (telemetryMachine encodeCounters) InTime s ∧ s.history.length = 2 ∧
        s.lastEvent = 2 ∧ ∀ p ∈ s.feed.published, p.events.length < maxEvents :=
    exists_reachable_of_run overlappingRun ⟨fun _ => (0 : Nat), rfl⟩ (by decide +kernel)
  obtain ⟨s, reachable, logged, isLast, short⟩ := found
  exact ⟨s, reachable, logged, isLast ▸ (events_published_once reachable).2 short⟩

theorem no_change_slept_through_overlapping :
    ∃ s : Telemetry encodeCounters, Reachable (telemetryMachine encodeCounters) InTime s ∧
      s.changes = 2 ∧ s.seen.2.length = 3 ∧
      ∀ part ∈ s.seen.2, counters.guarded part.1 = true → s.parts part.1 = part.2 := by
  have found : ∃ s : Telemetry encodeCounters,
      Reachable (telemetryMachine encodeCounters) InTime s ∧ s.changes = 2 ∧ s.seen.2.length = 3 ∧
        s.publisher.isCapturing = false ∧ s.changed = false ∧ s.writers = 0 :=
    exists_reachable_of_run overlappingRun ⟨fun _ => (0 : Nat), rfl⟩ (by decide +kernel)
  obtain ⟨s, reachable, changes, seen, idle, notWoken, quiet⟩ := found
  exact ⟨s, reachable, changes, seen, no_change_slept_through reachable idle notWoken quiet⟩

end Telemetry

end FleetRouter.Dashboard
