import FleetRouter.Lib.Broadcast
import FleetRouter.Lib.Fallible
import FleetRouter.Lib.Transition

/-!
# The dashboard feed

One publisher updates a cache and then sends the update to a broadcast channel.  Any number of
subscribers start with a cut of the cache and go on with the updates they receive; one that lags
behind takes a new cut.  Publications, sends and the steps of every subscriber interleave.
-/

namespace FleetRouter.Dashboard

open Transition Broadcast

def updateCapacity : Nat := 8

def historySamples : Nat := 900

def maxEvents : Nat := 500

/-! ## Frames -/

/-- The types of what the dashboard shows. -/
structure Views where
  Status : Type
  Session : Type
  Event : Type
  Sample : Type

structure History (V : Views) where
  intervalMs : Nat
  samples : List V.Sample

structure Frame (V : Views) where
  revision : Nat
  bootstrap : Bool
  status : V.Status
  sessions : List V.Session
  events : List V.Event
  sample : Option V.Sample
  history : Option (History V)

variable {V : Views} {Data Err : Type}

/-- What the publisher captured for one publication. -/
structure Publication (V : Views) where
  status : V.Status
  sessions : List V.Session
  events : List V.Event
  sample : Option V.Sample

def Publication.frame (p : Publication V) (revision : Nat) : Frame V where
  revision
  bootstrap := false
  status := p.status
  sessions := p.sessions
  events := p.events
  sample := p.sample
  history := none

/-- An encoded frame, sent under the revision of the frame. -/
structure Update (encode : Frame V → Except Err Data) where
  frame : Frame V
  data : Data
  encoded : encode frame = .ok data

variable {encode : Frame V → Except Err Data}

def Update.revision (u : Update encode) : Nat := u.frame.revision

def Update.bootstrap (u : Update encode) : Bool := u.frame.bootstrap

def Update.ofFrame (encode : Frame V → Except Err Data) (frame : Frame V) :
    Except Err (Update encode) :=
  match encoded : encode frame with
  | .error err => .error err
  | .ok data => .ok ⟨frame, data, encoded⟩

theorem Update.frame_eq {frame : Frame V} {u : Update encode}
    (made : ofFrame encode frame = .ok u) :
    u.frame = frame := by
  unfold ofFrame at made
  split at made
  · cases made
  · cases made
    rfl

/-! ## The feed -/

structure Snapshot (V : Views) where
  revision : Nat
  status : V.Status
  sessions : List V.Session

structure Cache (V : Views) where
  latest : Option (Snapshot V)
  history : List V.Sample
  events : List V.Event

/-- The cache and the channel.  The publisher has an update to send between its two steps, and
`published` records what it published. -/
structure Feed (encode : Frame V → Except Err Data) where
  cache : Cache V
  pending : Option (Update encode)
  sent : List (Update encode)
  published : List (Publication V)

namespace Feed

def default : Feed encode := ⟨⟨none, [], []⟩, none, [], []⟩

/-- The cache after a publication. -/
def remember (cache : Cache V) (revision : Nat) (p : Publication V) : Cache V where
  latest := some ⟨revision, p.status, p.sessions⟩
  history :=
    match p.sample with
    | some sample =>
        let history := cache.history ++ [sample]
        if historySamples < history.length then history.tail else history
    | none => cache.history
  events :=
    let events := cache.events ++ p.events
    events.drop (events.length - maxEvents)

/-- The first step of a publication, under the lock; nothing changes when the frame cannot be
encoded. -/
def publish (f : Feed encode) (p : Publication V) : Option (Feed encode) :=
  match f.pending with
  | some _ => none
  | none =>
      let revision := f.cache.latest.elim 1 fun s => s.revision + 1
      match Update.ofFrame encode (p.frame revision) with
      | .error _ => some f
      | .ok update =>
          some
            { f with
              cache := remember f.cache revision p
              pending := some update
              published := f.published ++ [p] }

/-- The second step. -/
def send (f : Feed encode) : Option (Feed encode) :=
  f.pending.map fun update => { f with pending := none, sent := f.sent ++ [update] }

/-- A cut of the cache, if there was a publication. -/
def bootstrap (f : Feed encode) : Except Err (Option (Update encode)) :=
  match f.cache.latest with
  | none => .ok none
  | some latest =>
      (Update.ofFrame encode
        { revision := latest.revision
          bootstrap := true
          status := latest.status
          sessions := latest.sessions
          events := f.cache.events
          sample := none
          history := some ⟨1000, f.cache.history⟩ }).map some

end Feed

/-! ## Subscriptions -/

/-- Where a subscription is in its loop. -/
inductive Phase where
  | top
  | recv
  /-- After a lag, before the old queue is discarded. -/
  | resubscribe
  | ended
  deriving DecidableEq, Repr

/-- A subscription: the cursor of its receiver and, oldest first, the updates it returned. -/
structure Subscription (encode : Frame V → Except Err Data) where
  updates : Nat
  revision : Nat
  resync : Bool
  phase : Phase
  received : List (Update encode)

namespace Subscription

def deliver (s : Subscription encode) (u : Update encode) : Subscription encode :=
  { s with revision := u.revision, resync := false, phase := .top, received := s.received ++ [u] }

/-- Reads the channel, if there is a message. -/
def receive (f : Feed encode) (s : Subscription encode) : Option (Subscription encode) :=
  match recv updateCapacity f.sent s.updates with
  | .pending => none
  | .lagged next => some { s with updates := next, phase := .resubscribe }
  | .message u next =>
      let s := { s with updates := next }
      some (if s.resync || u.revision ≤ s.revision then { s with phase := .top } else s.deliver u)

/-- One step of the loop, up to the next access to the feed. -/
def step (f : Feed encode) (s : Subscription encode) : Option (Subscription encode) :=
  match s.phase with
  | .top =>
      if s.resync then
        match f.bootstrap with
        | .ok (some u) => some (s.deliver u)
        | .ok none => some { s with phase := .recv }
        | .error _ => some { s with phase := .ended }
      else s.receive f
  | .recv => s.receive f
  | .resubscribe => some { s with updates := f.sent.length, resync := true, phase := .top }
  | .ended => none

end Subscription

def Feed.subscribe (f : Feed encode) : Subscription encode := ⟨f.sent.length, 0, true, .top, []⟩

/-! ## Runs -/

/-- The feed with everyone who subscribed to it. -/
structure FeedRun (encode : Frame V → Except Err Data) where
  feed : Feed encode
  subscriptions : List (Subscription encode)

inductive Action (V : Views) where
  | publish (p : Publication V)
  | send
  | subscribe
  /-- A step of the subscription at this position. -/
  | poll (index : Nat)

def FeedRun.step (d : FeedRun encode) : Action V → Option (FeedRun encode)
  | .publish p => (d.feed.publish p).map fun feed => { d with feed }
  | .send => d.feed.send.map fun feed => { d with feed }
  | .subscribe => some { d with subscriptions := d.subscriptions ++ [d.feed.subscribe] }
  | .poll index =>
      d.subscriptions[index]?.bind fun s => (s.step d.feed).map fun s' =>
        { d with subscriptions := d.subscriptions.set index s' }

def feedMachine (encode : Frame V → Except Err Data) : Machine (FeedRun encode) (Action V) where
  init d := d = ⟨.default, []⟩
  step := FeedRun.step

/-! ## What the cache holds -/

/-- The frame of a cut after these publications, the last of which is `p`. -/
def cutFrame (through : List (Publication V)) (p : Publication V) : Frame V where
  revision := through.length
  bootstrap := true
  status := p.status
  sessions := p.sessions
  events := (through.flatMap Publication.events).rtake maxEvents
  sample := none
  history := some ⟨1000, (through.filterMap Publication.sample).rtake historySamples⟩

namespace Feed

variable {f f' : Feed encode} {u : Update encode}

/-- The updates made so far, sent or not. -/
def issued (f : Feed encode) : List (Update encode) := f.sent ++ f.pending.toList

/-- Updates and cache are those of the publications. -/
structure Sound (f : Feed encode) : Prop where
  issued : f.issued.map Update.frame = f.published.mapIdx fun k p => p.frame (k + 1)
  latest : f.cache.latest =
    f.published.getLast?.map fun p => ⟨f.published.length, p.status, p.sessions⟩
  history : f.cache.history = (f.published.filterMap Publication.sample).rtake historySamples
  events : f.cache.events = (f.published.flatMap Publication.events).rtake maxEvents

theorem Sound.default : Sound (Feed.default : Feed encode) :=
  ⟨rfl, rfl, (List.rtake_nil _).symm, (List.rtake_nil _).symm⟩

theorem Sound.next_revision (sound : f.Sound) :
    (f.cache.latest.elim 1 fun s => s.revision + 1) = f.published.length + 1 := by
  rw [sound.latest]
  cases isLast : f.published.getLast? with
  | none => rw [List.getLast?_eq_none_iff.mp isLast]; rfl
  | some p => rfl

theorem Sound.remember_history (sound : f.Sound) (revision : Nat) (p : Publication V) :
    (remember f.cache revision p).history =
      ((f.published ++ [p]).filterMap Publication.sample).rtake historySamples := by
  have bounded := length_rtake_le historySamples (f.published.filterMap Publication.sample)
  rw [← sound.history] at bounded
  rw [List.filterMap_append, ← rtake_rtake_append, ← sound.history]
  cases taken : p.sample with
  | none =>
      simp only [remember, taken, List.filterMap_cons, List.filterMap_nil, List.append_nil]
      exact (rtake_of_length_le bounded).symm
  | some sample =>
      simp only [remember, taken, List.filterMap_cons, List.filterMap_nil]
      split
      · rename_i full
        apply tail_eq_rtake
        rw [List.length_append, List.length_singleton] at full ⊢
        omega
      · rename_i short
        exact (rtake_of_length_le (Nat.le_of_not_lt short)).symm

theorem Sound.remember_events (sound : f.Sound) (revision : Nat) (p : Publication V) :
    (remember f.cache revision p).events =
      ((f.published ++ [p]).flatMap Publication.events).rtake maxEvents := by
  rw [List.flatMap_append, ← rtake_rtake_append, ← sound.events, List.flatMap_singleton,
    remember, List.rtake]

/-- A publication waits for the update before it to be sent. -/
theorem publish_cases {p : Publication V} (published : f.publish p = some f') :
    f' = f ∨ ∃ u revision, f.pending = none ∧
      revision = (f.cache.latest.elim 1 fun s => s.revision + 1) ∧ u.frame = p.frame revision ∧
      f' = { f with
        cache := remember f.cache revision p
        pending := some u
        published := f.published ++ [p] } := by
  unfold publish at published
  split at published
  · cases published
  · rename_i idle
    simp only at published
    split at published
    · exact .inl (Option.some.inj published).symm
    · rename_i update made
      exact .inr ⟨update, _, idle, rfl, Update.frame_eq made, (Option.some.inj published).symm⟩

theorem send_cases (sent : f.send = some f') :
    ∃ u, f.pending = some u ∧ f' = { f with pending := none, sent := f.sent ++ [u] } := by
  obtain ⟨u, pending, rfl⟩ := Option.map_eq_some_iff.mp sent
  exact ⟨u, pending, rfl⟩

theorem Sound.publish {p : Publication V} (sound : f.Sound) (published : f.publish p = some f') :
    f'.Sound := by
  rcases publish_cases published with rfl | ⟨u, revision, idle, isNext, frame, rfl⟩
  · exact sound
  · rw [sound.next_revision] at isNext
    have unsent : f.issued = f.sent := by
      rw [Feed.issued, idle, Option.toList_none, List.append_nil]
    constructor
    · change (f.sent ++ [u]).map Update.frame = _
      rw [List.map_append, ← unsent, sound.issued, List.mapIdx_concat, List.map_singleton,
        frame, isNext]
    · rw [List.getLast?_concat, List.length_append, List.length_singleton,
        Option.map_some, ← isNext]
      rfl
    · exact sound.remember_history revision p
    · exact sound.remember_events revision p

theorem Sound.send (sound : f.Sound) (sent : f.send = some f') : f'.Sound := by
  obtain ⟨u, pending, rfl⟩ := send_cases sent
  refine ⟨?_, sound.latest, sound.history, sound.events⟩
  have same : f.issued = f.sent ++ [u] := by rw [Feed.issued, pending, Option.toList_some]
  rw [← sound.issued, same, Feed.issued, Option.toList_none, List.append_nil]

theorem Sound.length_issued (sound : f.Sound) : f.issued.length = f.published.length := by
  simpa using congrArg List.length sound.issued

theorem Sound.sent_le (sound : f.Sound) : f.sent.length ≤ f.published.length := by
  rw [← sound.length_issued, Feed.issued, List.length_append]
  exact Nat.le_add_right ..

/-- The channel has the publications in order. -/
theorem Sound.sent_frame (sound : f.Sound) {k : Nat} (isAt : f.sent[k]? = some u) :
    ∃ p, f.published[k]? = some p ∧ u.frame = p.frame (k + 1) := by
  have bound := (List.getElem?_eq_some_iff.mp isAt).1
  have same := congrArg (fun frames => frames[k]?) sound.issued
  simp only [List.getElem?_map, List.getElem?_mapIdx, Feed.issued,
    List.getElem?_append_left bound, isAt, Option.map_some] at same
  obtain ⟨p, isPublished, frame⟩ := Option.map_eq_some_iff.mp same.symm
  exact ⟨p, isPublished, frame.symm⟩

/-- A cut has everything that was published. -/
theorem Sound.bootstrap (sound : f.Sound) (cut : f.bootstrap = .ok (some u)) :
    ∃ p, f.published.getLast? = some p ∧ u.frame = cutFrame f.published p := by
  unfold Feed.bootstrap at cut
  rw [sound.latest] at cut
  cases isLast : f.published.getLast? with
  | none =>
      rw [isLast] at cut
      cases cut
  | some p =>
      rw [isLast] at cut
      simp only [Option.map_some, sound.history, sound.events] at cut
      obtain ⟨v, made, same⟩ := Fallible.map_eq_ok.mp cut
      cases same
      exact ⟨p, rfl, Update.frame_eq made⟩

end Feed

/-! ## What a subscriber has received -/

/-- The update is a publication, or a cut after one. -/
def Update.Faithful (published : List (Publication V)) (u : Update encode) : Prop :=
  ∃ k p, published[k]? = some p ∧
    (u.frame = p.frame (k + 1) ∨ u.frame = cutFrame (published.take (k + 1)) p)

theorem Update.Faithful.revision_le {published : List (Publication V)} {u : Update encode}
    (faithful : u.Faithful published) : u.revision ≤ published.length := by
  obtain ⟨k, p, isAt, frame | frame⟩ := faithful
  · rw [revision, frame]
    exact (List.getElem?_eq_some_iff.mp isAt).1
  · rw [revision, frame]
    exact List.length_take_le' ..

theorem Update.Faithful.append {published : List (Publication V)} {u : Update encode}
    (faithful : u.Faithful published) (more : List (Publication V)) :
    u.Faithful (published ++ more) := by
  obtain ⟨k, p, isAt, frame⟩ := faithful
  have bound := (List.getElem?_eq_some_iff.mp isAt).1
  refine ⟨k, p, ?_, ?_⟩
  · rw [List.getElem?_append_left bound, isAt]
  · rw [List.take_append_of_le_length bound]
    exact frame

/-- The feed went on. -/
structure Feed.Extends (f f' : Feed encode) : Prop where
  published : ∃ more, f'.published = f.published ++ more
  sent : f.sent.length ≤ f'.sent.length

theorem Feed.Extends.refl (f : Feed encode) : f.Extends f :=
  ⟨⟨[], (List.append_nil _).symm⟩, le_rfl⟩

theorem Feed.extends_publish {f f' : Feed encode} {p : Publication V}
    (published : f.publish p = some f') : f.Extends f' := by
  rcases publish_cases published with rfl | ⟨u, revision, -, -, -, rfl⟩
  · exact .refl f'
  · exact ⟨⟨[p], rfl⟩, le_rfl⟩

theorem Feed.extends_send {f f' : Feed encode} (sent : f.send = some f') : f.Extends f' := by
  obtain ⟨u, -, rfl⟩ := send_cases sent
  refine ⟨⟨[], (List.append_nil _).symm⟩, ?_⟩
  rw [List.length_append]
  exact Nat.le_add_right ..

namespace Subscription

variable {f f' : Feed encode} {s s' : Subscription encode} {u : Update encode}

/-- What a subscriber has received is gapless, and its cursor is not beyond the next update it
needs unless it is to take a cut first. -/
structure Sound (f : Feed encode) (s : Subscription encode) : Prop where
  faithful : ∀ u ∈ s.received, u.Faithful f.published
  gapless : Gapless Update.revision Update.bootstrap s.received
  last : ∀ u ∈ s.received.getLast?, u.revision = s.revision
  bound : s.revision ≤ f.published.length
  cursor : s.updates ≤ f.sent.length
  started : s.resync = false → s.received ≠ []
  behind : s.resync = false → s.phase ≠ .resubscribe → s.updates ≤ s.revision

theorem Sound.subscribe (f : Feed encode) : Sound f f.subscribe where
  faithful := List.forall_mem_nil _
  gapless := .nil
  last := fun _ isLast => absurd isLast (by simp [Feed.subscribe])
  bound := Nat.zero_le _
  cursor := le_rfl
  started := fun synced => absurd synced (by simp [Feed.subscribe])
  behind := fun synced => absurd synced (by simp [Feed.subscribe])

theorem Sound.extends (sound : Sound f s) (extends_ : f.Extends f') : Sound f' s := by
  obtain ⟨more, published⟩ := extends_.published
  refine { sound with faithful := ?_, bound := ?_, cursor := sound.cursor.trans extends_.sent }
  · intro u member
    rw [published]
    exact (sound.faithful u member).append more
  · rw [published, List.length_append]
    exact Nat.le_add_right_of_le sound.bound

theorem Sound.deliver (sound : Sound f s) (next : Nat) (faithful : u.Faithful f.published)
    (first : s.received = [] → u.bootstrap = true)
    (follows : s.revision ≤ u.revision ∧ (u.bootstrap = false → u.revision = s.revision + 1))
    (cursor : next ≤ f.sent.length) (behind : next ≤ u.revision) :
    Sound f ({ s with updates := next }.deliver u) where
  faithful := List.forall_mem_append.mpr ⟨sound.faithful, by simpa using faithful⟩
  gapless := by
    apply sound.gapless.snoc first
    intro last isLast
    rw [Follows, sound.last last isLast]
    exact follows
  last := by
    intro v isLast
    rw [Subscription.deliver, List.getLast?_concat] at isLast
    cases isLast
    rfl
  bound := faithful.revision_le
  cursor := cursor
  started := fun _ => List.append_ne_nil_of_right_ne_nil _ (by simp)
  behind := fun _ _ => behind

/-- A cut continues whatever was received. -/
theorem Sound.bootstrap (sound : Sound f s) (feed : f.Sound) (cut : f.bootstrap = .ok (some u)) :
    Sound f (s.deliver u) := by
  obtain ⟨p, isLast, frame⟩ := feed.bootstrap cut
  have revision : u.revision = f.published.length := by
    rw [Update.revision, frame]
    rfl
  have isCut : u.bootstrap = true := by
    rw [Update.bootstrap, frame]
    rfl
  apply sound.deliver s.updates
  · obtain ⟨before, isConcat⟩ := List.getLast?_eq_some_iff.mp isLast
    refine ⟨before.length, p, ?_, .inr ?_⟩
    · rw [isConcat, List.getElem?_concat_length]
    · rw [frame, List.take_of_length_le]
      rw [isConcat, List.length_append, List.length_singleton]
  · exact fun _ => isCut
  · rw [revision, isCut]
    exact ⟨sound.bound, fun notCut => absurd notCut (by simp)⟩
  · exact sound.cursor
  · rw [revision]
    exact sound.cursor.trans feed.sent_le

/-- An update that is not skipped is the next one. -/
theorem Sound.receive (sound : Sound f s) (feed : f.Sound) (phase : s.phase ≠ .resubscribe)
    (read : s.receive f = some s') : Sound f s' := by
  unfold Subscription.receive at read
  split at read
  · cases read
  · rename_i next lagged
    obtain ⟨-, rfl⟩ := recv_eq_lagged lagged
    cases read
    exact { sound with cursor := Nat.sub_le .., behind := fun _ ended => absurd rfl ended }
  · rename_i u next message
    obtain ⟨isAt, rfl⟩ := recv_eq_message message
    have bound := (List.getElem?_eq_some_iff.mp isAt).1
    obtain ⟨p, isPublished, frame⟩ := feed.sent_frame isAt
    have revision : u.revision = s.updates + 1 := by
      rw [Update.revision, frame]
      rfl
    have moved (skip : s.resync = false → s.updates + 1 ≤ s.revision) :
        Sound f { s with updates := s.updates + 1, phase := .top } :=
      { sound with cursor := bound, behind := fun synced _ => skip synced }
    simp only [Option.some.injEq] at read
    split at read
    · rename_i skipped
      subst read
      apply moved
      intro synced
      simpa [synced, revision] using skipped
    · rename_i wanted
      subst read
      simp only [Bool.or_eq_true, decide_eq_true_eq, not_or, Bool.not_eq_true] at wanted
      obtain ⟨synced, newer⟩ := wanted
      have behind := sound.behind synced phase
      apply sound.deliver (s.updates + 1) ⟨s.updates, p, isPublished, .inl frame⟩
      · exact fun empty => absurd empty (sound.started synced)
      · omega
      · exact bound
      · exact revision.ge

theorem Sound.step (sound : Sound f s) (feed : f.Sound) (step : s.step f = some s') :
    Sound f s' := by
  unfold Subscription.step at step
  split at step
  · rename_i top
    split at step
    · rename_i resync
      split at step
      · rename_i u cut
        cases step
        exact sound.bootstrap feed cut
      · cases step
        exact { sound with behind := fun synced _ => sound.behind synced (by simp [top]) }
      · cases step
        exact { sound with behind := fun synced _ => sound.behind synced (by simp [top]) }
    · exact sound.receive feed (by simp [top]) step
  · rename_i recv
    exact sound.receive feed (by simp [recv]) step
  · cases step
    exact
      { sound with
        cursor := le_rfl
        started := fun synced => absurd synced (by simp)
        behind := fun synced => absurd synced (by simp) }
  · cases step

end Subscription

/-! ## No silent hole -/

structure FeedRun.Sound (d : FeedRun encode) : Prop where
  feed : d.feed.Sound
  subscriptions : ∀ s ∈ d.subscriptions, s.Sound d.feed

theorem FeedRun.Sound.step {d d' : FeedRun encode} {a : Action V} (sound : d.Sound)
    (step : d.step a = some d') : d'.Sound := by
  cases a with
  | publish p =>
      obtain ⟨feed, published, rfl⟩ := Option.map_eq_some_iff.mp step
      exact ⟨sound.feed.publish published,
        fun s member => (sound.subscriptions s member).extends (Feed.extends_publish published)⟩
  | send =>
      obtain ⟨feed, sent, rfl⟩ := Option.map_eq_some_iff.mp step
      exact ⟨sound.feed.send sent,
        fun s member => (sound.subscriptions s member).extends (Feed.extends_send sent)⟩
  | subscribe =>
      cases step
      refine ⟨sound.feed, List.forall_mem_append.mpr ⟨sound.subscriptions, ?_⟩⟩
      simpa using Subscription.Sound.subscribe d.feed
  | poll index =>
      obtain ⟨s, isAt, polled⟩ := Option.bind_eq_some_iff.mp step
      obtain ⟨s', stepped, rfl⟩ := Option.map_eq_some_iff.mp polled
      refine ⟨sound.feed, fun t member => ?_⟩
      rcases List.mem_or_eq_of_mem_set member with old | rfl
      · exact sound.subscriptions t old
      · exact (sound.subscriptions s (List.mem_of_getElem? isAt)).step sound.feed stepped

theorem FeedRun.Sound.of_reachable {allowed : FeedRun encode → Action V → Prop} {d : FeedRun encode}
    (reachable : Reachable (feedMachine encode) allowed d) : d.Sound := by
  apply reachable.invariant (P := FeedRun.Sound)
  · rintro d rfl
    exact ⟨.default, List.forall_mem_nil _⟩
  · intro d a d' _ before _ step
    exact before.step step

/-- Whatever the interleaving, a subscriber first receives a cut, revisions never decrease, an
update that is no cut has the revision after the one before and is that publication, and a cut
of revision `k + 1` has the status of that publication and, up to the limits, all samples and
events published through it. -/
theorem stream_has_no_hole {d : FeedRun encode}
    (reachable : Reachable (feedMachine encode) (fun _ _ => True) d) :
    ∀ s ∈ d.subscriptions,
      (∀ u, s.received.head? = some u → u.bootstrap = true) ∧
      (s.received.map Update.revision).Pairwise (· ≤ ·) ∧
      (∀ i u v, s.received[i]? = some u → s.received[i + 1]? = some v → v.bootstrap = false →
        v.revision = u.revision + 1) ∧
      ∀ u ∈ s.received, ∃ k p, u.revision = k + 1 ∧ d.feed.published[k]? = some p ∧
        (u.bootstrap = false → u.frame = p.frame (k + 1)) ∧
        (u.bootstrap = true →
          u.frame.status = p.status ∧ u.frame.sessions = p.sessions ∧
          u.frame.history = some ⟨1000, ((d.feed.published.take (k + 1)).filterMap
            Publication.sample).rtake historySamples⟩ ∧
          u.frame.events = ((d.feed.published.take (k + 1)).flatMap
            Publication.events).rtake maxEvents) := by
  intro s member
  have sound := (FeedRun.Sound.of_reachable reachable).subscriptions s member
  refine ⟨fun u isHead => sound.gapless.first u isHead, sound.gapless.monotone, ?_, ?_⟩
  · intro i u v isAt isNext notCut
    exact (sound.gapless.follows isAt isNext).2 notCut
  · intro u isReceived
    obtain ⟨k, p, isAt, frame | frame⟩ := sound.faithful u isReceived
    · have live : u.bootstrap = false := by
        rw [Update.bootstrap, frame]
        rfl
      refine ⟨k, p, congrArg Frame.revision frame, isAt, fun _ => frame, fun cut => ?_⟩
      rw [live] at cut
      cases cut
    · have bound := (List.getElem?_eq_some_iff.mp isAt).1
      have cut : u.bootstrap = true := by
        rw [Update.bootstrap, frame]
        rfl
      refine ⟨k, p, ?_, isAt, fun live => ?_, fun _ => ?_⟩
      · rw [Update.revision, frame]
        exact List.length_take_of_le bound
      · rw [cut] at live
        cases live
      · simp only [frame, cutFrame, and_self]

/-- Frames without content, encoded as their revision. -/
def plainEncode (frame : Frame ⟨Unit, Unit, Unit, Unit⟩) : Except Unit Nat := .ok frame.revision

/-- Two publications, the second received after the cut, and ten more that leave the subscriber
behind. -/
def laggingRun : List (Action ⟨Unit, Unit, Unit, Unit⟩) :=
  let publication := [.publish ⟨(), [], [], none⟩, .send]
  .subscribe :: publication ++ .poll 0 :: publication ++ .poll 0 :: .poll 0
    :: (List.replicate 10 publication).flatten ++ [.poll 0, .poll 0, .poll 0]

theorem stream_has_no_hole_sample :
    ∃ d s, Reachable (feedMachine plainEncode) (fun _ _ => True) d ∧ s ∈ d.subscriptions ∧
      s.received.map (fun u => (u.revision, u.bootstrap)) = [(1, true), (2, false), (12, true)] ∧
      (s.received.map Update.revision).Pairwise (· ≤ ·) := by
  have found : ∃ d, Reachable (feedMachine plainEncode) (fun _ _ => True) d ∧
      ∃ s ∈ d.subscriptions,
        s.received.map (fun u => (u.revision, u.bootstrap)) = [(1, true), (2, false), (12, true)] :=
    exists_reachable_of_run laggingRun rfl (by decide +kernel)
  obtain ⟨d, reachable, s, member, received⟩ := found
  exact ⟨d, s, reachable, member, received, (stream_has_no_hole reachable s member).2.1⟩

end FleetRouter.Dashboard
