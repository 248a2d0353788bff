import Mathlib.Order.Nat
import FleetRouter.Lib.Transition

/-!
# Relaying an answer

The body of an answer goes from the upstream to the client frame by frame.  For some answers the
router reads the start of the body first and then replays it.  A guard cuts an answer off when its
bytes pass a limit, or when the upstream sends nothing for a while after the client asked for more;
the request keeps its slot and its permit until the body ends.
-/

namespace FleetRouter.ChainApi

open Transition

inductive BodyFrame where
  | data (bytes : List UInt8)
  | trailers
  deriving DecidableEq, Repr

/-- How the body of the upstream ends. -/
inductive BodyEnding where
  | done
  | failed
  deriving DecidableEq, Repr

def BodyFrame.bytes : BodyFrame → List UInt8
  | .data bytes => bytes
  | .trailers => []

/-- The bytes of a body. -/
def dataOf (frames : List BodyFrame) : List UInt8 := frames.flatMap BodyFrame.bytes

/-! ## Reading the start of a body -/

inductive Peeked where
  /-- The whole body, at most the limit. -/
  | whole (bytes : List UInt8)
  /-- More than the limit: what was read, and the rest of the body. -/
  | more (chunks : List (List UInt8)) (rest : List BodyFrame)
  | failed
  deriving DecidableEq, Repr

def peekFrom (limit : Nat) (ending : BodyEnding) (read : Nat) (chunks : List (List UInt8)) :
    List BodyFrame → Peeked
  | [] =>
      match ending with
      | .done => .whole chunks.flatten
      | .failed => .failed
  | .trailers :: rest => peekFrom limit ending read chunks rest
  | .data bytes :: rest =>
      if limit < read + bytes.length then .more (chunks ++ [bytes]) rest
      else peekFrom limit ending (read + bytes.length) (chunks ++ [bytes]) rest

def peek (limit : Nat) (ending : BodyEnding) (body : List BodyFrame) : Peeked :=
  peekFrom limit ending 0 [] body

/-- What is read and what is left are the body. -/
theorem dataOf_peekFrom {limit read : Nat} {ending : BodyEnding}
    {chunks chunks' : List (List UInt8)} {body rest : List BodyFrame}
    (isMore : peekFrom limit ending read chunks body = .more chunks' rest) :
    chunks'.flatten ++ dataOf rest = chunks.flatten ++ dataOf body := by
  induction body generalizing read chunks with
  | nil =>
      cases ending with
      | done => cases isMore
      | failed => cases isMore
  | cons frame body ih =>
      cases frame with
      | trailers => exact ih isMore
      | data bytes =>
          have shifted : (chunks ++ [bytes]).flatten ++ dataOf body =
              chunks.flatten ++ dataOf (.data bytes :: body) := by
            simp [dataOf, BodyFrame.bytes]
          rw [peekFrom] at isMore
          split at isMore
          · cases isMore
            exact shifted
          · exact (ih isMore).trans shifted

/-! ## The relay -/

inductive RelayEnd where
  | complete
  | failed
  | stalled
  | tooLarge
  /-- The client left, or the server saw no need to ask for more. -/
  | dropped
  deriving DecidableEq, Repr

def BodyEnding.relayEnd : BodyEnding → RelayEnd
  | .done => .complete
  | .failed => .failed

structure RelayRun where
  stall : Nat
  maxBytes : Option Nat
  now : Nat
  chunks : List (List UInt8)
  rest : List BodyFrame
  ending : BodyEnding
  waiting : Bool
  due : Nat
  streamed : Nat
  hold : Bool
  /-- What the client got. -/
  sent : List BodyFrame
  ended : Option RelayEnd
  /-- When the client last asked for a frame that was not there. -/
  asked : Nat
  /-- When a frame last came. -/
  frameAt : Option Nat
  deriving DecidableEq, Repr

inductive RelayEvent where
  | tick (time : Nat)
  /-- The client asks for a frame; `ready` tells that the upstream has sent one. -/
  | poll (ready : Bool)
  | drop
  deriving DecidableEq, Repr

def u64Max : Nat := 18446744073709551615

namespace RelayRun

variable (s : RelayRun)

def start (stall : Nat) (maxBytes : Option Nat) (now : Nat) (ending : BodyEnding)
    (chunks : List (List UInt8)) (rest : List BodyFrame) : RelayRun where
  stall
  maxBytes
  now
  chunks
  rest
  ending
  waiting := false
  due := 0
  streamed := 0
  hold := true
  sent := []
  ended := none
  asked := 0
  frameAt := none

/-- The hold goes with the end of the body. -/
def finish (reason : RelayEnd) : RelayRun := { s with ended := some reason, hold := false }

/-- A frame of the upstream. -/
def onFrame (frame : BodyFrame) : RelayRun :=
  match frame, s.maxBytes with
  | .data bytes, some max =>
      let streamed := min (s.streamed + bytes.length) u64Max
      if max < streamed then { s with streamed }.finish .tooLarge
      else { s with streamed, sent := s.sent ++ [frame] }
  | _, _ => { s with sent := s.sent ++ [frame] }

/-- Nothing is there: the clock runs from the first time that happens. -/
def onPending : RelayRun :=
  let s :=
    if s.waiting then s
    else { s with waiting := true, due := s.now + s.stall, asked := s.now }
  if s.due ≤ s.now then s.finish .stalled else s

/-- The upstream has something. -/
def onReady : RelayRun := { s with waiting := false, frameAt := some s.now }

def onPoll (ready : Bool) : RelayRun :=
  match s.chunks, ready, s.rest with
  | chunk :: chunks, _, _ => { s.onReady with chunks }.onFrame (.data chunk)
  | [], true, frame :: rest => { s.onReady with rest }.onFrame frame
  | [], true, [] => s.onReady.finish s.ending.relayEnd
  | [], false, _ => s.onPending

def step (e : RelayEvent) : Option RelayRun :=
  if s.ended.isSome then none
  else
    match e with
    | .tick time => some { s with now := s.now + time }
    | .poll ready => some (s.onPoll ready)
    | .drop => some (s.finish .dropped)

/-- What the end of an answer says of the upstream's body. -/
def Explains (body : List BodyFrame) : RelayEnd → Prop
  | .complete => s.ending = .done ∧ dataOf s.sent = dataOf body
  | .failed => s.ending = .failed ∧ dataOf s.sent = dataOf body
  | .stalled => s.asked + s.stall ≤ s.now ∧ ∀ time ∈ s.frameAt, time ≤ s.asked
  | .tooLarge => ∃ max ∈ s.maxBytes, max < (dataOf body).length
  | .dropped => True

end RelayRun

/-- The body is streamed as it is, or its start is read first. -/
def relayMachine (body : List BodyFrame) : Machine RelayRun RelayEvent where
  init s := ∃ stall maxBytes now ending chunks rest,
    s = .start stall maxBytes now ending chunks rest ∧
      ((chunks = [] ∧ rest = body) ∨ ∃ limit, peek limit ending body = .more chunks rest)
  step := RelayRun.step

namespace RelayRun

variable {body : List BodyFrame} {s s' : RelayRun}

/-- A relay that goes on. -/
structure Relays (body : List BodyFrame) (s : RelayRun) : Prop where
  whole : dataOf s.sent ++ (s.chunks.flatten ++ dataOf s.rest) = dataOf body
  counted : ∀ max ∈ s.maxBytes, s.streamed = (dataOf s.sent).length ∧ s.streamed ≤ max
  waits : s.waiting = true → s.due = s.asked + s.stall ∧ ∀ time ∈ s.frameAt, time ≤ s.asked
  came : ∀ time ∈ s.frameAt, time ≤ s.now
  hold : s.hold = true
  goesOn : s.ended = none

/-- A relay at any time. -/
structure Sound (body : List BodyFrame) (s : RelayRun) : Prop where
  going : s.ended = none → s.Relays body
  partly : ∃ later, dataOf s.sent ++ later = dataOf body
  bounded : ∀ max ∈ s.maxBytes, (dataOf s.sent).length ≤ max
  released : s.ended ≠ none → s.hold = false
  explained : ∀ reason ∈ s.ended, s.Explains body reason

theorem Relays.sound (relays : s.Relays body) : s.Sound body where
  going _ := relays
  partly := ⟨_, relays.whole⟩
  bounded max isMax := (relays.counted max isMax).1 ▸ (relays.counted max isMax).2
  released ended := absurd relays.goesOn ended
  explained := by simp [relays.goesOn]

/-- An end that is explained. -/
theorem sound_finish {reason : RelayEnd} (partly : ∃ later, dataOf s.sent ++ later = dataOf body)
    (bounded : ∀ max ∈ s.maxBytes, (dataOf s.sent).length ≤ max)
    (explains : s.Explains body reason) : (s.finish reason).Sound body where
  going ended := by cases ended
  partly := partly
  bounded := bounded
  released _ := rfl
  explained := by
    intro other isOther
    cases isOther
    cases reason <;> exact explains

theorem dataOf_snoc (frames : List BodyFrame) (frame : BodyFrame) :
    dataOf (frames ++ [frame]) = dataOf frames ++ frame.bytes := by
  simp [dataOf]

theorem onFrame_unlimited (isMax : s.maxBytes = none) (frame : BodyFrame) :
    s.onFrame frame = { s with sent := s.sent ++ [frame] } := by
  cases frame <;> simp [onFrame, isMax]

/-- The count of a body that has at most `u64::MAX` bytes never saturates. -/
theorem onFrame_data {max : Nat} (isMax : s.maxBytes = some max) {bytes : List UInt8}
    (fits : s.streamed + bytes.length ≤ u64Max) :
    s.onFrame (.data bytes) =
      if max < s.streamed + bytes.length then
        { s with streamed := s.streamed + bytes.length }.finish .tooLarge
      else
        { s with
          streamed := s.streamed + bytes.length
          sent := s.sent ++ [.data bytes] } := by
  simp [onFrame, isMax, Nat.min_eq_left fits]

/-- A frame is passed on, or it is the one that passes the limit. -/
theorem sound_onFrame (short : (dataOf body).length ≤ u64Max) {frame : BodyFrame}
    (whole : dataOf s.sent ++ (frame.bytes ++ (s.chunks.flatten ++ dataOf s.rest)) = dataOf body)
    (counted : ∀ max ∈ s.maxBytes, s.streamed = (dataOf s.sent).length ∧ s.streamed ≤ max)
    (idle : s.waiting = false) (came : ∀ time ∈ s.frameAt, time ≤ s.now)
    (hold : s.hold = true) (goesOn : s.ended = none) : (s.onFrame frame).Sound body := by
  have passed : dataOf (s.sent ++ [frame]) ++ (s.chunks.flatten ++ dataOf s.rest) =
      dataOf body := by
    rw [dataOf_snoc, List.append_assoc]
    exact whole
  have waits : s.waiting = true →
      s.due = s.asked + s.stall ∧ ∀ time ∈ s.frameAt, time ≤ s.asked := by
    simp [idle]
  cases isMax : s.maxBytes with
  | none =>
      rw [onFrame_unlimited isMax]
      exact Relays.sound ⟨passed, by simp [isMax], waits, came, hold, goesOn⟩
  | some max =>
      have before := counted max isMax
      cases frame with
      | trailers =>
          -- Trailers are passed on and not counted.
          change Sound body { s with sent := s.sent ++ [.trailers] }
          refine Relays.sound ⟨passed, fun limit isLimit => ?_, waits, came, hold, goesOn⟩
          have same := counted limit isLimit
          rw [dataOf_snoc, BodyFrame.bytes, List.append_nil]
          exact same
      | data bytes =>
          have total : s.streamed + bytes.length ≤ (dataOf body).length := by
            rw [← whole, before.1, BodyFrame.bytes, List.length_append, List.length_append]
            omega
          rw [onFrame_data isMax (Nat.le_trans total short)]
          split
          · rename_i tooLarge
            refine sound_finish ⟨_, whole⟩ (fun limit isLimit => ?_) ⟨max, isMax, ?_⟩
            · have same := counted limit isLimit
              exact same.1 ▸ same.2
            · exact Nat.lt_of_lt_of_le tooLarge total
          · rename_i small
            refine Relays.sound ⟨passed, fun limit isLimit => ?_, waits, came, hold, goesOn⟩
            cases isMax.symm.trans isLimit
            refine ⟨?_, Nat.not_lt.mp small⟩
            rw [dataOf_snoc, List.length_append, BodyFrame.bytes, ← before.1]

theorem Relays.onPending (relays : s.Relays body) : s.onPending.Sound body := by
  have bounded : ∀ max ∈ s.maxBytes, (dataOf s.sent).length ≤ max := relays.sound.bounded
  unfold RelayRun.onPending
  cases isWaiting : s.waiting with
  | true =>
      simp only [if_true]
      split
      · rename_i due
        obtain ⟨isDue, quiet⟩ := relays.waits isWaiting
        exact sound_finish ⟨_, relays.whole⟩ bounded ⟨isDue ▸ due, quiet⟩
      · exact relays.sound
  | false =>
      simp only [Bool.false_eq_true, if_false]
      split
      · rename_i due
        exact sound_finish ⟨_, relays.whole⟩ bounded ⟨due, relays.came⟩
      · exact Relays.sound ⟨relays.whole, relays.counted, fun _ => ⟨rfl, relays.came⟩, relays.came,
          relays.hold, relays.goesOn⟩

theorem Relays.onPoll (relays : s.Relays body) (short : (dataOf body).length ≤ u64Max)
    (ready : Bool) : (s.onPoll ready).Sound body := by
  have whole := relays.whole
  have came : ∀ time ∈ s.onReady.frameAt, time ≤ s.onReady.now := by
    rintro _ ⟨⟩
    exact le_rfl
  unfold RelayRun.onPoll
  split
  · rename_i chunk chunks isChunks
    refine sound_onFrame (s := { s.onReady with chunks }) short ?_ relays.counted rfl came
      relays.hold relays.goesOn
    rw [isChunks, List.flatten_cons, List.append_assoc] at whole
    exact whole
  · rename_i frame rest isChunks isRest
    refine sound_onFrame (s := { s.onReady with rest }) short ?_ relays.counted rfl came
      relays.hold relays.goesOn
    rw [isChunks, isRest] at whole
    simpa [onReady, isChunks, dataOf] using whole
  · rename_i isChunks isRest
    have all : dataOf s.sent = dataOf body := by
      rw [isChunks, isRest] at whole
      simpa [dataOf] using whole
    refine sound_finish ⟨_, relays.whole⟩ relays.sound.bounded ?_
    cases isEnding : s.ending with
    | done | failed => exact ⟨isEnding, all⟩
  · exact relays.onPending

theorem Sound.step (sound : s.Sound body) (short : (dataOf body).length ≤ u64Max) {e : RelayEvent}
    (step : s.step e = some s') : s'.Sound body := by
  unfold RelayRun.step at step
  split at step
  · cases step
  · rename_i notEnded
    have relays := sound.going (Option.not_isSome_iff_eq_none.mp notEnded)
    cases e with
    | tick time =>
        cases step
        have came : ∀ before ∈ s.frameAt, before ≤ s.now + time := fun before isBefore =>
          Nat.le_add_right_of_le (relays.came before isBefore)
        exact Relays.sound
          ⟨relays.whole, relays.counted, relays.waits, came, relays.hold, relays.goesOn⟩
    | poll ready =>
        cases step
        exact relays.onPoll short ready
    | drop =>
        cases step
        exact sound_finish ⟨_, relays.whole⟩ relays.sound.bounded trivial

theorem sound_of_reachable {allowed : RelayRun → RelayEvent → Prop}
    (short : (dataOf body).length ≤ u64Max)
    (reachable : Reachable (relayMachine body) allowed s) : s.Sound body := by
  apply reachable.invariant (P := Sound body)
  · rintro s ⟨stall, maxBytes, now, ending, chunks, rest, rfl, source⟩
    refine Relays.sound ⟨?_, fun max _ => ⟨rfl, Nat.zero_le _⟩, fun waits => ?_,
      fun time came => absurd came (Option.not_mem_none time), rfl, rfl⟩
    · rcases source with ⟨rfl, rfl⟩ | ⟨limit, isMore⟩
      · rfl
      · exact dataOf_peekFrom isMore
    · cases waits
  · exact fun s e s' _ sound _ step => sound.step short step

/-- Whatever the upstream and the client do, the client gets bytes of the upstream's body from its
start on, all of them unless the answer is cut off, and never more than the limit.  An answer is cut
off for its length only if the body is too long, and as stalled only after the client waited for a
whole stall time in which nothing came.  The slot and the permit are held exactly until the body
ends. -/
theorem relay_faithful {allowed : RelayRun → RelayEvent → Prop}
    (short : (dataOf body).length ≤ u64Max)
    (reachable : Reachable (relayMachine body) allowed s) :
    (∃ later, dataOf s.sent ++ later = dataOf body) ∧
      (∀ max ∈ s.maxBytes, (dataOf s.sent).length ≤ max) ∧
      (s.hold = true ↔ s.ended = none) ∧ ∀ reason ∈ s.ended, s.Explains body reason := by
  have sound := sound_of_reachable short reachable
  refine ⟨sound.partly, sound.bounded, ⟨fun holds => ?_, fun goesOn => ?_⟩, sound.explained⟩
  · by_contra ended
    rw [sound.released ended] at holds
    cases holds
  · exact (sound.going goesOn).hold

/-! ## An upstream that sends its whole body -/

theorem onFrame_maxBytes (frame : BodyFrame) : (s.onFrame frame).maxBytes = s.maxBytes := by
  unfold onFrame
  split
  · dsimp only
    split <;> rfl
  · rfl

/-- The limit of a relay is set when it starts. -/
theorem maxBytes_of_reachable {first : RelayRun} {allowed : RelayRun → RelayEvent → Prop}
    (run : Reachable ((relayMachine body).startingAt first) allowed s) :
    s.maxBytes = first.maxBytes := by
  apply run.invariant (P := fun s => s.maxBytes = first.maxBytes)
  · rintro _ rfl
    rfl
  · intro s e s' _ same _ step
    refine Eq.trans ?_ same
    obtain ⟨_, step⟩ := Option.ite_none_left_eq_some.mp step
    cases e with
    | tick time =>
        cases step
        rfl
    | poll ready =>
        cases step
        unfold onPoll
        split
        · exact onFrame_maxBytes _
        · exact onFrame_maxBytes _
        · rfl
        · unfold onPending
          dsimp only
          split <;> split <;> rfl
    | drop =>
        cases step
        rfl

theorem onFrame_source (frame : BodyFrame) :
    (s.onFrame frame).chunks = s.chunks ∧ (s.onFrame frame).rest = s.rest ∧
      (s.onFrame frame).ending = s.ending := by
  unfold onFrame
  split
  · dsimp only
    split <;> exact ⟨rfl, rfl, rfl⟩
  · exact ⟨rfl, rfl, rfl⟩

theorem onFrame_ended (frame : BodyFrame) :
    (s.onFrame frame).ended = s.ended ∨ (s.onFrame frame).ended = some .tooLarge := by
  unfold onFrame
  split
  · dsimp only
    split
    · exact .inr rfl
    · exact .inl rfl
  · exact .inl rfl

/-- A body within the limit is never cut off for its length. -/
theorem onFrame_goesOn {frame : BodyFrame}
    (fits : ∀ max ∈ s.maxBytes, (dataOf body).length ≤ max)
    (sound : (s.onFrame frame).Sound body) (goesOn : s.ended = none) :
    (s.onFrame frame).ended = none := by
  rcases onFrame_ended (s := s) frame with same | tooLarge
  · exact same.trans goesOn
  · obtain ⟨max, isMax, long⟩ := sound.explained _ tooLarge
    rw [onFrame_maxBytes] at isMax
    exact absurd (fits max isMax) (Nat.not_le.mpr long)

/-- What the upstream has yet to send. -/
def left (s : RelayRun) : Nat := s.chunks.length + s.rest.length

/-- The client asks and the upstream has sent. -/
def Flowing (_ : RelayRun) (e : RelayEvent) : Prop := e = .poll true

/-- As long as something is left, a frame is passed on. -/
theorem Relays.flow (relays : s.Relays body) (short : (dataOf body).length ≤ u64Max)
    (fits : ∀ max ∈ s.maxBytes, (dataOf body).length ≤ max) (more : s.left ≠ 0) :
    (s.onPoll true).Relays body ∧ (s.onPoll true).maxBytes = s.maxBytes ∧
      (s.onPoll true).ending = s.ending ∧ (s.onPoll true).left + 1 = s.left := by
  have sound := relays.onPoll short true
  -- Both sources of a frame end in `onFrame`, on a state that differs from `s` only in its source.
  have passed : ∀ (t : RelayRun) (frame : BodyFrame), s.onPoll true = t.onFrame frame →
      t.maxBytes = s.maxBytes → t.ending = s.ending → t.ended = s.ended → t.left + 1 = s.left →
      (s.onPoll true).Relays body ∧ (s.onPoll true).maxBytes = s.maxBytes ∧
        (s.onPoll true).ending = s.ending ∧ (s.onPoll true).left + 1 = s.left := by
    intro t frame polled maxBytes ending ended fewer
    obtain ⟨chunks, rest, sameEnding⟩ := onFrame_source (s := t) frame
    rw [polled] at sound ⊢
    refine ⟨sound.going ?_, (onFrame_maxBytes frame).trans maxBytes, sameEnding.trans ending, ?_⟩
    · exact onFrame_goesOn (maxBytes ▸ fits) sound (ended.trans relays.goesOn)
    · rw [left, chunks, rest]
      exact fewer
  cases isChunks : s.chunks with
  | cons chunk chunks =>
      refine passed { s.onReady with chunks } (.data chunk) ?_ rfl rfl rfl ?_
      · simp [RelayRun.onPoll, isChunks]
      · simp only [left, onReady, isChunks, List.length_cons]
        omega
  | nil =>
      cases isRest : s.rest with
      | nil => simp [left, isChunks, isRest] at more
      | cons frame rest =>
          refine passed { s.onReady with rest } frame ?_ rfl rfl rfl ?_
          · simp [RelayRun.onPoll, isChunks, isRest]
          · simp only [left, onReady, isRest, List.length_cons]
            omega

theorem Relays.reachable_onPoll {first : RelayRun} (relays : s.Relays body)
    (run : Reachable ((relayMachine body).startingAt first) Flowing s) :
    Reachable ((relayMachine body).startingAt first) Flowing (s.onPoll true) := by
  have moved : s.step (.poll true) = some (s.onPoll true) := by
    simp [RelayRun.step, relays.goesOn]
  exact .next run rfl moved

theorem flow_to_end (short : (dataOf body).length ≤ u64Max) {first : RelayRun} (n : Nat)
    (run : Reachable ((relayMachine body).startingAt first) Flowing s) (relays : s.Relays body)
    (fits : ∀ max ∈ s.maxBytes, (dataOf body).length ≤ max) (many : s.left = n) :
    ∃ s', Reachable ((relayMachine body).startingAt first) Flowing s' ∧
      s'.ended = some s.ending.relayEnd ∧ dataOf s'.sent = dataOf body := by
  induction n generalizing s with
  | zero =>
      have noChunks : s.chunks = [] :=
        List.length_eq_zero_iff.mp (Nat.eq_zero_of_add_eq_zero_right many)
      have noRest : s.rest = [] :=
        List.length_eq_zero_iff.mp (Nat.eq_zero_of_add_eq_zero_left many)
      have whole := relays.whole
      rw [noChunks, noRest] at whole
      refine ⟨_, relays.reachable_onPoll run, ?_, ?_⟩
      · simp [RelayRun.onPoll, noChunks, noRest, onReady, finish]
      · simpa [RelayRun.onPoll, noChunks, noRest, onReady, finish, dataOf] using whole
  | succ n ih =>
      have notDone : s.left ≠ 0 := many ▸ Nat.succ_ne_zero n
      obtain ⟨relays', maxBytes, ending, fewer⟩ := relays.flow short fits notDone
      rw [← ending]
      exact ih (relays.reachable_onPoll run) relays' (maxBytes ▸ fits)
        (Nat.succ.inj (fewer.trans many))

/-- From any point of a relay that goes on, an upstream that sends the rest of a body within the
limit gets all of it to the client, and the answer ends as the body does. -/
theorem relay_completes {allowed : RelayRun → RelayEvent → Prop}
    (short : (dataOf body).length ≤ u64Max)
    (reachable : Reachable (relayMachine body) allowed s) (goesOn : s.ended = none)
    (fits : ∀ max ∈ s.maxBytes, (dataOf body).length ≤ max) :
    ∃ s', Reachable ((relayMachine body).startingAt s) Flowing s' ∧
      s'.ended = some s.ending.relayEnd ∧ dataOf s'.sent = dataOf body :=
  flow_to_end short s.left (.start rfl) ((sound_of_reachable short reachable).going goesOn) fits rfl

/-- A body of three bytes whose first two are read first, cut off by a limit of two. -/
def cutBody : List BodyFrame := [.data [1, 2], .trailers, .data [3]]

theorem relay_faithful_cut :
    ∃ s, Reachable (relayMachine cutBody) (fun _ _ => True) s ∧ s.sent = [.data [1, 2], .trailers] ∧
      s.ended = some .tooLarge ∧ s.hold = false ∧ s.Explains cutBody .tooLarge := by
  have found : ∃ s, Reachable (relayMachine cutBody) (fun _ _ => True) s ∧
      s.sent = [.data [1, 2], .trailers] ∧ s.ended = some .tooLarge ∧ s.hold = false :=
    exists_reachable_of_run [.poll false, .poll true, .poll true]
      ⟨10, some 2, 0, .done, [[1, 2]], [.trailers, .data [3]], rfl, .inr ⟨1, rfl⟩⟩
      (by decide +kernel)
  obtain ⟨s, reachable, sent, ended, hold⟩ := found
  exact ⟨s, reachable, sent, ended, hold,
    (relay_faithful (by decide) reachable).2.2.2 _ ended⟩

theorem relay_completes_cut :
    ∃ s s', Reachable (relayMachine cutBody) (fun _ _ => True) s ∧
      Reachable ((relayMachine cutBody).startingAt s) Flowing s' ∧
      s'.ended = some s.ending.relayEnd ∧ dataOf s'.sent = [1, 2, 3] := by
  have found : ∃ s, Reachable (relayMachine cutBody) (fun _ _ => True) s ∧
      s.ended = none ∧ s.maxBytes = some 3 :=
    exists_reachable_of_run [.poll false, .poll false, .tick 9]
      ⟨10, some 3, 0, .done, [[1, 2]], [.trailers, .data [3]], rfl, .inr ⟨1, rfl⟩⟩
      (by decide +kernel)
  obtain ⟨s, reachable, goesOn, isMax⟩ := found
  have fits : ∀ max ∈ s.maxBytes, (dataOf cutBody).length ≤ max := by
    intro max isLimit
    cases isMax.symm.trans isLimit
    decide
  obtain ⟨s', run, ended, all⟩ := relay_completes (by decide) reachable goesOn fits
  exact ⟨s, s', reachable, run, ended, all⟩

end RelayRun

end FleetRouter.ChainApi
