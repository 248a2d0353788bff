import Mathlib.Data.List.Infix

/-!
# Readers over byte strings

A reader takes the bytes that are left of a message and either fails or
returns a value with the bytes behind it.  The position of a reader in its
message is the number of bytes already taken, so a reader cannot look back.

Two notions are developed.  `Reads p word value` says that `p` recognises
`word` whatever follows it.  `Streaming eof p` says that every success of `p`
is of that kind and that each strict initial part of the word is rejected with
`eof`.  Both are closed under sequencing.
-/

namespace ByteReader

/-- A reader of `α` that fails with an `ε`. -/
def Read (ε α : Type) : Type := List UInt8 → Except ε (α × List UInt8)

variable {ε α β : Type}

instance : Monad (Read ε) where
  pure value := fun input => .ok (value, input)
  bind p next := fun input =>
    match p input with
    | .ok (value, rest) => next value rest
    | .error error => .error error

/-- The reader that rejects every input. -/
def fail (error : ε) : Read ε α := fun _ => .error error

/-- Take `count` bytes, or fail with `eof` if fewer are left. -/
def take (eof : ε) (count : Nat) : Read ε (List UInt8) := fun input =>
  if count ≤ input.length then .ok (input.take count, input.drop count)
  else .error eof

/-- Take a fixed number of bytes as a vector. -/
def array (eof : ε) (count : Nat) : Read ε (Vector UInt8 count) := do
  let bytes ← take eof count
  if length : bytes.length = count then pure ⟨bytes.toArray, length⟩ else fail eof

/-- Take one byte. -/
def byte (eof : ε) : Read ε UInt8
  | [] => .error eof
  | first :: rest => .ok (first, rest)

/-- Run a reader a fixed number of times and collect the values in order. -/
def replicate (p : Read ε α) : Nat → Read ε (List α)
  | 0 => pure []
  | count + 1 => do
      let value ← p
      let values ← replicate p count
      pure (value :: values)

/-- The value read from the front of a message, whatever follows it. -/
def run (p : Read ε α) (message : List UInt8) : Except ε α :=
  match p message with
  | .ok (value, _) => .ok value
  | .error error => .error error

theorem run_of_ok {p : Read ε α} {message rest : List UInt8} {value : α}
    (success : p message = .ok (value, rest)) : run p message = .ok value := by
  rw [run, success]

theorem run_of_error {p : Read ε α} {message : List UInt8} {error : ε}
    (failure : p message = .error error) : run p message = .error error := by
  rw [run, failure]

theorem run_eq_ok {p : Read ε α} {message : List UInt8} {value : α} :
    run p message = .ok value ↔ ∃ rest, p message = .ok (value, rest) := by
  cases outcome : p message with
  | error error => simp [run_of_error outcome]
  | ok pair => simp [run_of_ok outcome, Prod.ext_iff]

@[simp] theorem pure_apply (value : α) (input : List UInt8) :
    (pure value : Read ε α) input = .ok (value, input) := rfl

theorem bind_of_ok {p : Read ε α} {next : α → Read ε β}
    {input rest : List UInt8} {value : α} (success : p input = .ok (value, rest)) :
    (p >>= next) input = next value rest := by
  change (match p input with
    | .ok (value, rest) => next value rest
    | .error error => .error error) = _
  rw [success]

theorem bind_of_error {p : Read ε α} {next : α → Read ε β}
    {input : List UInt8} {error : ε} (failure : p input = .error error) :
    (p >>= next) input = .error error := by
  change (match p input with
    | .ok (value, rest) => next value rest
    | .error error => .error error) = _
  rw [failure]

/-- A sequence succeeds exactly if its first part does and its second part
does on what is left. -/
theorem bind_eq_ok {p : Read ε α} {next : α → Read ε β}
    {input rest : List UInt8} {result : β} :
    (p >>= next) input = .ok (result, rest) ↔
      ∃ value middle, p input = .ok (value, middle) ∧
        next value middle = .ok (result, rest) := by
  cases outcome : p input with
  | error error =>
      rw [bind_of_error outcome]
      simp
  | ok pair =>
      obtain ⟨value, middle⟩ := pair
      rw [bind_of_ok outcome]
      constructor
      · intro success
        exact ⟨value, middle, rfl, success⟩
      · rintro ⟨value', middle', equal, success⟩
        cases equal
        exact success

/-- Mapping over a reader is sequencing with a pure result. -/
theorem map_eq_bind (f : α → β) (p : Read ε α) :
    f <$> p = p >>= fun value => pure (f value) := rfl

/-! ## Words of a reader -/

/-- `p` recognises `word` as `value`, whatever bytes follow. -/
def Reads (p : Read ε α) (word : List UInt8) (value : α) : Prop :=
  ∀ tail, p (word ++ tail) = .ok (value, tail)

theorem Reads.pure (value : α) : Reads (Pure.pure value : Read ε α) [] value :=
  fun _ => rfl

theorem Reads.bind {p : Read ε α} {next : α → Read ε β}
    {first second : List UInt8} {value : α} {result : β}
    (firstReads : Reads p first value) (secondReads : Reads (next value) second result) :
    Reads (p >>= next) (first ++ second) result := by
  intro tail
  rw [List.append_assoc, bind_of_ok (firstReads (second ++ tail))]
  exact secondReads tail

theorem Reads.take {eof : ε} {word : List UInt8} :
    Reads (take eof word.length) word word := by
  intro tail
  simp [ByteReader.take]

theorem Reads.array {eof : ε} {count : Nat} (word : Vector UInt8 count) :
    Reads (array eof count) word.toList word := by
  intro tail
  have length : word.toList.length = count := by simp
  have read : ByteReader.take eof count (word.toList ++ tail) = .ok (word.toList, tail) := by
    have whole : ByteReader.take eof word.toList.length (word.toList ++ tail) = _ :=
      Reads.take tail
    rwa [length] at whole
  rw [ByteReader.array, bind_of_ok read, dif_pos length]
  simp only [Vector.toList, Array.toArray_toList, pure_apply]

theorem Reads.byte {eof : ε} (first : UInt8) : Reads (byte eof) [first] first :=
  fun _ => rfl

theorem array_sound {eof : ε} {count : Nat} {input rest : List UInt8}
    {value : Vector UInt8 count} (success : array eof count input = .ok (value, rest)) :
    input = value.toList ++ rest := by
  obtain ⟨bytes, middle, taken, converted⟩ := bind_eq_ok.mp success
  simp only [ByteReader.take] at taken
  split at taken
  case isFalse => cases taken
  case isTrue enough =>
    cases taken
    split at converted
    case isFalse => cases converted
    case isTrue length =>
      cases converted
      simp

/-- `p` accepts exactly what `encode` writes, so that each value has one
word. -/
def Decodes (p : Read ε α) (encode : α → List UInt8) : Prop :=
  ∀ input value rest, p input = .ok (value, rest) ↔ input = encode value ++ rest

theorem Decodes.reads {p : Read ε α} {encode : α → List UInt8}
    (decodes : Decodes p encode) (value : α) : Reads p (encode value) value :=
  fun tail => (decodes _ value tail).mpr rfl

theorem Decodes.byte {eof : ε} : Decodes (byte eof) fun first => [first] := by
  intro input value rest
  cases input <;> simp [ByteReader.byte]

theorem Decodes.array {eof : ε} (count : Nat) :
    Decodes (array eof count) Vector.toList := by
  intro input value rest
  constructor
  · exact array_sound
  · rintro rfl
    exact Reads.array value rest

/-- Repeating a reader with one word for each value. -/
theorem Decodes.replicate {p : Read ε α} {encode : α → List UInt8}
    (decodes : Decodes p encode) {count : Nat} {input rest : List UInt8} {values : List α} :
    replicate p count input = .ok (values, rest) ↔
      values.length = count ∧ input = values.flatMap encode ++ rest := by
  induction count generalizing input values rest with
  | zero =>
      cases values <;> simp [ByteReader.replicate, eq_comm]
  | succ count ih =>
      simp only [ByteReader.replicate, bind_eq_ok, decodes _ _ _, ih, pure_apply,
        Except.ok.injEq, Prod.mk.injEq]
      constructor
      · rintro ⟨value, _, rfl, tail, _, ⟨length, rfl⟩, rfl, rfl⟩
        exact ⟨by simp [length], by simp⟩
      · rintro ⟨length, rfl⟩
        cases values with
        | nil => simp at length
        | cons value tail =>
            exact ⟨value, tail.flatMap encode ++ rest, by simp, tail, rest,
              ⟨by simpa using length, rfl⟩, rfl, rfl⟩

/-- Every success takes a word that determines it, and each strict initial
part of that word is rejected with `eof`. -/
def Streaming (eof : ε) (p : Read ε α) : Prop :=
  ∀ input value rest, p input = .ok (value, rest) →
    ∃ word, input = word ++ rest ∧ Reads p word value ∧
      ∀ part, part <+: word → part ≠ word → p part = .error eof

variable {eof : ε}

theorem Streaming.pure (value : α) : Streaming eof (Pure.pure value : Read ε α) := by
  intro input result rest success
  cases success
  refine ⟨[], rfl, Reads.pure value, ?_⟩
  intro part isPart different
  exact absurd (List.prefix_nil.mp isPart) different

theorem Streaming.fail (error : ε) : Streaming eof (fail error : Read ε α) := by
  intro input value rest success
  cases success

theorem Streaming.take (count : Nat) : Streaming eof (take eof count) := by
  intro input value rest success
  simp only [ByteReader.take] at success
  split at success
  case isFalse => cases success
  case isTrue enough =>
    cases success
    have length : (input.take count).length = count := by simp [enough]
    refine ⟨input.take count, by simp, ?_, ?_⟩
    · have reads : Reads (ByteReader.take eof (input.take count).length) _ _ :=
        Reads.take
      rwa [length] at reads
    · intro part isPart different
      have shorter : part.length < count := by
        have le := isPart.length_le
        have ne : part.length ≠ (input.take count).length := by
          intro equal
          exact different (isPart.eq_of_length equal)
        omega
      simp [ByteReader.take, Nat.not_le.mpr shorter]

theorem Streaming.byte : Streaming eof (byte eof) := by
  intro input value rest success
  cases input with
  | nil => cases success
  | cons first tail =>
      cases success
      refine ⟨[value], rfl, Reads.byte value, ?_⟩
      intro part isPart different
      rcases List.prefix_cons_iff.mp isPart with rfl | ⟨more, rfl, inNil⟩
      · rfl
      · exact absurd (by rw [List.prefix_nil.mp inNil]) different

theorem Streaming.ite {condition : Prop} [Decidable condition] {p q : Read ε α}
    (left : Streaming eof p) (right : Streaming eof q) :
    Streaming eof (if condition then p else q) := by
  split
  · exact left
  · exact right

theorem Streaming.bind {p : Read ε α} {next : α → Read ε β}
    (first : Streaming eof p) (second : ∀ value, Streaming eof (next value)) :
    Streaming eof (p >>= next) := by
  intro input result rest success
  obtain ⟨value, middle, firstOk, secondOk⟩ := bind_eq_ok.mp success
  obtain ⟨word, inputEq, reads, cut⟩ := first _ _ _ firstOk
  obtain ⟨word', middleEq, reads', cut'⟩ := second _ _ _ _ secondOk
  refine ⟨word ++ word', by rw [inputEq, middleEq, List.append_assoc],
    reads.bind reads', ?_⟩
  intro part isPart different
  rcases List.prefix_or_prefix_of_prefix isPart (List.prefix_append word word') with
    inFirst | ⟨more, rfl⟩
  · by_cases whole : part = word
    · subst whole
      have read := reads []
      rw [List.append_nil] at read
      rw [bind_of_ok read]
      exact cut' [] List.nil_prefix fun equal => different (by simp [← equal])
    · exact bind_of_error (cut part inFirst whole)
  · rw [bind_of_ok (reads more)]
    refine cut' more ((List.prefix_append_right_inj word).mp isPart) ?_
    rintro rfl
    exact different rfl

theorem Streaming.array (count : Nat) : Streaming eof (array eof count) := by
  refine (Streaming.take count).bind fun bytes => ?_
  split
  · exact Streaming.pure _
  · exact Streaming.fail eof

/-- A word of a streaming reader cut short is rejected with `eof`. -/
theorem Streaming.cut {p : Read ε α} (streaming : Streaming eof p)
    {word part : List UInt8} {value : α} (reads : Reads p word value)
    (isPart : part <+: word) (different : part ≠ word) : p part = .error eof := by
  obtain ⟨word', equal, -, cut⟩ := streaming _ _ _ (reads [])
  rw [List.append_nil, List.append_nil] at equal
  subst equal
  exact cut part isPart different

end ByteReader
