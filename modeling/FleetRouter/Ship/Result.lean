import FleetRouter.Ship.Request

/-!
# Rewriting block results

A message that classifies as a block result is the encoding of its head
followed by payload bytes the router does not look at.  Inserting a
`prev_block` and patching head and LIB act on the head alone, so they keep the
payload and what `resultPresence` reads from it, and they commute.
-/

namespace FleetRouter.Ship

open ByteReader Reader

/-! ## The layout of a block result -/

/-- An optional position: a presence byte, then the position. -/
def putOptionalPos : Option BlockPos → List UInt8
  | none => putBool false
  | some p => putBool true ++ putPos p

theorem optionalPos_decodes : Decodes optionalPos putOptionalPos := by
  intro input value rest
  simp only [optionalPos, bind_eq_ok, bool_decodes _ _ _]
  constructor
  · rintro ⟨present, middle, rfl, branch⟩
    cases present with
    | false =>
        cases branch
        rfl
    | true =>
        obtain ⟨p, _, read, result⟩ := bind_eq_ok.mp branch
        rw [blockPos_decodes] at read
        subst read
        cases result
        simp [putOptionalPos]
  · rintro rfl
    cases value with
    | none => exact ⟨false, rest, rfl, rfl⟩
    | some p =>
        exact ⟨true, putPos p ++ rest, by simp [putOptionalPos],
          bind_eq_ok.mpr ⟨p, rest, blockPos_decodes.reads p rest, rfl⟩⟩

/-- The index byte of a block result. -/
def resultIndex (v1 : Bool) : UInt8 := if v1 then resBlocksV1 else resBlocksV0

/-- The bytes of a block result up to `this_block`. -/
def putThrough (h : ResultHead) : List UInt8 :=
  [resultIndex h.v1] ++ putPos h.head ++ putPos h.lib ++ putOptionalPos h.thisBlock

/-- The bytes of a block result through `prev_block`. -/
def putResultHead (h : ResultHead) : List UInt8 :=
  putThrough h ++ putOptionalPos h.prevBlock

theorem decodeResultHead_eq_ok {b : List UInt8} {h : ResultHead} :
    decodeResultHead b = .ok h ↔
      ∃ index payload, b = [index] ++ putPos h.head ++ putPos h.lib
          ++ putOptionalPos h.thisBlock ++ putOptionalPos h.prevBlock ++ payload ∧
        h.v1 = decide (index = resBlocksV1) ∧ h.fieldsAt = b.length - payload.length := by
  simp only [decodeResultHead, run_eq_ok, bind_eq_ok, u8, Decodes.byte _ _ _,
    blockPos_decodes _ _ _, optionalPos_decodes _ _ _]
  constructor
  · rintro ⟨rest, index, _, equal, head, _, rfl, lib, _, rfl, thisBlock, _, rfl,
      prevBlock, _, rfl, fieldsAt, _, position, result⟩
    cases position
    cases result
    exact ⟨index, rest, by simpa using equal, rfl, rfl⟩
  · rintro ⟨index, payload, equal, version, position⟩
    refine ⟨payload, index, _, by rw [equal]; simp only [List.append_assoc],
      h.head, _, rfl, h.lib, _, rfl, h.thisBlock, _, rfl, h.prevBlock, payload, rfl,
      b.length - payload.length, payload, rfl, ?_⟩
    rw [pure_apply, ← version, ← position]

/-- A message is a block result exactly if it is an encoded head, followed by
any bytes, and `fields_at` points behind that head. -/
theorem classifyUpstream_eq_blocks {b : List UInt8} {h : ResultHead} :
    classifyUpstream b = .blocks h ↔
      h.fieldsAt = (putResultHead h).length ∧ ∃ payload, b = putResultHead h ++ payload := by
  constructor
  · intro classified
    cases b with
    | nil => cases classified
    | cons first others =>
        simp only [classifyUpstream, List.head?_cons] at classified
        split_ifs at classified with isStatus0 isStatus1 isBlocks
        cases outcome : decodeResultHead (first :: others) with
        | error error => rw [outcome] at classified; cases classified
        | ok head =>
            rw [outcome] at classified
            cases classified
            obtain ⟨index, payload, equal, version, position⟩ :=
              decodeResultHead_eq_ok.mp outcome
            have isFirst : first = index := by
              simp only [List.append_assoc] at equal
              exact (List.cons.inj equal).1
            subst isFirst
            have indexEq : resultIndex h.v1 = first := by
              rw [version]
              rcases isBlocks with rfl | rfl <;> decide
            have whole : first :: others = putResultHead h ++ payload := by
              simp only [putResultHead, putThrough, indexEq, equal]
            rw [whole, List.length_append, Nat.add_sub_cancel] at position
            exact ⟨position, payload, whole⟩
  · rintro ⟨position, payload, rfl⟩
    have read : decodeResultHead (putResultHead h ++ payload) = .ok h :=
      decodeResultHead_eq_ok.mpr ⟨resultIndex h.v1, payload, rfl,
        by cases h.v1 <;> decide, by simpa using position⟩
    have first : (putResultHead h ++ payload).head? = some (resultIndex h.v1) := rfl
    simp only [classifyUpstream, first, read]
    cases h.v1 <;> rfl

theorem resultPresence_eq {h : ResultHead} (position : h.fieldsAt = (putResultHead h).length)
    (payload : List UInt8) :
    resultPresence (putResultHead h ++ payload) h = run (payloadFields h.v1) payload := by
  rw [resultPresence, position, List.drop_left]

/-! ## Inserting `prev_block` -/

/-- The head of a result after `prev_block` was inserted. -/
def ResultHead.withPrev (h : ResultHead) (prev : BlockPos) : ResultHead :=
  { h with prevBlock := some prev, fieldsAt := h.fieldsAt + posLen }

theorem withPrev_fieldsAt {h : ResultHead} (noPrev : h.prevBlock = none)
    (position : h.fieldsAt = (putResultHead h).length) (prev : BlockPos) :
    (h.withPrev prev).fieldsAt = (putResultHead (h.withPrev prev)).length := by
  simp only [ResultHead.withPrev, position, putResultHead, putThrough, noPrev,
    putOptionalPos, List.length_append, putBool_length, putPos_length]
  omega

/-- The edit replaces the presence byte of the absent `prev_block`. -/
theorem insertPrevBlock_eq {h : ResultHead} (hasThis : h.thisBlock.isSome)
    (noPrev : h.prevBlock = none) (position : h.fieldsAt = (putResultHead h).length)
    (payload : List UInt8) (prev : BlockPos) :
    insertPrevBlock (putResultHead h ++ payload) h prev =
      some (putResultHead (h.withPrev prev) ++ payload, h.withPrev prev) := by
  have flag : h.fieldsAt = (putThrough h).length + 1 := by
    rw [position, putResultHead, noPrev]
    simp [putOptionalPos]
  have split : putResultHead h ++ payload = putThrough h ++ ([0] ++ payload) := by
    simp [putResultHead, noPrev, putOptionalPos, putBool]
  have inserted : putResultHead (h.withPrev prev) = putThrough h ++ [1] ++ putPos prev := by
    simp [putResultHead, ResultHead.withPrev, putThrough, putOptionalPos, putBool]
  have present : h.thisBlock.isNone = false := by
    cases thisBlock : h.thisBlock <;> simp_all
  rw [insertPrevBlock, present, noPrev, split, inserted]
  simp only [Bool.false_or, Option.isSome_none, Bool.false_eq_true, if_false]
  rw [flag]
  simp [ResultHead.withPrev, flag, List.drop_append]

/-! ## Patching head and LIB -/

/-- The head of a result after its head and LIB were overwritten. -/
def ResultHead.withHeadLib (h : ResultHead) (head lib : BlockPos) : ResultHead :=
  { h with head, lib }

theorem withHeadLib_length (h : ResultHead) (head lib : BlockPos) :
    (putResultHead (h.withHeadLib head lib)).length = (putResultHead h).length := by
  simp [putResultHead, putThrough, ResultHead.withHeadLib]

/-- A frame with room for head and LIB splits around them. -/
theorem frame_split {frame : List UInt8} (long : headLibEnd ≤ frame.length) :
    ∃ first old rest, frame = first :: (old ++ rest) ∧ old.length = 2 * posLen := by
  cases frame with
  | nil => simp [headLibEnd] at long
  | cons first others =>
      refine ⟨first, others.take (2 * posLen), others.drop (2 * posLen), by simp, ?_⟩
      simp only [headLibEnd, List.length_cons] at long
      rw [List.length_take]
      omega

theorem patchHeadLib_split {first : UInt8} {old rest : List UInt8}
    (length : old.length = 2 * posLen) (head lib : BlockPos) :
    patchHeadLib (first :: (old ++ rest)) head lib =
      first :: (putPos head ++ putPos lib ++ rest) := by
  have long : ¬(first :: (old ++ rest)).length < headLibEnd := by
    simp only [List.length_cons, List.length_append, length, headLibEnd]
    omega
  have dropped : (first :: (old ++ rest)).drop headLibEnd = rest := by
    rw [headLibEnd, Nat.add_comm, List.drop_succ_cons, ← length, List.drop_left]
  rw [patchHeadLib, if_neg long, dropped]
  simp

theorem patchHeadLib_length (frame : List UInt8) (head lib : BlockPos) :
    (patchHeadLib frame head lib).length = frame.length := by
  by_cases long : headLibEnd ≤ frame.length
  · obtain ⟨first, old, rest, rfl, length⟩ := frame_split long
    rw [patchHeadLib_split length]
    simp [length]
    omega
  · rw [patchHeadLib, if_pos (by omega)]

/-- Bytes outside `[1, 73)` are kept. -/
theorem patchHeadLib_frame (frame : List UInt8) (head lib : BlockPos) {i : Nat}
    (outside : i < 1 ∨ headLibEnd ≤ i) :
    (patchHeadLib frame head lib)[i]? = frame[i]? := by
  by_cases long : headLibEnd ≤ frame.length
  · obtain ⟨first, old, rest, rfl, length⟩ := frame_split long
    rw [patchHeadLib_split length]
    rcases outside with low | high
    · obtain rfl : i = 0 := by omega
      rfl
    · simp only [headLibEnd, posLen] at high length
      obtain ⟨k, rfl⟩ : ∃ k, i = k + 72 + 1 := ⟨i - 73, by omega⟩
      simp only [List.getElem?_cons_succ]
      rw [List.getElem?_append_right (by simp [posLen]),
        List.getElem?_append_right (by omega)]
      simp [posLen, length]
  · rw [patchHeadLib, if_pos (by omega)]

theorem headLib_decodes :
    Decodes headLib fun positions => putPos positions.1 ++ putPos positions.2 := by
  rintro input ⟨head, lib⟩ rest
  simp only [headLib, bind_eq_ok, blockPos_decodes _ _ _, pure_apply, Except.ok.injEq,
    Prod.mk.injEq]
  constructor
  · rintro ⟨_, _, rfl, _, _, rfl, ⟨rfl, rfl⟩, rfl⟩
    simp
  · rintro rfl
    exact ⟨head, putPos lib ++ rest, by simp, lib, rest, rfl, ⟨rfl, rfl⟩, rfl⟩

theorem readHeadLib_patchHeadLib {frame : List UInt8} (long : headLibEnd ≤ frame.length)
    (head lib : BlockPos) :
    readHeadLib (patchHeadLib frame head lib) = some (head, lib) := by
  have notShort : ¬(patchHeadLib frame head lib).length < headLibEnd := by
    rw [patchHeadLib_length]
    omega
  rw [readHeadLib, if_neg notShort]
  obtain ⟨first, old, rest, rfl, length⟩ := frame_split long
  rw [patchHeadLib_split length]
  have taken : ((first :: (putPos head ++ putPos lib ++ rest)).take headLibEnd).drop 1 =
      (putPos head ++ putPos lib) ++ [] := by
    have whole : (putPos head ++ putPos lib).length = 2 * posLen := by simp [posLen]
    rw [headLibEnd, Nat.add_comm, List.take_succ_cons, List.drop_one, List.tail_cons,
      ← whole, List.take_left, List.append_nil]
  rw [taken, run_of_ok (headLib_decodes.reads (head, lib) [])]
  rfl

theorem readHeadLib_cons (first : UInt8) (head lib : BlockPos) (rest : List UInt8) :
    readHeadLib (first :: (putPos head ++ putPos lib ++ rest)) = some (head, lib) := by
  have whole : (putPos head ++ putPos lib).length = 2 * posLen := by simp [posLen]
  have long : headLibEnd ≤ (first :: (putPos head ++ putPos lib ++ rest)).length := by
    simp only [List.length_cons, List.length_append, putPos_length, headLibEnd]
    omega
  rw [← patchHeadLib_split whole head lib]
  exact readHeadLib_patchHeadLib long head lib

theorem exists_putPos (bytes : List UInt8) (length : bytes.length = posLen) :
    ∃ p, putPos p = bytes := by
  simp only [posLen] at length
  let word : Vector UInt8 4 := ⟨(bytes.take 4).toArray, by simp [length]⟩
  let id : Vector UInt8 32 := ⟨(bytes.drop 4).toArray, by simp [length]⟩
  refine ⟨{ num := fromLeBytes word, id }, ?_⟩
  simp [putPos, putU32, word, id]

/-- Any frame with room for head and LIB has them. -/
theorem exists_readHeadLib {frame : List UInt8} (long : headLibEnd ≤ frame.length) :
    ∃ head lib, readHeadLib frame = some (head, lib) := by
  obtain ⟨first, old, rest, rfl, length⟩ := frame_split long
  obtain ⟨head, headBytes⟩ := exists_putPos (old.take posLen)
    (by simp [length, posLen])
  obtain ⟨lib, libBytes⟩ := exists_putPos (old.drop posLen)
    (by simp [length, posLen])
  refine ⟨head, lib, ?_⟩
  rw [← List.take_append_drop posLen old, ← headBytes, ← libBytes]
  exact readHeadLib_cons first head lib rest

theorem long_of_readHeadLib {frame : List UInt8} {head lib : BlockPos}
    (read : readHeadLib frame = some (head, lib)) : headLibEnd ≤ frame.length := by
  by_contra short
  rw [readHeadLib, if_pos (by omega)] at read
  cases read

theorem patchHeadLib_result (h : ResultHead) (payload : List UInt8) (head lib : BlockPos) :
    patchHeadLib (putResultHead h ++ payload) head lib =
      putResultHead (h.withHeadLib head lib) ++ payload := by
  have split : putResultHead h ++ payload = resultIndex h.v1 ::
      ((putPos h.head ++ putPos h.lib) ++
        (putOptionalPos h.thisBlock ++ putOptionalPos h.prevBlock ++ payload)) := by
    simp [putResultHead, putThrough]
  rw [split, patchHeadLib_split (by simp [posLen])]
  simp [putResultHead, putThrough, ResultHead.withHeadLib]

/-! ## Both edits -/

theorem insertPrevBlock_eq_none {h : ResultHead}
    (blocked : ¬(h.thisBlock.isSome ∧ h.prevBlock = none)) (frame : List UInt8)
    (prev : BlockPos) : insertPrevBlock frame h prev = none := by
  rw [insertPrevBlock, if_pos]
  cases thisBlock : h.thisBlock <;> cases prevBlock : h.prevBlock <;> simp_all

/-- The edits of a block result change the head of the message and nothing
else, and their order does not matter. -/
theorem block_result_edits (f : List UInt8) (h : ResultHead) (p head lib : BlockPos)
    (isBlocks : classifyUpstream f = .blocks h) :
    (h.thisBlock.isSome → h.prevBlock = none →
      ∃ g, insertPrevBlock f h p = some (g, h.withPrev p) ∧
        classifyUpstream g = .blocks (h.withPrev p) ∧
        resultPresence g (h.withPrev p) = resultPresence f h ∧
        f = f.take (h.fieldsAt - 1) ++ putOptionalPos none ++ f.drop h.fieldsAt ∧
        g = f.take (h.fieldsAt - 1) ++ putOptionalPos (some p) ++ f.drop h.fieldsAt) ∧
    ((patchHeadLib f head lib).length = f.length ∧
      (∀ i, i < 1 ∨ headLibEnd ≤ i → (patchHeadLib f head lib)[i]? = f[i]?) ∧
      classifyUpstream (patchHeadLib f head lib) = .blocks (h.withHeadLib head lib) ∧
      resultPresence (patchHeadLib f head lib) (h.withHeadLib head lib) =
        resultPresence f h ∧
      readHeadLib (patchHeadLib f head lib) = some (head, lib)) ∧
    insertPrevBlock (patchHeadLib f head lib) (h.withHeadLib head lib) p =
      (insertPrevBlock f h p).map fun edited =>
        (patchHeadLib edited.1 head lib, edited.2.withHeadLib head lib) := by
  obtain ⟨position, payload, rfl⟩ := classifyUpstream_eq_blocks.mp isBlocks
  have patchedPosition : (h.withHeadLib head lib).fieldsAt =
      (putResultHead (h.withHeadLib head lib)).length := by
    rw [withHeadLib_length]
    exact position
  refine ⟨?_, ⟨patchHeadLib_length _ _ _, fun i => patchHeadLib_frame _ _ _, ?_, ?_, ?_⟩, ?_⟩
  · intro hasThis noPrev
    have insertedPosition := withPrev_fieldsAt noPrev position p
    have front : h.fieldsAt - 1 = (putThrough h).length := by
      rw [position, putResultHead, noPrev]
      simp [putOptionalPos]
    have layout : putResultHead h = putThrough h ++ putOptionalPos none := by
      rw [putResultHead, noPrev]
    have takeFront : (putResultHead h ++ payload).take (h.fieldsAt - 1) = putThrough h := by
      rw [front, layout, List.append_assoc, List.take_left]
    have dropHead : (putResultHead h ++ payload).drop h.fieldsAt = payload := by
      rw [position, List.drop_left]
    refine ⟨_, insertPrevBlock_eq hasThis noPrev position payload p,
      classifyUpstream_eq_blocks.mpr ⟨insertedPosition, payload, rfl⟩, ?_, ?_, ?_⟩
    · rw [resultPresence_eq position, resultPresence_eq insertedPosition]
      rfl
    · rw [takeFront, dropHead, layout]
    · rw [takeFront, dropHead]
      rfl
  · rw [patchHeadLib_result]
    exact classifyUpstream_eq_blocks.mpr ⟨patchedPosition, payload, rfl⟩
  · rw [patchHeadLib_result, resultPresence_eq position, resultPresence_eq patchedPosition]
    rfl
  · apply readHeadLib_patchHeadLib
    simp only [putResultHead, putThrough, List.length_append, putPos_length, headLibEnd,
      List.length_singleton]
    omega
  · rw [patchHeadLib_result]
    by_cases editable : h.thisBlock.isSome ∧ h.prevBlock = none
    · obtain ⟨hasThis, noPrev⟩ := editable
      have patchedThis : (h.withHeadLib head lib).thisBlock.isSome := hasThis
      have patchedPrev : (h.withHeadLib head lib).prevBlock = none := noPrev
      rw [insertPrevBlock_eq hasThis noPrev position,
        insertPrevBlock_eq patchedThis patchedPrev patchedPosition, Option.map_some,
        patchHeadLib_result]
      rfl
    · have patchedEditable : ¬((h.withHeadLib head lib).thisBlock.isSome ∧
          (h.withHeadLib head lib).prevBlock = none) := editable
      rw [insertPrevBlock_eq_none editable, insertPrevBlock_eq_none patchedEditable]
      rfl

/-- A result for block 5 without `prev_block`, whose `traces` field is cut
short. -/
def sampleResult : List UInt8 :=
  [1] ++ putPos ⟨8, Vector.replicate 32 8⟩ ++ putPos ⟨6, Vector.replicate 32 6⟩
    ++ [1] ++ putPos ⟨5, Vector.replicate 32 5⟩ ++ [0] ++ [1, 2, 0xaa, 0xbb, 1, 9]

def sampleResultHead : ResultHead where
  v1 := false
  head := ⟨8, Vector.replicate 32 8⟩
  lib := ⟨6, Vector.replicate 32 6⟩
  thisBlock := some ⟨5, Vector.replicate 32 5⟩
  prevBlock := none
  fieldsAt := 111

theorem block_result_edits_sample :
    classifyUpstream sampleResult = .blocks sampleResultHead ∧
      ∃ g, insertPrevBlock sampleResult sampleResultHead ⟨4, Vector.replicate 32 4⟩ =
          some (g, sampleResultHead.withPrev ⟨4, Vector.replicate 32 4⟩) ∧
        resultPresence g (sampleResultHead.withPrev ⟨4, Vector.replicate 32 4⟩) =
          .error .truncated := by
  have classified : classifyUpstream sampleResult = .blocks sampleResultHead := by
    decide +kernel
  obtain ⟨g, inserted, -, presence, -⟩ :=
    (block_result_edits sampleResult sampleResultHead ⟨4, Vector.replicate 32 4⟩
      ⟨9, Vector.replicate 32 9⟩ ⟨7, Vector.replicate 32 7⟩ classified).1 rfl rfl
  exact ⟨classified, g, inserted, presence.trans (by decide +kernel)⟩

end FleetRouter.Ship
