import FleetRouter.Ship.Wire

/-!
# The client request codec

`FcWord` is the grammar of client requests as the node's unpacking reads them.
`decodeClient` accepts exactly the byte strings that begin with such a word,
what the encoders write are words, and a word cut short is rejected as
truncated.
-/

namespace FleetRouter.Ship

open ByteReader Reader

/-! ## Fields -/

@[simp] theorem putU32_length (value : Fin (2 ^ 32)) : (putU32 value).length = 4 := by
  simp [putU32]

@[simp] theorem putPos_length (p : BlockPos) : (putPos p).length = posLen := by
  simp [putPos, posLen]

@[simp] theorem putBool_length (value : Bool) : (putBool value).length = 1 := rfl

theorem flatMap_putPos_length (positions : List BlockPos) :
    (positions.flatMap putPos).length = positions.length * posLen := by
  induction positions with
  | nil => rfl
  | cons p positions ih => simp [ih, Nat.succ_mul, Nat.add_comm]

theorem u32_decodes : Decodes u32 putU32 := by
  intro input value rest
  simp only [u32, bind_eq_ok, Decodes.array 4 _ _ _, pure_apply, Except.ok.injEq,
    Prod.mk.injEq, putU32]
  constructor
  · rintro ⟨bytes, _, rfl, rfl, rfl⟩
    rw [toLeBytes_fromLeBytes]
  · rintro rfl
    exact ⟨toLeBytes value, rest, rfl, fromLeBytes_toLeBytes value, rfl⟩

theorem bool_decodes : Decodes Reader.bool putBool := by
  intro input value rest
  simp only [Reader.bool, u8, bind_eq_ok, Decodes.byte _ _ _]
  constructor
  · rintro ⟨flag, middle, rfl, success⟩
    split at success
    · cases success
      simp_all [putBool]
    · split at success
      · cases success
        simp_all [putBool]
      · cases success
  · rintro rfl
    cases value
    · exact ⟨0, rest, rfl, rfl⟩
    · exact ⟨1, rest, rfl, rfl⟩

theorem blockPos_decodes : Decodes blockPos putPos := by
  intro input p rest
  simp only [blockPos, bind_eq_ok, u32_decodes _ _ _, Decodes.array 32 _ _ _, pure_apply,
    Except.ok.injEq, Prod.mk.injEq, putPos]
  constructor
  · rintro ⟨num, _, rfl, id, _, rfl, rfl, rfl⟩
    simp
  · rintro rfl
    exact ⟨p.num, p.id.toList ++ rest, by simp, p.id, rest, rfl, rfl, rfl⟩

theorem u32_streaming : Streaming .truncated u32 :=
  (Streaming.array 4).bind fun _ => Streaming.pure _

theorem bool_streaming : Streaming .truncated Reader.bool :=
  Streaming.byte.bind fun _ =>
    (Streaming.pure _).ite ((Streaming.pure _).ite (Streaming.fail _))

/-! ## Variable-length numbers -/

/-- A varuint32: at most five LEB128 bytes, canonical or not, whose value fits
32 bits. -/
structure Varuint32Word (word : List UInt8) (value : Nat) : Prop where
  format : Leb128.Word word value
  short : word.length ≤ 5
  fits : value < 2 ^ 32

theorem varuint32_eq_ok {input rest : List UInt8} {value : Nat} :
    varuint32 input = .ok (value, rest) ↔
      ∃ word, input = word ++ rest ∧ Varuint32Word word value := by
  rw [varuint32, Leb128.decode_eq_ok (by decide)]
  constructor
  · rintro ⟨word, equal, format, short, fits⟩
    exact ⟨word, equal, format, short, fits⟩
  · rintro ⟨word, equal, format, short, fits⟩
    exact ⟨word, equal, format, short, fits⟩

theorem varuint32_streaming : Streaming .truncated varuint32 :=
  Leb128.decode_streaming 4 0 0

theorem putVaruint32_word {value : Nat} (small : value < 2 ^ 32) :
    Varuint32Word (putVaruint32 value) value where
  format := Leb128.encode_word (small.trans (by decide))
  short := Leb128.encode_length 4 value
  fits := small

/-! ## Positions -/

theorem positionCount_eq_ok {input rest : List UInt8} {count : Nat} :
    positionCount input = .ok (count, rest) ↔
      varuint32 input = .ok (count, rest) ∧ count ≤ maxPositions ∧
        count * posLen ≤ rest.length := by
  have fitsIff (left : Nat) : ¬left / posLen < count ↔ count * posLen ≤ left := by
    rw [Nat.not_lt, Nat.le_div_iff_mul_le (by decide)]
  simp only [positionCount, bind_eq_ok]
  constructor
  · rintro ⟨declared, middle, read, success⟩
    split at success
    · cases success
    · obtain ⟨left, same, leftEq, final⟩ := bind_eq_ok.mp success
      cases leftEq
      split at final
      · cases final
      · rename_i notMore notShort
        cases final
        exact ⟨read, Nat.not_lt.mp notMore, (fitsIff _).mp notShort⟩
  · rintro ⟨read, few, enough⟩
    refine ⟨count, rest, read, ?_⟩
    rw [if_neg (Nat.not_lt.mpr few)]
    refine bind_eq_ok.mpr ⟨rest.length, rest, rfl, ?_⟩
    rw [if_neg ((fitsIff _).mpr enough)]
    rfl

theorem readPositions_eq_ok {input rest : List UInt8} {positions : List BlockPos} :
    readPositions input = .ok (positions, rest) ↔
      ∃ word, input = word ++ positions.flatMap putPos ++ rest ∧
        Varuint32Word word positions.length ∧ positions.length ≤ maxPositions := by
  simp only [readPositions, bind_eq_ok, positionCount_eq_ok, varuint32_eq_ok,
    blockPos_decodes.replicate]
  constructor
  · rintro ⟨_, _, ⟨⟨word, rfl, isWord⟩, few, _⟩, rfl, rfl⟩
    exact ⟨word, by simp, isWord, few⟩
  · rintro ⟨word, rfl, isWord, few⟩
    refine ⟨positions.length, positions.flatMap putPos ++ rest,
      ⟨⟨word, by simp, isWord⟩, few, ?_⟩, rfl, rfl⟩
    simp only [List.length_append, flatMap_putPos_length]
    omega

/-- A count that the bytes left cannot hold is truncated. -/
theorem positionCount_short {word more : List UInt8} {count : Nat}
    (read : Reads varuint32 word count) (few : count ≤ maxPositions)
    (short : more.length < count * posLen) :
    positionCount (word ++ more) = .error .truncated := by
  have isShort : more.length / posLen < count := by
    rwa [Nat.div_lt_iff_lt_mul (by decide)]
  have left : remaining more = .ok (more.length, more) := rfl
  rw [positionCount, bind_of_ok (read more), if_neg (Nat.not_lt.mpr few), bind_of_ok left,
    if_pos isShort]
  rfl

/-- The check against the bytes left looks ahead, but only at bytes the
positions then take, so a list of positions cut short is truncated. -/
theorem readPositions_streaming : Streaming .truncated readPositions := by
  intro input positions rest success
  obtain ⟨word, rfl, isWord, few⟩ := readPositions_eq_ok.mp success
  refine ⟨word ++ positions.flatMap putPos, by simp, ?_, ?_⟩
  · intro tail
    exact readPositions_eq_ok.mpr ⟨word, rfl, isWord, few⟩
  · intro part isPart different
    have read : Reads varuint32 word positions.length :=
      fun tail => varuint32_eq_ok.mpr ⟨word, rfl, isWord⟩
    have short (more : List UInt8) (isMore : more <+: positions.flatMap putPos)
        (notAll : more ≠ positions.flatMap putPos) :
        readPositions (word ++ more) = .error .truncated := by
      refine bind_of_error (positionCount_short read few ?_)
      have shorter := isMore.length_le
      have unequal : more.length ≠ (positions.flatMap putPos).length :=
        fun equal => notAll (isMore.eq_of_length equal)
      rw [flatMap_putPos_length] at shorter unequal
      omega
    rcases List.prefix_or_prefix_of_prefix isPart (List.prefix_append word _) with
      inWord | ⟨more, rfl⟩
    · by_cases whole : part = word
      · subst whole
        simpa using short [] List.nil_prefix fun equal => different (by simp [← equal])
      · exact bind_of_error (bind_of_error (varuint32_streaming.cut read inWord whole))
    · refine short more ((List.prefix_append_right_inj word).mp isPart) ?_
      rintro rfl
      exact different rfl

/-! ## Blocks requests -/

/-- The bytes of a blocks request behind its index, with the length of
`have_positions` written as `countWord`. -/
def requestFields (countWord : List UInt8) (r : BlocksRequest) : List UInt8 :=
  putU32 r.start ++ putU32 r.end ++ putU32 r.maxInFlight
    ++ countWord ++ r.havePositions.flatMap putPos
    ++ putBool r.irreversibleOnly ++ putBool r.fetchBlock ++ putBool r.fetchTraces
    ++ putBool r.fetchDeltas ++ (if r.v1 then putBool r.fetchFinalityData else [])

/-- A request as it comes out of the decoder: a v0 message has no
`fetch_finality_data`. -/
def BlocksRequest.decoded (r : BlocksRequest) : BlocksRequest :=
  { r with fetchFinalityData := r.v1 && r.fetchFinalityData }

theorem decodeBlocksRequest_sound {v1 : Bool} {input rest : List UInt8} {r : BlocksRequest}
    (success : decodeBlocksRequest v1 input = .ok (r, rest)) :
    r.v1 = v1 ∧ r.decoded = r ∧ r.havePositions.length ≤ maxPositions ∧
      ∃ word, input = requestFields word r ++ rest ∧
        Varuint32Word word r.havePositions.length := by
  simp only [decodeBlocksRequest, bind_eq_ok, u32_decodes _ _ _, readPositions_eq_ok,
    bool_decodes _ _ _] at success
  obtain ⟨start, _, rfl, «end», _, rfl, window, _, rfl, positions, _,
    ⟨word, rfl, isWord, few⟩, irreversible, _, rfl, block, _, rfl, traces, _, rfl,
    deltas, _, rfl, finality, _, last, result⟩ := success
  cases result
  cases v1 with
  | false =>
      cases last
      exact ⟨rfl, rfl, few, word, by simp [requestFields], isWord⟩
  | true =>
      rw [if_pos rfl, bool_decodes] at last
      subst last
      exact ⟨rfl, rfl, few, word, by simp [requestFields], isWord⟩

theorem decodeBlocksRequest_reads {word : List UInt8} {r : BlocksRequest}
    (isWord : Varuint32Word word r.havePositions.length)
    (few : r.havePositions.length ≤ maxPositions) :
    Reads (decodeBlocksRequest r.v1) (requestFields word r) r.decoded := by
  intro tail
  simp only [decodeBlocksRequest, bind_eq_ok, u32_decodes _ _ _, readPositions_eq_ok,
    bool_decodes _ _ _]
  refine ⟨r.start, _, by simp only [requestFields, List.append_assoc]; rfl,
    r.end, _, rfl, r.maxInFlight, _, rfl, r.havePositions, _,
    ⟨word, by simp only [List.append_assoc]; rfl, isWord, few⟩,
    r.irreversibleOnly, _, rfl, r.fetchBlock, _, rfl, r.fetchTraces, _, rfl,
    r.fetchDeltas, _, rfl, r.v1 && r.fetchFinalityData, tail, ?_, rfl⟩
  cases r.v1 with
  | false => rfl
  | true => exact bool_decodes.reads _ tail

theorem decodeBlocksRequest_streaming (v1 : Bool) :
    Streaming .truncated (decodeBlocksRequest v1) :=
  u32_streaming.bind fun _ => u32_streaming.bind fun _ => u32_streaming.bind fun _ =>
    readPositions_streaming.bind fun _ => bool_streaming.bind fun _ =>
    bool_streaming.bind fun _ => bool_streaming.bind fun _ => bool_streaming.bind fun _ =>
    (bool_streaming.ite (Streaming.pure _)).bind fun _ => Streaming.pure _

/-! ## The grammar of client requests -/

/-- The words of the fc grammar and the messages they stand for. -/
inductive FcWord : ClientMsg → List UInt8 → Prop
  | status {index : List UInt8} {v1 : Bool} :
      Varuint32Word index (if v1 then reqStatusV1 else reqStatusV0) →
      FcWord (.status v1) index
  | ack {index : List UInt8} {n : Fin (2 ^ 32)} :
      Varuint32Word index reqAck → FcWord (.ack n) (index ++ putU32 n)
  | blocks {index count : List UInt8} {r : BlocksRequest} :
      Varuint32Word index (if r.v1 then reqBlocksV1 else reqBlocksV0) →
      Varuint32Word count r.havePositions.length →
      r.havePositions.length ≤ maxPositions → r.decoded = r →
      FcWord (.blocks r) (index ++ requestFields count r)

/-- The reader behind `decodeClient`. -/
def clientMsg : Read DecodeError ClientMsg := varuint32 >>= decodeBody

theorem decodeBody_streaming (index : Nat) : Streaming .truncated (decodeBody index) := by
  have blocks (v1 : Bool) :
      Streaming .truncated (ClientMsg.blocks <$> decodeBlocksRequest v1) :=
    (decodeBlocksRequest_streaming v1).bind fun _ => Streaming.pure _
  have ack : Streaming .truncated (ClientMsg.ack <$> u32) :=
    u32_streaming.bind fun _ => Streaming.pure _
  exact (Streaming.pure _).ite ((blocks false).ite (ack.ite ((blocks true).ite
    ((Streaming.pure _).ite (Streaming.fail _)))))

theorem clientMsg_streaming : Streaming .truncated clientMsg :=
  varuint32_streaming.bind decodeBody_streaming

theorem decodeBody_blocks (v1 : Bool) :
    decodeBody (if v1 then reqBlocksV1 else reqBlocksV0) =
      ClientMsg.blocks <$> decodeBlocksRequest v1 := by
  cases v1 <;> rfl

/-- The reader takes exactly a word of the grammar. -/
theorem clientMsg_eq_ok {input rest : List UInt8} {m : ClientMsg} :
    clientMsg input = .ok (m, rest) ↔ ∃ word, input = word ++ rest ∧ FcWord m word := by
  simp only [clientMsg, bind_eq_ok, varuint32_eq_ok]
  constructor
  · rintro ⟨index, middle, ⟨indexWord, rfl, isIndex⟩, body⟩
    simp only [decodeBody] at body
    split_ifs at body with isStatus0 isBlocks0 isAck isBlocks1 isStatus1
    · cases body
      exact ⟨indexWord, rfl, .status (isStatus0 ▸ isIndex)⟩
    · obtain ⟨r, _, read, result⟩ := bind_eq_ok.mp body
      cases result
      obtain ⟨isV0, decoded, few, word, rfl, isWord⟩ := decodeBlocksRequest_sound read
      exact ⟨indexWord ++ requestFields word r, by simp,
        .blocks (by simpa [isV0, isBlocks0] using isIndex) isWord few decoded⟩
    · obtain ⟨n, _, read, result⟩ := bind_eq_ok.mp body
      cases result
      rw [u32_decodes] at read
      subst read
      exact ⟨indexWord ++ putU32 n, by simp, .ack (isAck ▸ isIndex)⟩
    · obtain ⟨r, _, read, result⟩ := bind_eq_ok.mp body
      cases result
      obtain ⟨isV1, decoded, few, word, rfl, isWord⟩ := decodeBlocksRequest_sound read
      exact ⟨indexWord ++ requestFields word r, by simp,
        .blocks (by simpa [isV1, isBlocks1] using isIndex) isWord few decoded⟩
    · cases body
      exact ⟨indexWord, rfl, .status (isStatus1 ▸ isIndex)⟩
    · cases body
  · rintro ⟨word, rfl, isWord⟩
    cases isWord with
    | @status _ v1 isIndex =>
        refine ⟨_, rest, ⟨word, rfl, isIndex⟩, ?_⟩
        cases v1 <;> rfl
    | @ack index n isIndex =>
        refine ⟨reqAck, putU32 n ++ rest, ⟨index, by simp, isIndex⟩, ?_⟩
        exact bind_eq_ok.mpr ⟨n, rest, u32_decodes.reads n rest, rfl⟩
    | @blocks index count r isIndex isCount few decoded =>
        refine ⟨_, requestFields count r ++ rest, ⟨index, by simp, isIndex⟩, ?_⟩
        have read := decodeBlocksRequest_reads isCount few rest
        rw [decoded] at read
        rw [decodeBody_blocks, map_eq_bind, bind_of_ok read, pure_apply]

theorem FcWord.ne_nil {m : ClientMsg} {word : List UInt8} (isWord : FcWord m word) :
    word ≠ [] := by
  have nonempty {index : List UInt8} {value : Nat} (isIndex : Varuint32Word index value) :
      index ≠ [] := List.ne_nil_of_length_pos isIndex.format.length_pos
  cases isWord with
  | status isIndex => exact nonempty isIndex
  | ack isIndex => simp [nonempty isIndex]
  | blocks isIndex => simp [nonempty isIndex]

theorem decodeClient_of_ne_nil {b : List UInt8} (notEmpty : b ≠ []) :
    decodeClient b = run clientMsg b := by
  rw [decodeClient, if_neg (by simpa using notEmpty), clientMsg]

theorem decodeClient_eq_ok {b : List UInt8} {m : ClientMsg} :
    decodeClient b = .ok m ↔ ∃ word tail, b = word ++ tail ∧ FcWord m word := by
  constructor
  · intro success
    cases b with
    | nil => cases success
    | cons first others =>
        rw [decodeClient_of_ne_nil (by simp)] at success
        obtain ⟨tail, read⟩ := run_eq_ok.mp success
        obtain ⟨word, equal, isWord⟩ := clientMsg_eq_ok.mp read
        exact ⟨word, tail, equal, isWord⟩
  · rintro ⟨word, tail, rfl, isWord⟩
    rw [decodeClient_of_ne_nil (by simp [isWord.ne_nil])]
    exact run_of_ok (clientMsg_eq_ok.mpr ⟨word, rfl, isWord⟩)

/-- A word of the grammar cut short is truncated, or empty if nothing is left. -/
theorem decodeClient_cut {m : ClientMsg} {word part : List UInt8} (isWord : FcWord m word)
    (isPart : part <+: word) (different : part ≠ word) :
    decodeClient part = .error (if part = [] then .empty else .truncated) := by
  have reads : Reads clientMsg word m := fun tail => clientMsg_eq_ok.mpr ⟨word, rfl, isWord⟩
  have cut := clientMsg_streaming.cut reads isPart different
  cases part with
  | nil => rfl
  | cons first others =>
      rw [decodeClient_of_ne_nil (by simp), if_neg (by simp)]
      exact run_of_error cut

/-! ## Encoding and decoding -/

/-- The router's encoding of a client message. -/
def encodeClient : ClientMsg → List UInt8
  | .status v1 => encodeStatusRequest v1
  | .blocks r => encodeBlocksRequest r
  | .ack n => encodeAck n

/-- The message as the decoder returns it. -/
def ClientMsg.decoded : ClientMsg → ClientMsg
  | .blocks r => .blocks r.decoded
  | m => m

/-- A node accepts the request: `have_positions` is not too long. -/
def ClientMsg.accepted : ClientMsg → Prop
  | .blocks r => r.havePositions.length ≤ maxPositions
  | _ => True

instance : DecidablePred ClientMsg.accepted
  | .blocks r => inferInstanceAs (Decidable (r.havePositions.length ≤ maxPositions))
  | .status _ => inferInstanceAs (Decidable True)
  | .ack _ => inferInstanceAs (Decidable True)

@[simp] theorem BlocksRequest.decoded_decoded (r : BlocksRequest) :
    r.decoded.decoded = r.decoded := by
  cases version : r.v1 <;> simp [BlocksRequest.decoded, version]

theorem requestFields_decoded (word : List UInt8) (r : BlocksRequest) :
    requestFields word r.decoded = requestFields word r := by
  cases version : r.v1 <;> simp [requestFields, BlocksRequest.decoded, version]

theorem encodeClient_word {m : ClientMsg} (accepted : m.accepted) :
    FcWord m.decoded (encodeClient m) := by
  cases m with
  | status v1 => exact .status (putVaruint32_word (by cases v1 <;> decide))
  | ack n => exact .ack (putVaruint32_word (by decide))
  | blocks r =>
      have few : r.havePositions.length ≤ maxPositions := accepted
      have small : r.havePositions.length < 2 ^ 32 := few.trans_lt (by decide)
      have index : Varuint32Word (putVaruint32 (if r.v1 then reqBlocksV1 else reqBlocksV0))
          (if r.decoded.v1 then reqBlocksV1 else reqBlocksV0) :=
        putVaruint32_word (by cases version : r.v1 <;> decide)
      have word : FcWord (.blocks r.decoded)
          (_ ++ requestFields (putVaruint32 r.havePositions.length) r.decoded) :=
        .blocks index (putVaruint32_word small) few r.decoded_decoded
      rw [requestFields_decoded] at word
      change FcWord (.blocks r.decoded) _
      simpa only [requestFields, encodeBlocksRequest, encodeClient, List.append_assoc]
        using word

/-- The capacity `decode_client` reserves for positions and the bytes left at
that point, if it gets there. -/
def reservedPositions (b : List UInt8) : Option (Nat × Nat) :=
  let upToReservation : Read DecodeError (Option (Nat × Nat)) := do
    let index ← varuint32
    if index = reqBlocksV0 ∨ index = reqBlocksV1 then
      let _ ← u32
      let _ ← u32
      let _ ← u32
      let count ← positionCount
      let left ← remaining
      pure (some (count, left))
    else pure none
  match upToReservation b with
  | .ok (reserved, _) => reserved
  | .error _ => none

theorem reservedPositions_le {b : List UInt8} {count left : Nat}
    (reserved : reservedPositions b = some (count, left)) :
    count * posLen ≤ left ∧ left ≤ b.length := by
  simp only [reservedPositions] at reserved
  split at reserved
  · rename_i result rest success
    subst reserved
    obtain ⟨index, _, indexRead, branch⟩ := bind_eq_ok.mp success
    obtain ⟨word, rfl, -⟩ := varuint32_eq_ok.mp indexRead
    split_ifs at branch
    · simp only [bind_eq_ok, u32_decodes _ _ _, positionCount_eq_ok, varuint32_eq_ok]
        at branch
      obtain ⟨start, _, rfl, «end», _, rfl, window, _, rfl, counted, _,
        ⟨⟨countWord, rfl, -⟩, -, enough⟩, leftOver, _, leftRead, result⟩ := branch
      cases leftRead
      cases result
      refine ⟨enough, ?_⟩
      simp only [List.length_append]
      omega
    · cases branch
  · cases reserved

theorem FcWord.accepted {m : ClientMsg} {word : List UInt8} (isWord : FcWord m word) :
    m.accepted := by
  cases isWord with
  | status isIndex => trivial
  | ack isIndex => trivial
  | blocks isIndex isCount few decoded => exact few

theorem FcWord.decoded_eq {m : ClientMsg} {word : List UInt8} (isWord : FcWord m word) :
    m.decoded = m := by
  cases isWord with
  | status isIndex => rfl
  | ack isIndex => rfl
  | blocks isIndex isCount few decoded => exact congrArg ClientMsg.blocks decoded

/-- The request codec: what the router encodes is decoded again, whatever
follows it, and a strict initial part is rejected; the decoder accepts exactly
the words of the grammar, reserves no more positions than the bytes left can
hold, and a decoded message survives encoding and decoding. -/
theorem decodeClient_codec :
    (∀ (m : ClientMsg) (tail : List UInt8), m.accepted →
      decodeClient (encodeClient m ++ tail) = .ok m.decoded) ∧
    (∀ (m : ClientMsg) (part : List UInt8), m.accepted → part <+: encodeClient m →
      part ≠ encodeClient m →
      decodeClient part = .error (if part = [] then .empty else .truncated)) ∧
    (∀ (b : List UInt8) (m : ClientMsg),
      decodeClient b = .ok m ↔ ∃ word tail, b = word ++ tail ∧ FcWord m word) ∧
    (∀ (b : List UInt8) (count left : Nat), reservedPositions b = some (count, left) →
      count * posLen ≤ left ∧ left ≤ b.length) ∧
    (∀ (b : List UInt8) (m : ClientMsg), decodeClient b = .ok m →
      decodeClient (encodeClient m) = .ok m) := by
  refine ⟨?_, ?_, fun b m => decodeClient_eq_ok, fun b count left => reservedPositions_le, ?_⟩
  · intro m tail accepted
    exact decodeClient_eq_ok.mpr ⟨encodeClient m, tail, rfl, encodeClient_word accepted⟩
  · intro m part accepted isPart different
    exact decodeClient_cut (encodeClient_word accepted) isPart different
  · intro b m success
    obtain ⟨word, tail, -, isWord⟩ := decodeClient_eq_ok.mp success
    have again := encodeClient_word isWord.accepted
    rw [isWord.decoded_eq] at again
    exact decodeClient_eq_ok.mpr ⟨encodeClient m, [], by simp, again⟩

/-- A v0 request with one position and a stray `fetch_finality_data`. -/
def sampleRequest : BlocksRequest where
  v1 := false
  start := 300
  «end» := 400
  maxInFlight := 10
  havePositions := [⟨299, Vector.replicate 32 7⟩]
  irreversibleOnly := false
  fetchBlock := true
  fetchTraces := false
  fetchDeltas := true
  fetchFinalityData := true

theorem decodeClient_codec_sample :
    decodeClient (encodeClient (.blocks sampleRequest) ++ [9]) =
      .ok (ClientMsg.blocks sampleRequest).decoded ∧
    decodeClient [2, 5, 0] = .error .truncated ∧
    reservedPositions (encodeClient (.blocks sampleRequest)) = some (1, 40) ∧
    decodeClient [0x82, 0x00, 5, 0, 0, 0] = .ok (.ack 5) ∧
    decodeClient (encodeClient (.ack 5)) = .ok (.ack 5) :=
  ⟨decodeClient_codec.1 _ [9] (by decide),
    decodeClient_codec.2.1 (.ack 5) [2, 5, 0] trivial (by decide) (by decide),
    rfl, rfl,
    decodeClient_codec.2.2.2.2 [0x82, 0x00, 5, 0, 0, 0] _ rfl⟩

end FleetRouter.Ship
