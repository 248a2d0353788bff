import FleetRouter.Lib.Intervals
import FleetRouter.Lib.Leb128

/-!
# The SHiP wire codec

The message types of the state history protocol and the functions that decode
client requests, encode requests and status replies, classify upstream results
and rewrite their head, LIB and `prev_block` in place.

A Rust `Reader` is a buffer with a position.  Its reads never look behind the
position, so it is modelled by the bytes that are left; the position itself is
the length of the buffer less the length of that rest.
-/

namespace FleetRouter.Ship

open ByteReader Intervals

/-- Block numbers are `u32`. -/
instance neZeroU32 : NeZero (2 ^ 32) := inferInstance

/-- HTTP statuses and ports are `u16`. -/
instance neZeroU16 : NeZero (2 ^ 16) := inferInstance

/-- A 256-bit block or chain id. -/
abbrev Checksum : Type := Vector UInt8 32

/-- A block number and its id. -/
structure BlockPos where
  num : Fin (2 ^ 32)
  id : Checksum
  deriving DecidableEq, Repr

/-- A half-open block range, empty when `end ≤ begin`. -/
abbrev Range : Type := Intervals.Interval (Fin (2 ^ 32))

def Range.isEmpty (range : Range) : Bool := range.end ≤ range.begin

def Range.contains (range : Range) (n : Fin (2 ^ 32)) : Bool :=
  range.begin ≤ n && n < range.end

/-- A `get_blocks_request_v0` or, when `v1`, a `get_blocks_request_v1`. -/
structure BlocksRequest where
  v1 : Bool
  start : Fin (2 ^ 32)
  «end» : Fin (2 ^ 32)
  maxInFlight : Fin (2 ^ 32)
  havePositions : List BlockPos
  irreversibleOnly : Bool
  fetchBlock : Bool
  fetchTraces : Bool
  fetchDeltas : Bool
  fetchFinalityData : Bool
  deriving DecidableEq, Repr

/-- A decoded client request. -/
inductive ClientMsg where
  | status (v1 : Bool)
  | blocks (request : BlocksRequest)
  | ack (count : Fin (2 ^ 32))
  deriving DecidableEq, Repr

/-- Why a client request or the payload of a result could not be decoded. -/
inductive DecodeError where
  | empty
  | badVarint
  | truncated
  | badBool (byte : UInt8)
  | unknownVariant (index : Nat)
  | tooManyPositions (count : Nat)
  deriving DecidableEq, Repr

/-- The fixed part of a block result, through `prev_block`. -/
structure ResultHead where
  v1 : Bool
  head : BlockPos
  lib : BlockPos
  thisBlock : Option BlockPos
  prevBlock : Option BlockPos
  /-- Offset of the `block` presence byte. -/
  fieldsAt : Nat
  deriving DecidableEq, Repr

/-- What an upstream message is, as far as the router needs to know. -/
inductive UpstreamMsg where
  | status (v1 : Bool)
  | blocks (head : ResultHead)
  | other
  deriving DecidableEq, Repr

/-- The block a message names, if it is a block result with an id. -/
def UpstreamMsg.thisBlock : UpstreamMsg → Option BlockPos
  | .blocks head => head.thisBlock
  | _ => none

/-- Which optional payload fields a block result carries. -/
structure Presence where
  block : Bool
  traces : Bool
  deltas : Bool
  finality : Bool
  deriving DecidableEq, Repr

/-- The fields of a router-built status result. -/
structure StatusBody where
  head : BlockPos
  lib : BlockPos
  trace : Range
  chainState : Range
  finality : Range
  chainId : Checksum
  deriving DecidableEq, Repr

/-! ## Constants -/

def reqStatusV0 : Nat := 0
def reqBlocksV0 : Nat := 1
def reqAck : Nat := 2
def reqBlocksV1 : Nat := 3
def reqStatusV1 : Nat := 4

def resStatusV0 : UInt8 := 0
def resBlocksV0 : UInt8 := 1
def resBlocksV1 : UInt8 := 2
def resStatusV1 : UInt8 := 3

/-- An encoded block position. -/
def posLen : Nat := 36

/-- One past the LIB position of a result. -/
def headLibEnd : Nat := 1 + 2 * posLen

def statusV0Len : Nat := 121

/-- A status result without its `chain_id` binary extension. -/
def statusV0MinLen : Nat := statusV0Len - 32

def statusV1Len : Nat := 129

/-- The most entries a node accepts in `have_positions`. -/
def maxPositions : Nat := 1024 * 1024

/-! ## Little-endian words -/

def fromLeBytes (bytes : Vector UInt8 4) : Fin (2 ^ 32) :=
  ⟨bytes[0].toNat + 2 ^ 8 * bytes[1].toNat + 2 ^ 16 * bytes[2].toNat
      + 2 ^ 24 * bytes[3].toNat, by
    have := bytes[0].toNat_lt
    have := bytes[1].toNat_lt
    have := bytes[2].toNat_lt
    have := bytes[3].toNat_lt
    omega⟩

def toLeBytes (value : Fin (2 ^ 32)) : Vector UInt8 4 :=
  #v[value.val.toUInt8, (value.val / 2 ^ 8).toUInt8, (value.val / 2 ^ 16).toUInt8,
    (value.val / 2 ^ 24).toUInt8]

@[simp] theorem fromLeBytes_toLeBytes (value : Fin (2 ^ 32)) :
    fromLeBytes (toLeBytes value) = value := by
  apply Fin.ext
  simp [fromLeBytes, toLeBytes]
  omega

@[simp] theorem toLeBytes_fromLeBytes (bytes : Vector UInt8 4) :
    toLeBytes (fromLeBytes bytes) = bytes := by
  have low := bytes[0].toNat_lt
  have second := bytes[1].toNat_lt
  have third := bytes[2].toNat_lt
  have high := bytes[3].toNat_lt
  apply Vector.ext
  intro i bound
  apply UInt8.toNat_inj.mp
  match i with
  | 0 | 1 | 2 | 3 =>
      simp only [toLeBytes, fromLeBytes, Vector.getElem_mk, List.getElem_toArray,
        List.getElem_cons_zero, List.getElem_cons_succ, Nat.toUInt8_eq, UInt8.toNat_ofNat']
      omega

/-! ## Writers -/

def putU32 (value : Fin (2 ^ 32)) : List UInt8 := (toLeBytes value).toList

def putPos (p : BlockPos) : List UInt8 := putU32 p.num ++ p.id.toList

def putBool (value : Bool) : List UInt8 := [if value then 1 else 0]

/-- Canonical LEB128: four full groups and a last byte hold a `u32`. -/
def putVaruint32 (value : Nat) : List UInt8 := Leb128.encode 4 value

def encodeBlocksRequest (r : BlocksRequest) : List UInt8 :=
  putVaruint32 (if r.v1 then reqBlocksV1 else reqBlocksV0)
    ++ putU32 r.start ++ putU32 r.end ++ putU32 r.maxInFlight
    ++ putVaruint32 r.havePositions.length ++ r.havePositions.flatMap putPos
    ++ putBool r.irreversibleOnly ++ putBool r.fetchBlock ++ putBool r.fetchTraces
    ++ putBool r.fetchDeltas ++ (if r.v1 then putBool r.fetchFinalityData else [])

def encodeAck (n : Fin (2 ^ 32)) : List UInt8 := putVaruint32 reqAck ++ putU32 n

def encodeStatusRequest (v1 : Bool) : List UInt8 :=
  putVaruint32 (if v1 then reqStatusV1 else reqStatusV0)

def encodeStatus (v1 : Bool) (s : StatusBody) : List UInt8 :=
  [if v1 then resStatusV1 else resStatusV0] ++ putPos s.head ++ putPos s.lib
    ++ putU32 s.trace.begin ++ putU32 s.trace.end
    ++ putU32 s.chainState.begin ++ putU32 s.chainState.end ++ s.chainId.toList
    ++ (if v1 then putU32 s.finality.begin ++ putU32 s.finality.end else [])

/-! ## The reader -/

namespace Reader

def u8 : Read DecodeError UInt8 := byte .truncated

def u32 : Read DecodeError (Fin (2 ^ 32)) := do
  let bytes ← array .truncated 4
  pure (fromLeBytes bytes)

/-- An fc bool, also the presence byte of an optional. -/
def bool : Read DecodeError Bool := do
  let flag ← u8
  if flag = 0 then pure false
  else if flag = 1 then pure true
  else fail (.badBool flag)

def blockPos : Read DecodeError BlockPos := do
  let num ← u32
  let id ← array .truncated 32
  pure { num, id }

def optionalPos : Read DecodeError (Option BlockPos) := do
  if ← bool then
    let p ← blockPos
    pure (some p)
  else pure none

/-- LEB128 in at most five bytes, the fifth at most `0x0f`. -/
def varuint32 : Read DecodeError Nat := Leb128.decode .truncated .badVarint 0x0f 4 0 0

/-- LEB128 in at most ten bytes, the tenth at most `0x01`. -/
def varuint64 : Read DecodeError Nat := Leb128.decode .truncated .badVarint 0x01 9 0 0

/-- How many bytes are left. -/
def remaining : Read DecodeError Nat := fun input => .ok (input.length, input)

/-- The position in the message `buf`. -/
def pos (buf : List UInt8) : Read DecodeError Nat :=
  fun input => .ok (buf.length - input.length, input)

/-- A presence byte, then a length read by `length` and that many bytes, which
are skipped. -/
def optionalBytes (length : Read DecodeError Nat) : Read DecodeError Bool := do
  if ← bool then
    let count ← length
    let _ ← take .truncated count
    pure true
  else pure false

end Reader

/-! ## Client requests -/

open Reader

/-- The declared length of `have_positions`, checked against the bound a node
accepts and against the bytes left before anything is allocated. -/
def positionCount : Read DecodeError Nat := do
  let count ← varuint32
  if maxPositions < count then fail (.tooManyPositions count)
  else
    let left ← remaining
    if left / posLen < count then fail .truncated else pure count

def readPositions : Read DecodeError (List BlockPos) := do
  let count ← positionCount
  replicate blockPos count

/-- The body of a blocks request, after its variant index. -/
def decodeBlocksRequest (v1 : Bool) : Read DecodeError BlocksRequest := do
  let start ← u32
  let «end» ← u32
  let maxInFlight ← u32
  let havePositions ← readPositions
  let irreversibleOnly ← bool
  let fetchBlock ← bool
  let fetchTraces ← bool
  let fetchDeltas ← bool
  let fetchFinalityData ← (if v1 then bool else pure false)
  pure { v1, start, «end», maxInFlight, havePositions, irreversibleOnly, fetchBlock,
         fetchTraces, fetchDeltas, fetchFinalityData }

/-- What follows the variant index of a client request. -/
def decodeBody (index : Nat) : Read DecodeError ClientMsg :=
  if index = reqStatusV0 then pure (.status false)
  else if index = reqBlocksV0 then .blocks <$> decodeBlocksRequest false
  else if index = reqAck then .ack <$> u32
  else if index = reqBlocksV1 then .blocks <$> decodeBlocksRequest true
  else if index = reqStatusV1 then pure (.status true)
  else fail (.unknownVariant index)

/-- Decode a client request with fc semantics.  Bytes after the last field are
ignored. -/
def decodeClient (b : List UInt8) : Except DecodeError ClientMsg :=
  if b.isEmpty then .error .empty
  else run (varuint32 >>= decodeBody) b

/-! ## Upstream results -/

def decodeResultHead (b : List UInt8) : Except DecodeError ResultHead :=
  run (do
    let index ← u8
    let head ← blockPos
    let lib ← blockPos
    let thisBlock ← optionalPos
    let prevBlock ← optionalPos
    let fieldsAt ← pos b
    pure { v1 := index = resBlocksV1, head, lib, thisBlock, prevBlock, fieldsAt }) b

/-- Classify an upstream message by its result index, which a node always
writes in one byte. -/
def classifyUpstream (b : List UInt8) : UpstreamMsg :=
  match b.head? with
  | none => .other
  | some index =>
      if index = resStatusV0 ∧ statusV0MinLen ≤ b.length then .status false
      else if index = resStatusV1 ∧ statusV1Len ≤ b.length then .status true
      else if index = resBlocksV0 ∨ index = resBlocksV1 then
        match decodeResultHead b with
        | .ok head => .blocks head
        | .error _ => .other
      else .other

/-- The optional payload fields behind the head of a block result. -/
def payloadFields (v1 : Bool) : Read DecodeError Presence := do
  let block ← optionalBytes varuint32
  let traces ← optionalBytes varuint64
  let deltas ← optionalBytes varuint64
  let finality ← (if v1 then optionalBytes varuint64 else pure false)
  pure { block, traces, deltas, finality }

def resultPresence (b : List UInt8) (h : ResultHead) : Except DecodeError Presence :=
  run (payloadFields h.v1) (b.drop h.fieldsAt)

def headLib : Read DecodeError (BlockPos × BlockPos) := do
  let head ← blockPos
  let lib ← blockPos
  pure (head, lib)

/-- Head and LIB of a block or status result. -/
def readHeadLib (frame : List UInt8) : Option (BlockPos × BlockPos) :=
  if frame.length < headLibEnd then none
  else (run headLib ((frame.take headLibEnd).drop 1)).toOption

/-- Overwrite head at `[1, 37)` and LIB at `[37, 73)`. -/
def patchHeadLib (frame : List UInt8) (head lib : BlockPos) : List UInt8 :=
  if frame.length < headLibEnd then frame
  else frame.take 1 ++ putPos head ++ putPos lib ++ frame.drop headLibEnd

/-- The block result with its absent `prev_block` set to `prev`, and the head of
the new message. -/
def insertPrevBlock (frame : List UInt8) (h : ResultHead) (prev : BlockPos) :
    Option (List UInt8 × ResultHead) :=
  if h.thisBlock.isNone || h.prevBlock.isSome then none
  else
    match h.fieldsAt with
    | 0 => none
    | flag + 1 =>
        if frame[flag]? = some 0 then
          some (frame.take flag ++ [1] ++ putPos prev ++ frame.drop h.fieldsAt,
            { h with prevBlock := some prev, fieldsAt := h.fieldsAt + posLen })
        else none

end FleetRouter.Ship
