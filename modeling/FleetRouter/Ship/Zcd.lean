import Mathlib.Data.List.Nodup
import FleetRouter.Ship.Result

/-!
# The monitor's status decoder

The monitor reads status results with a decoder of its own: a loop over a table
of fields, each with a type and a width, that cuts the message into slices.  Only
the last field of a table may be left out, as a binary extension.  A table of
fixed widths accepts exactly the messages that hold all its fields, and each
field is then the little-endian read at its offset.
-/

namespace FleetRouter.Ship

inductive ZcdType where
  | bool
  | u8
  | u32
  | u64
  | u128
  | checksum256
  | string
  | bytes
  | array
  deriving DecidableEq, Repr

/-- The fields the tables name. -/
inductive FieldName where
  | variant
  | data
  | headBlockNum
  | headBlockId
  | lastIrreversibleBlockNum
  | lastIrreversibleBlockId
  | traceBeginBlock
  | traceEndBlock
  | chainStateBeginBlock
  | chainStateEndBlock
  | chainId
  | finalityDataBeginBlock
  | finalityDataEndBlock
  deriving DecidableEq, Repr

/-- What an error is about: a field of a table, or the type a value was read
as. -/
inductive ErrorLabel where
  | field (name : FieldName)
  | type (type : ZcdType)
  deriving DecidableEq, Repr

inductive ZcdError where
  /-- The input ended on a field boundary before the field. -/
  | truncated (field : ErrorLabel) (expected remaining : Nat)
  /-- The field was there, but not with the width of its type. -/
  | malformed (field : ErrorLabel) (expected actual : Nat)
  | missingField
  deriving DecidableEq, Repr

/-- A decoded value.  Text is left as its bytes. -/
inductive ZcdValue where
  | bool (value : Bool)
  | u8 (value : UInt8)
  | u32 (value : Fin (2 ^ 32))
  | u64 (value : Nat)
  | u128 (value : Nat)
  | checksum256 (value : Checksum)
  | string (text : List UInt8)
  | bytes (bytes : List UInt8)
  | array (bytes : List UInt8)
  deriving DecidableEq

def typeWidth : ZcdType → Option Nat
  | .bool | .u8 => some 1
  | .u32 => some 4
  | .u64 => some 8
  | .u128 => some 16
  | .checksum256 => some 32
  | .string | .bytes | .array => none

/-- Read exactly `count` bytes, or report a malformed field. -/
def readExact (count : Nat) (slice : List UInt8) (type : ZcdType) :
    Except ZcdError (Vector UInt8 count) :=
  if length : slice.length = count then .ok ⟨slice.toArray, length⟩
  else .error (.malformed (.type type) count slice.length)

/-- A little-endian number of any width. -/
def fromLe (bytes : List UInt8) : Nat :=
  bytes.foldr (fun byte rest => byte.toNat + 2 ^ 8 * rest) 0

structure ZcdField where
  slice : List UInt8
  type : ZcdType
  size : Nat
  deriving DecidableEq

namespace ZcdField

def asBool (f : ZcdField) : Except ZcdError Bool := do
  let bytes ← readExact 1 f.slice .bool
  pure (bytes[0] ≠ 0)

def asU8 (f : ZcdField) : Except ZcdError UInt8 := do
  let bytes ← readExact 1 f.slice .u8
  pure bytes[0]

def asU32 (f : ZcdField) : Except ZcdError (Fin (2 ^ 32)) := do
  let bytes ← readExact 4 f.slice .u32
  pure (fromLeBytes bytes)

def asU64 (f : ZcdField) : Except ZcdError Nat := do
  let bytes ← readExact 8 f.slice .u64
  pure (fromLe bytes.toList)

def asU128 (f : ZcdField) : Except ZcdError Nat := do
  let bytes ← readExact 16 f.slice .u128
  pure (fromLe bytes.toList)

def asChecksum256 (f : ZcdField) : Except ZcdError Checksum := readExact 32 f.slice .checksum256

/-- The value of a field, by its type. -/
def value (f : ZcdField) : Except ZcdError ZcdValue :=
  match f.type with
  | .bool => .bool <$> f.asBool
  | .u8 => .u8 <$> f.asU8
  | .u32 => .u32 <$> f.asU32
  | .u64 => .u64 <$> f.asU64
  | .u128 => .u128 <$> f.asU128
  | .checksum256 => .checksum256 <$> f.asChecksum256
  | .string => .ok (.string f.slice)
  | .bytes => .ok (.bytes f.slice)
  | .array => .ok (.array f.slice)

end ZcdField

/-- The fields found in a message, the one inserted last first. -/
abbrev FieldMap := List (FieldName × ZcdField)

structure Zcd where
  fields : FieldMap
  deriving DecidableEq

/-- The value of a field, if the message has it. -/
def Zcd.get (z : Zcd) (name : FieldName) : Except ZcdError (Option ZcdValue) :=
  match z.fields.lookup name with
  | none => .ok none
  | some f => some <$> f.value

/-- A line of a table. -/
structure FieldSpec where
  type : ZcdType
  name : FieldName
  size : Nat
  deriving DecidableEq, Repr

def resultV0Fields : List FieldSpec := [⟨.u8, .variant, 1⟩, ⟨.bytes, .data, 0⟩]

def statusResultV0Fields : List FieldSpec :=
  [⟨.u32, .headBlockNum, 4⟩, ⟨.checksum256, .headBlockId, 32⟩,
    ⟨.u32, .lastIrreversibleBlockNum, 4⟩, ⟨.checksum256, .lastIrreversibleBlockId, 32⟩,
    ⟨.u32, .traceBeginBlock, 4⟩, ⟨.u32, .traceEndBlock, 4⟩,
    ⟨.u32, .chainStateBeginBlock, 4⟩, ⟨.u32, .chainStateEndBlock, 4⟩,
    ⟨.checksum256, .chainId, 32⟩]

def statusResultV1Fields : List FieldSpec :=
  [⟨.u32, .headBlockNum, 4⟩, ⟨.checksum256, .headBlockId, 32⟩,
    ⟨.u32, .lastIrreversibleBlockNum, 4⟩, ⟨.checksum256, .lastIrreversibleBlockId, 32⟩,
    ⟨.u32, .traceBeginBlock, 4⟩, ⟨.u32, .traceEndBlock, 4⟩,
    ⟨.u32, .chainStateBeginBlock, 4⟩, ⟨.u32, .chainStateEndBlock, 4⟩,
    ⟨.checksum256, .chainId, 32⟩,
    ⟨.u32, .finalityDataBeginBlock, 4⟩, ⟨.u32, .finalityDataEndBlock, 4⟩]

/-- The bytes `[offset, offset + size)`. -/
def sliceAt (buffer : List UInt8) (offset size : Nat) : List UInt8 :=
  (buffer.drop offset).take size

/-- The field a table line cuts out at an offset. -/
def fieldAt (buffer : List UInt8) (offset : Nat) (spec : FieldSpec) : ZcdField where
  slice := sliceAt buffer offset spec.size
  type := spec.type
  size := spec.size

/-! ## Results -/

/-- The fields of a message, up to the first one that does not fit.  An array is
a count byte and that many elements; a field without a width takes the rest of
the message, as the last of its table.  A span above `usize` does not fit
either. -/
def zcdBuilder (buffer : List UInt8) : Nat → FieldMap → List FieldSpec → FieldMap
  | _, map, [] => map
  | offset, map, spec :: rest =>
      if spec.type = .array then
        match buffer[offset]? with
        | none => map
        | some elements =>
            let fullSize := spec.size * elements.toNat + 1
            if offset + fullSize ≤ buffer.length then
              zcdBuilder buffer (offset + fullSize)
                ((spec.name, ⟨sliceAt buffer offset fullSize, spec.type, fullSize⟩) :: map) rest
            else map
      else if spec.size = 0 then
        if rest.isEmpty then
          if offset ≤ buffer.length then
            (spec.name, ⟨buffer.drop offset, spec.type, buffer.length - offset⟩) :: map
          else map
        else zcdBuilder buffer offset map rest
      else if buffer.length < offset + spec.size then map
      else
        zcdBuilder buffer (offset + spec.size) ((spec.name, fieldAt buffer offset spec) :: map) rest

def deserializeResult (buffer : List UInt8) : Zcd :=
  ⟨zcdBuilder buffer 0 [] resultV0Fields⟩

/-! ## Fixed-width tables -/

/-- The walk over a table of fixed widths.  The field named by
`optionalExtension` may be left out if it is the last one. -/
def fixedFields (buffer : List UInt8) (optionalExtension : Option FieldName) :
    Nat → FieldMap → List FieldSpec → Except ZcdError FieldMap
  | _, map, [] => .ok map
  | offset, map, spec :: rest =>
      match typeWidth spec.type with
      | none => .error (.malformed (.field spec.name) spec.size 0)
      | some width =>
          if width ≠ spec.size then .error (.malformed (.field spec.name) width spec.size)
          else
            let remaining := buffer.length - offset
            if remaining = 0 ∧ optionalExtension = some spec.name ∧ rest.isEmpty then .ok map
            else if remaining < spec.size then
              .error (if remaining = 0 then .truncated (.field spec.name) spec.size remaining
                else .malformed (.field spec.name) spec.size remaining)
            else
              fixedFields buffer optionalExtension (offset + spec.size)
                ((spec.name, fieldAt buffer offset spec) :: map) rest

def decodeFixedFields (buffer : List UInt8) (fields : List FieldSpec)
    (optionalExtension : Option FieldName) : Except ZcdError Zcd :=
  Zcd.mk <$> fixedFields buffer optionalExtension 0 [] fields

/-- A v0 status body, without the index of the result. -/
def deserializeStatusResult (buffer : List UInt8) : Except ZcdError Zcd :=
  decodeFixedFields buffer statusResultV0Fields (some .chainId)

/-- A v1 status body, without the index of the result. -/
def deserializeStatusResultV1 (buffer : List UInt8) : Except ZcdError Zcd :=
  decodeFixedFields buffer statusResultV1Fields none

/-! ## What a table reads -/

/-- The bytes a table takes. -/
def tableWidth (fields : List FieldSpec) : Nat := (fields.map FieldSpec.size).sum

/-- Each line with its offset. -/
def tableOffsets : Nat → List FieldSpec → List (Nat × FieldSpec)
  | _, [] => []
  | offset, spec :: rest => (offset, spec) :: tableOffsets (offset + spec.size) rest

theorem mem_of_mem_tableOffsets {offset : Nat} {fields : List FieldSpec} {line : Nat × FieldSpec}
    (member : line ∈ tableOffsets offset fields) : line.2 ∈ fields := by
  induction fields generalizing offset with
  | nil => simp [tableOffsets] at member
  | cons spec rest ih =>
      rcases List.mem_cons.mp member with rfl | later
      · simp
      · exact List.mem_cons_of_mem _ (ih later)

theorem tableOffsets_le {offset : Nat} {fields : List FieldSpec} {line : Nat × FieldSpec}
    (member : line ∈ tableOffsets offset fields) :
    line.1 + line.2.size ≤ offset + tableWidth fields := by
  induction fields generalizing offset with
  | nil => simp [tableOffsets] at member
  | cons spec rest ih =>
      have total : tableWidth (spec :: rest) = spec.size + tableWidth rest := by simp [tableWidth]
      rcases List.mem_cons.mp member with rfl | later
      · simp only
        omega
      · have := ih later
        omega

/-- The line has the width of its type. -/
def FieldSpec.Fixed (spec : FieldSpec) : Prop := typeWidth spec.type = some spec.size

instance (spec : FieldSpec) : Decidable spec.Fixed :=
  inferInstanceAs (Decidable (typeWidth spec.type = some spec.size))

theorem FieldSpec.Fixed.pos {spec : FieldSpec} (fixed : spec.Fixed) : 0 < spec.size := by
  unfold FieldSpec.Fixed at fixed
  cases type : spec.type <;> simp [type, typeWidth] at fixed <;> omega

/-- One line of a fixed table. -/
theorem fixedFields_cons {buffer : List UInt8} {optional : Option FieldName} {offset : Nat}
    {map : FieldMap} {spec : FieldSpec} {rest : List FieldSpec} (fixed : spec.Fixed) :
    fixedFields buffer optional offset map (spec :: rest) =
      if buffer.length - offset = 0 ∧ optional = some spec.name ∧ rest.isEmpty then .ok map
      else if buffer.length - offset < spec.size then
        .error (if buffer.length - offset = 0
          then .truncated (.field spec.name) spec.size (buffer.length - offset)
          else .malformed (.field spec.name) spec.size (buffer.length - offset))
      else
        fixedFields buffer optional (offset + spec.size)
          ((spec.name, fieldAt buffer offset spec) :: map) rest := by
  have fixed : typeWidth spec.type = some spec.size := fixed
  simp only [fixedFields, fixed, ne_eq, not_true_eq_false, if_false]

/-- A fixed table accepts the messages that hold all its fields, and those that
end before its optional last one. -/
theorem exists_fixedFields {buffer : List UInt8} (optional : Option FieldName) {offset : Nat}
    (map : FieldMap) {fields : List FieldSpec} (fixed : ∀ spec ∈ fields, spec.Fixed)
    (inside : offset ≤ buffer.length) :
    (∃ found, fixedFields buffer optional offset map fields = .ok found) ↔
      offset + tableWidth fields ≤ buffer.length ∨
        (∃ last ∈ fields.getLast?, optional = some last.name) ∧
          buffer.length = offset + tableWidth fields.dropLast := by
  induction fields generalizing offset map with
  | nil => simp [fixedFields, tableWidth, inside]
  | cons spec rest ih =>
      have isFixed := fixed spec (by simp)
      have pos := isFixed.pos
      have total : tableWidth (spec :: rest) = spec.size + tableWidth rest := by simp [tableWidth]
      rw [fixedFields_cons isFixed, total]
      split_ifs with extension short
      · obtain ⟨none, named, isLast⟩ := extension
        rw [List.isEmpty_iff] at isLast
        subst isLast
        simp only [Except.ok.injEq, exists_eq', true_iff]
        exact .inr ⟨⟨spec, rfl, named⟩, by simp [tableWidth]; omega⟩
      · simp only [exists_false, false_iff]
        rintro (fits | ⟨⟨last, isLast, named⟩, ends⟩)
        · omega
        · cases rest with
          | nil =>
              cases isLast
              simp only [List.dropLast_singleton, tableWidth, List.map_nil, List.sum_nil] at ends
              exact extension ⟨by omega, named, rfl⟩
          | cons next rest =>
              simp only [List.dropLast_cons_cons, tableWidth, List.map_cons, List.sum_cons] at ends
              omega
      · rw [ih _ (fun other member => fixed other (by simp [member])) (by omega)]
        cases rest with
        | nil =>
            simp only [tableWidth, List.map_nil, List.sum_nil, List.getLast?_nil, Option.mem_def,
              reduceCtorEq, false_and, exists_false, or_false]
            constructor
            · intro fits
              exact .inl (by omega)
            · intro _
              omega
        | cons next rest =>
            have dropped : tableWidth ((spec :: next :: rest).dropLast) =
                spec.size + tableWidth (next :: rest).dropLast := by
              simp [tableWidth]
            rw [dropped, List.getLast?_cons_cons, Nat.add_assoc, Nat.add_assoc]

theorem lookup_cons_ne {name other : FieldName} (differs : name ≠ other) {f : ZcdField}
    {map : FieldMap} : List.lookup name ((other, f) :: map) = List.lookup name map := by
  simp [List.lookup_cons, beq_eq_false_iff_ne.mpr differs]

/-- A fixed table finds each field that fits, at its offset, and nothing else. -/
theorem lookup_fixedFields {buffer : List UInt8} {optional : Option FieldName} {offset : Nat}
    {map found : FieldMap} {fields : List FieldSpec} (fixed : ∀ spec ∈ fields, spec.Fixed)
    (distinct : (fields.map FieldSpec.name).Nodup)
    (decoded : fixedFields buffer optional offset map fields = .ok found) :
    (∀ line ∈ tableOffsets offset fields, found.lookup line.2.name =
      if line.1 + line.2.size ≤ buffer.length then some (fieldAt buffer line.1 line.2)
      else map.lookup line.2.name) ∧
    ∀ name ∉ fields.map FieldSpec.name, found.lookup name = map.lookup name := by
  induction fields generalizing offset map with
  | nil =>
      cases decoded
      exact ⟨by simp [tableOffsets], fun _ _ => rfl⟩
  | cons spec rest ih =>
      have isFixed := fixed spec (by simp)
      have pos := isFixed.pos
      rw [fixedFields_cons isFixed] at decoded
      split_ifs at decoded with extension short
      · obtain ⟨none, -, isLast⟩ := extension
        rw [List.isEmpty_iff] at isLast
        cases decoded
        subst isLast
        refine ⟨?_, fun _ _ => rfl⟩
        simp only [tableOffsets, List.mem_singleton, forall_eq]
        rw [if_neg (by omega)]
      · rw [List.map_cons, List.nodup_cons] at distinct
        obtain ⟨inRest, others⟩ :=
          ih (fun other member => fixed other (by simp [member])) distinct.2 decoded
        constructor
        · intro line member
          rcases List.mem_cons.mp member with rfl | later
          · rw [others spec.name distinct.1, if_pos (by simp only; omega)]
            simp
          · have differs : line.2.name ≠ spec.name := by
              intro same
              refine distinct.1 (same ▸ ?_)
              exact List.mem_map_of_mem (mem_of_mem_tableOffsets later)
            rw [inRest line later, lookup_cons_ne differs]
        · intro name absent
          simp only [List.map_cons, List.mem_cons, not_or] at absent
          rw [others name absent.2, lookup_cons_ne absent.1]

/-! ## Reads at fixed offsets -/

/-- The `count` bytes at an offset. -/
def bytesAt (buffer : List UInt8) (offset count : Nat) : Vector UInt8 count :=
  Vector.ofFn fun i => buffer.getD (offset + i) 0

/-- The little-endian value of a fixed-width type at an offset. -/
def valueAt (buffer : List UInt8) (offset : Nat) : ZcdType → Option ZcdValue
  | .bool => some (.bool ((bytesAt buffer offset 1)[0] ≠ 0))
  | .u8 => some (.u8 (bytesAt buffer offset 1)[0])
  | .u32 => some (.u32 (fromLeBytes (bytesAt buffer offset 4)))
  | .u64 => some (.u64 (fromLe (bytesAt buffer offset 8).toList))
  | .u128 => some (.u128 (fromLe (bytesAt buffer offset 16).toList))
  | .checksum256 => some (.checksum256 (bytesAt buffer offset 32))
  | .string | .bytes | .array => none

theorem readExact_toList {count : Nat} (bytes : Vector UInt8 count) (type : ZcdType) :
    readExact count bytes.toList type = .ok bytes := by
  simp [readExact, Vector.toList]

theorem readExact_sliceAt {buffer : List UInt8} {offset count : Nat} (type : ZcdType)
    (fits : offset + count ≤ buffer.length) :
    readExact count (sliceAt buffer offset count) type = .ok (bytesAt buffer offset count) := by
  have same : sliceAt buffer offset count = (bytesAt buffer offset count).toList := by
    apply List.ext_getElem
    · simp [sliceAt]
      omega
    · intro i inSlice inBytes
      have bound : offset + i < buffer.length := by
        simp only [sliceAt, List.length_take, List.length_drop] at inSlice
        omega
      simp [sliceAt, bytesAt, List.getElem?_eq_getElem bound]
  rw [same, readExact_toList]

theorem value_fieldAt {buffer : List UInt8} {offset : Nat} {spec : FieldSpec}
    (fixed : spec.Fixed) (fits : offset + spec.size ≤ buffer.length) :
    some <$> (fieldAt buffer offset spec).value = .ok (valueAt buffer offset spec.type) := by
  have fixed : typeWidth spec.type = some spec.size := fixed
  cases type : spec.type with
  | bool | u8 | u32 | u64 | u128 | checksum256 =>
      simp only [type, typeWidth, Option.some.injEq] at fixed
      rw [← fixed] at fits
      simp only [ZcdField.value, fieldAt, type, ← fixed, ZcdField.asBool, ZcdField.asU8,
        ZcdField.asU32, ZcdField.asU64, ZcdField.asU128, ZcdField.asChecksum256,
        readExact_sliceAt _ fits]
      rfl
  | string | bytes | array => simp [type, typeWidth] at fixed

/-- What a fixed table reads: each field that fits is the value at its offset. -/
theorem get_decodeFixedFields {buffer : List UInt8} {optional : Option FieldName}
    {fields : List FieldSpec} (fixed : ∀ spec ∈ fields, spec.Fixed)
    (distinct : (fields.map FieldSpec.name).Nodup) {z : Zcd}
    (decoded : decodeFixedFields buffer fields optional = .ok z) {line : Nat × FieldSpec}
    (member : line ∈ tableOffsets 0 fields) :
    z.get line.2.name = .ok (if line.1 + line.2.size ≤ buffer.length
      then valueAt buffer line.1 line.2.type else none) := by
  simp only [decodeFixedFields] at decoded
  cases walked : fixedFields buffer optional 0 [] fields with
  | error error => simp [walked, Functor.map, Except.map] at decoded
  | ok found =>
      rw [walked] at decoded
      cases decoded
      have lookup := (lookup_fixedFields fixed distinct walked).1 line member
      simp only [Zcd.get, lookup]
      split_ifs with fits
      · exact value_fieldAt (fixed line.2 (mem_of_mem_tableOffsets member)) fits
      · simp

theorem exists_decodeFixedFields {buffer : List UInt8} {optional : Option FieldName}
    {fields : List FieldSpec} (fixed : ∀ spec ∈ fields, spec.Fixed) :
    (∃ z, decodeFixedFields buffer fields optional = .ok z) ↔
      tableWidth fields ≤ buffer.length ∨
        (∃ last ∈ fields.getLast?, optional = some last.name) ∧
          buffer.length = tableWidth fields.dropLast := by
  have walked := exists_fixedFields optional [] fixed (Nat.zero_le buffer.length)
  rw [Nat.zero_add, Nat.zero_add] at walked
  rw [← walked, decodeFixedFields]
  cases fixedFields buffer optional 0 [] fields <;> simp [Functor.map, Except.map]

/-! ## What the monitor reads -/

def requireU32 (result : Zcd) (field : FieldName) : Except ZcdError (Fin (2 ^ 32)) := do
  match ← result.get field with
  | some (.u32 value) => pure value
  | _ => throw (.truncated (.field field) 4 0)

def requireId (result : Zcd) (field : FieldName) : Except ZcdError Checksum := do
  match ← result.get field with
  | some (.checksum256 value) => pure value
  | _ => throw (.truncated (.field field) 32 0)

/-- What the monitor takes from a status result: v0 has no finality range. -/
structure StatusReport where
  head : BlockPos
  lib : BlockPos
  trace : Range
  chainState : Range
  finality : Option Range
  chainId : Option Checksum
  deriving DecidableEq, Repr

/-- The fields of a decoded status result with the head number `num`. -/
def statusReport (result : Zcd) (v1 : Bool) (num : Fin (2 ^ 32)) :
    Except ZcdError StatusReport := do
  let headId ← requireId result .headBlockId
  let libNum ← requireU32 result .lastIrreversibleBlockNum
  let libId ← requireId result .lastIrreversibleBlockId
  let traceBegin ← requireU32 result .traceBeginBlock
  let traceEnd ← requireU32 result .traceEndBlock
  let chainBegin ← requireU32 result .chainStateBeginBlock
  let chainEnd ← requireU32 result .chainStateEndBlock
  let finality ← if v1 then do
      let begin ← requireU32 result .finalityDataBeginBlock
      let «end» ← requireU32 result .finalityDataEndBlock
      pure (some { begin, «end» })
    else pure none
  let chainId ← result.get .chainId
  pure
    { head := ⟨num, headId⟩
      lib := ⟨libNum, libId⟩
      trace := ⟨traceBegin, traceEnd⟩
      chainState := ⟨chainBegin, chainEnd⟩
      finality
      chainId := match chainId with
        | some (.checksum256 id) => some id
        | _ => none }

def deserializeStatus (v1 : Bool) (buffer : List UInt8) : Except ZcdError Zcd :=
  if v1 then deserializeStatusResultV1 buffer else deserializeStatusResult buffer

/-- One binary message as the monitor reads it: the index of a status result,
and its fields unless its head is 0; nothing for other results. -/
def readStatusFrame (binMsg : List UInt8) :
    Except ZcdError (Option (UInt8 × Option StatusReport)) := do
  let resultMessage := deserializeResult binMsg
  match ← resultMessage.get .variant with
  | some (.u8 variant) =>
      match ← resultMessage.get .data with
      | some (.bytes bytes) =>
          if variant = 0 ∨ variant = 3 then
            let result ← deserializeStatus (variant = 3) bytes
            let headBlockNum ← requireU32 result .headBlockNum
            if headBlockNum = 0 then pure (some (variant, none))
            else
              let report ← statusReport result (variant = 3) headBlockNum
              pure (some (variant, some report))
          else pure none
      | _ => throw .missingField
  | _ => pure none

/-! ## Status results -/

theorem Zcd.requireU32_of_get {z : Zcd} {field : FieldName} {value : Fin (2 ^ 32)}
    (read : z.get field = .ok (some (.u32 value))) : requireU32 z field = .ok value := by
  simp only [requireU32, read]
  rfl

theorem Zcd.requireId_of_get {z : Zcd} {field : FieldName} {value : Checksum}
    (read : z.get field = .ok (some (.checksum256 value))) : requireId z field = .ok value := by
  simp only [requireId, read]
  rfl

/-- The number at an offset. -/
def u32At (buffer : List UInt8) (offset : Nat) : Fin (2 ^ 32) :=
  fromLeBytes (bytesAt buffer offset 4)

/-- A status body, read at its fixed offsets. -/
def reportAt (buffer : List UInt8) (v1 : Bool) : StatusReport where
  head := ⟨u32At buffer 0, bytesAt buffer 4 32⟩
  lib := ⟨u32At buffer 36, bytesAt buffer 40 32⟩
  trace := ⟨u32At buffer 72, u32At buffer 76⟩
  chainState := ⟨u32At buffer 80, u32At buffer 84⟩
  finality := if v1 then some ⟨u32At buffer 120, u32At buffer 124⟩ else none
  chainId := if 120 ≤ buffer.length then some (bytesAt buffer 88 32) else none

def statusFields (v1 : Bool) : List FieldSpec :=
  if v1 then statusResultV1Fields else statusResultV0Fields

theorem statusFields_fixed (v1 : Bool) : ∀ spec ∈ statusFields v1, spec.Fixed := by
  cases v1 <;> decide

theorem statusFields_distinct (v1 : Bool) : ((statusFields v1).map FieldSpec.name).Nodup := by
  cases v1 <;> decide

theorem deserializeStatus_eq (v1 : Bool) (buffer : List UInt8) :
    deserializeStatus v1 buffer =
      decodeFixedFields buffer (statusFields v1) (if v1 then none else some .chainId) := by
  cases v1 <;> rfl

theorem exists_deserializeStatusResult {buffer : List UInt8} :
    (∃ z, deserializeStatusResult buffer = .ok z) ↔
      buffer.length = 88 ∨ 120 ≤ buffer.length := by
  rw [deserializeStatusResult, exists_decodeFixedFields (by decide)]
  simp [tableWidth, statusResultV0Fields, or_comm]

theorem exists_deserializeStatusResultV1 {buffer : List UInt8} :
    (∃ z, deserializeStatusResultV1 buffer = .ok z) ↔ 128 ≤ buffer.length := by
  rw [deserializeStatusResultV1, exists_decodeFixedFields (by decide)]
  simp [tableWidth, statusResultV1Fields]

section
variable {buffer : List UInt8} {v1 : Bool} {z : Zcd}
  (decoded : deserializeStatus v1 buffer = .ok z)
include decoded

theorem deserializeStatus_long : 88 ≤ buffer.length ∧ (v1 = true → 128 ≤ buffer.length) := by
  cases v1 with
  | false =>
      have long := exists_deserializeStatusResult.mp ⟨z, decoded⟩
      exact ⟨by omega, nofun⟩
  | true =>
      have long := exists_deserializeStatusResultV1.mp ⟨z, decoded⟩
      exact ⟨by omega, fun _ => long⟩

theorem get_deserializeStatus {line : Nat × FieldSpec}
    (member : line ∈ tableOffsets 0 (statusFields v1)) :
    z.get line.2.name = .ok (if line.1 + line.2.size ≤ buffer.length
      then valueAt buffer line.1 line.2.type else none) :=
  get_decodeFixedFields (statusFields_fixed v1) (statusFields_distinct v1)
    (deserializeStatus_eq v1 buffer ▸ decoded) member

theorem requireU32_deserializeStatus {offset : Nat} {field : FieldName}
    (member : (offset, ⟨.u32, field, 4⟩) ∈ tableOffsets 0 (statusFields v1))
    (fits : offset + 4 ≤ buffer.length) : requireU32 z field = .ok (u32At buffer offset) := by
  have read := get_deserializeStatus decoded member
  simp only [fits, if_true] at read
  exact Zcd.requireU32_of_get read

theorem requireId_deserializeStatus {offset : Nat} {field : FieldName}
    (member : (offset, ⟨.checksum256, field, 32⟩) ∈ tableOffsets 0 (statusFields v1))
    (fits : offset + 32 ≤ buffer.length) :
    requireId z field = .ok (bytesAt buffer offset 32) := by
  have read := get_deserializeStatus decoded member
  simp only [fits, if_true] at read
  exact Zcd.requireId_of_get read

/-- The monitor reads every field at its fixed offset. -/
theorem statusReport_deserializeStatus :
    requireU32 z .headBlockNum = .ok (u32At buffer 0) ∧
      statusReport z v1 (u32At buffer 0) = .ok (reportAt buffer v1) := by
  obtain ⟨long, longer⟩ := deserializeStatus_long decoded
  have num (offset : Nat) (field : FieldName)
      (member : (offset, ⟨.u32, field, 4⟩) ∈ tableOffsets 0 (statusFields v1))
      (fits : offset + 4 ≤ buffer.length) := requireU32_deserializeStatus decoded member fits
  have id (offset : Nat) (field : FieldName)
      (member : (offset, ⟨.checksum256, field, 32⟩) ∈ tableOffsets 0 (statusFields v1))
      (fits : offset + 32 ≤ buffer.length) := requireId_deserializeStatus decoded member fits
  have chain : z.get .chainId =
      .ok (if 120 ≤ buffer.length then some (.checksum256 (bytesAt buffer 88 32)) else none) := by
    have member : (88, ⟨.checksum256, .chainId, 32⟩) ∈ tableOffsets 0 (statusFields v1) := by
      cases v1 <;> decide
    exact get_deserializeStatus decoded member
  refine ⟨num 0 .headBlockNum (by cases v1 <;> decide) (by omega), ?_⟩
  simp only [statusReport, chain, reportAt,
    id 4 .headBlockId (by cases v1 <;> decide) (by omega),
    num 36 .lastIrreversibleBlockNum (by cases v1 <;> decide) (by omega),
    id 40 .lastIrreversibleBlockId (by cases v1 <;> decide) (by omega),
    num 72 .traceBeginBlock (by cases v1 <;> decide) (by omega),
    num 76 .traceEndBlock (by cases v1 <;> decide) (by omega),
    num 80 .chainStateBeginBlock (by cases v1 <;> decide) (by omega),
    num 84 .chainStateEndBlock (by cases v1 <;> decide) (by omega)]
  cases v1 with
  | false => by_cases whole : 120 ≤ buffer.length <;> simp only [whole, if_true, if_false] <;> rfl
  | true =>
      have long := longer rfl
      have whole : 120 ≤ buffer.length := by omega
      simp only [num 120 .finalityDataBeginBlock (by decide) (by omega),
        num 124 .finalityDataEndBlock (by decide) (by omega), whole, if_true]
      rfl

end

/-! ## Messages -/

theorem get_deserializeResult (index : UInt8) (rest : List UInt8) :
    (deserializeResult (index :: rest)).get .variant = .ok (some (.u8 index)) ∧
      (deserializeResult (index :: rest)).get .data = .ok (some (.bytes rest)) := by
  have fields : (deserializeResult (index :: rest)).fields =
      [(.data, ⟨rest, .bytes, rest.length⟩), (.variant, ⟨[index], .u8, 1⟩)] := by
    simp [deserializeResult, zcdBuilder, resultV0Fields, fieldAt, sliceAt]
  simp only [Zcd.get, fields]
  exact ⟨rfl, rfl⟩

/-- The monitor rejects exactly the status results its table does not take. -/
theorem readStatusFrame_cons (index : UInt8) (rest : List UInt8) :
    readStatusFrame (index :: rest) =
      if index = 0 ∨ index = 3 then
        (deserializeStatus (index = 3) rest).map fun _ =>
          some (index, if u32At rest 0 = 0 then none else some (reportAt rest (index = 3)))
      else .ok none := by
  obtain ⟨variant, data⟩ := get_deserializeResult index rest
  simp only [readStatusFrame, variant, data, bind, Except.bind]
  split
  · cases decoded : deserializeStatus (index = 3) rest with
    | error error => rfl
    | ok z =>
        obtain ⟨num, report⟩ := statusReport_deserializeStatus decoded
        simp only [num, report]
        split <;> rfl
  · rfl

theorem exists_error_map {ε α β : Type} {x : Except ε α} {f : α → β} :
    (∃ error, x.map f = .error error) ↔ ¬∃ value, x = .ok value := by
  cases x <;> simp [Except.map]

/-- Of the messages the sessions take for a status result, the monitor rejects
those with a part of a chain id. -/
theorem readStatusFrame_error {b : List UInt8} {v1 : Bool}
    (isStatus : classifyUpstream b = .status v1) :
    (∃ error, readStatusFrame b = .error error) ↔
      v1 = false ∧ statusV0MinLen < b.length ∧ b.length < statusV0Len := by
  cases b with
  | nil => cases isStatus
  | cons index rest =>
      simp only [classifyUpstream, List.head?_cons] at isStatus
      split_ifs at isStatus with v0 v1Long blocks
      · cases isStatus
        obtain ⟨rfl, long⟩ := v0
        have decodes : (∃ z, deserializeStatus false rest = .ok z) ↔ _ :=
          exists_deserializeStatusResult
        have rejects : (∃ error, readStatusFrame (resStatusV0 :: rest) = .error error) ↔
            ¬∃ z, deserializeStatus false rest = .ok z := by
          rw [readStatusFrame_cons, if_pos (.inl rfl)]
          exact exists_error_map
        simp only [statusV0MinLen, statusV0Len, List.length_cons, true_and] at long ⊢
        rw [rejects, decodes]
        omega
      · cases isStatus
        obtain ⟨rfl, long⟩ := v1Long
        have decodes : (∃ z, deserializeStatus true rest = .ok z) ↔ _ :=
          exists_deserializeStatusResultV1
        have rejects : (∃ error, readStatusFrame (resStatusV1 :: rest) = .error error) ↔
            ¬∃ z, deserializeStatus true rest = .ok z := by
          rw [readStatusFrame_cons, if_pos (.inr rfl)]
          exact exists_error_map
        simp only [statusV1Len, List.length_cons] at long
        rw [rejects, decodes]
        simp only [reduceCtorEq, false_and, iff_false, not_not]
        omega
      · split at isStatus <;> cases isStatus

/-! ## The router's own status results -/

/-- A status result as the router sends it: v0 leaves out an unknown chain
id. -/
def sentStatus (s : StatusBody) (v1 known : Bool) : List UInt8 :=
  if !known && !v1 then (encodeStatus v1 s).take statusV0MinLen else encodeStatus v1 s

/-- The words of the body of a status result, but for its binary extensions. -/
def statusWords (s : StatusBody) : List UInt8 :=
  putU32 s.head.num ++ (s.head.id.toList ++ (putU32 s.lib.num ++ (s.lib.id.toList ++
    (putU32 s.trace.begin ++ (putU32 s.trace.end ++
      (putU32 s.chainState.begin ++ putU32 s.chainState.end))))))

theorem statusWords_length (s : StatusBody) : (statusWords s).length = 88 := by
  simp [statusWords]

theorem sentStatus_eq (s : StatusBody) (v1 known : Bool) :
    sentStatus s v1 known =
      (if v1 then resStatusV1 else resStatusV0) :: (statusWords s ++
        ((if v1 || known then s.chainId.toList else []) ++
          (if v1 then putU32 s.finality.begin ++ putU32 s.finality.end else []))) := by
  have whole : encodeStatus v1 s =
      (if v1 then resStatusV1 else resStatusV0) :: (statusWords s ++ (s.chainId.toList ++
        (if v1 then putU32 s.finality.begin ++ putU32 s.finality.end else []))) := by
    simp [encodeStatus, statusWords, putPos]
  have short : statusV0MinLen = (statusWords s).length + 1 := by
    rw [statusWords_length]
    rfl
  cases v1 <;> cases known <;> simp [sentStatus, whole, short, List.take_succ_cons]

theorem bytesAt_append {front rest : List UInt8} {offset count : Nat}
    (behind : front.length ≤ offset) :
    bytesAt (front ++ rest) offset count = bytesAt rest (offset - front.length) count := by
  apply Vector.ext
  intro i _
  have index : offset + i - front.length = offset - front.length + i := by omega
  simp [bytesAt, List.getElem?_append_right (Nat.le_add_right_of_le behind), index]

@[simp] theorem bytesAt_toList {count : Nat} (bytes : Vector UInt8 count) (rest : List UInt8) :
    bytesAt (bytes.toList ++ rest) 0 count = bytes := by
  apply Vector.ext
  intro i bound
  simp [bytesAt, List.getElem?_append_left (bytes.length_toList.symm ▸ bound), bound]

@[simp] theorem u32At_putU32 (value : Fin (2 ^ 32)) (rest : List UInt8) :
    u32At (putU32 value ++ rest) 0 = value := by
  simp [u32At, putU32]

theorem u32At_append {front rest : List UInt8} {offset : Nat} (behind : front.length ≤ offset) :
    u32At (front ++ rest) offset = u32At rest (offset - front.length) := by
  rw [u32At, bytesAt_append behind, u32At]

theorem reportAt_statusWords (s : StatusBody) (rest : List UInt8) (v1 : Bool) :
    reportAt (statusWords s ++ rest) v1 =
      { head := s.head
        lib := s.lib
        trace := s.trace
        chainState := s.chainState
        finality := if v1 then some ⟨u32At rest 32, u32At rest 36⟩ else none
        chainId := if 32 ≤ rest.length then some (bytesAt rest 0 32) else none } := by
  have long : 120 ≤ (statusWords s ++ rest).length ↔ 32 ≤ rest.length := by
    simp only [List.length_append, statusWords_length]
    omega
  simp only [reportAt, long]
  simp [statusWords, u32At_append, bytesAt_append]

/-- What a router status tells the monitor. -/
def StatusBody.reported (s : StatusBody) (v1 known : Bool) : StatusReport where
  head := s.head
  lib := s.lib
  trace := s.trace
  chainState := s.chainState
  finality := if v1 then some s.finality else none
  chainId := if v1 || known then some s.chainId else none

theorem reportAt_sentStatus (s : StatusBody) (v1 known : Bool) :
    reportAt ((sentStatus s v1 known).drop 1) v1 = s.reported v1 known := by
  have last : u32At (putU32 s.finality.end) 0 = s.finality.end := by
    simpa using u32At_putU32 s.finality.end []
  have chain : bytesAt s.chainId.toList 0 32 = s.chainId := by
    simpa using bytesAt_toList s.chainId []
  rw [sentStatus_eq, List.drop_succ_cons, List.drop_zero, reportAt_statusWords]
  cases v1 <;> cases known <;> simp [StatusBody.reported, u32At_append, last, chain]

/-- The monitor reads from a router status what the router put in it. -/
theorem deserializeStatus_sentStatus (s : StatusBody) (v1 known : Bool) :
    ∃ z, deserializeStatus v1 ((sentStatus s v1 known).drop 1) = .ok z ∧
      requireU32 z .headBlockNum = .ok s.head.num ∧
      statusReport z v1 s.head.num = .ok (s.reported v1 known) := by
  have decodes : ∃ z, deserializeStatus v1 ((sentStatus s v1 known).drop 1) = .ok z := by
    rw [sentStatus_eq, List.drop_succ_cons, List.drop_zero]
    cases v1 with
    | false =>
        refine exists_deserializeStatusResult.mpr ?_
        cases known <;> simp [statusWords_length]
    | true =>
        refine exists_deserializeStatusResultV1.mpr ?_
        simp [statusWords_length]
  obtain ⟨z, decoded⟩ := decodes
  have read := statusReport_deserializeStatus decoded
  have report := reportAt_sentStatus s v1 known
  have num : u32At ((sentStatus s v1 known).drop 1) 0 = s.head.num :=
    congrArg (fun r : StatusReport => r.head.num) report
  rw [num, report] at read
  exact ⟨z, decoded, read⟩

theorem classifyUpstream_sentStatus (s : StatusBody) (v1 known : Bool) :
    classifyUpstream (sentStatus s v1 known) = .status v1 := by
  rw [sentStatus_eq]
  cases v1 with
  | false => simp [classifyUpstream, statusWords_length, statusV0MinLen, statusV0Len]
  | true =>
      simp [classifyUpstream, statusWords_length, statusV1Len, resStatusV0, resStatusV1]

theorem readHeadLib_sentStatus (s : StatusBody) (v1 known : Bool) :
    readHeadLib (sentStatus s v1 known) = some (s.head, s.lib) := by
  have layout : sentStatus s v1 known =
      (if v1 then resStatusV1 else resStatusV0) :: (putPos s.head ++ putPos s.lib ++
        (putU32 s.trace.begin ++ (putU32 s.trace.end ++
          (putU32 s.chainState.begin ++ (putU32 s.chainState.end ++
            ((if v1 || known then s.chainId.toList else []) ++
              (if v1 then putU32 s.finality.begin ++ putU32 s.finality.end else []))))))) := by
    simp [sentStatus_eq, statusWords, putPos]
  rw [layout, readHeadLib_cons]

end FleetRouter.Ship
