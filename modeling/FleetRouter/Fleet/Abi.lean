import Mathlib.Data.String.Basic
import FleetRouter.Lib.JsonText
import FleetRouter.Fleet.Planner

/-!
# Fingerprints of ABIs

An upstream's ABI is fingerprinted by the hash of its canonical text: the compact JSON of
its value with the keys of every object in order.  How scalars are written and texts are
read is a library's business.
-/

namespace FleetRouter.Fleet

open JsonText

variable {ν : Type}

/-- A JSON reader; a parsed object has each key once. -/
structure AbiReader (ν : Type) where
  parse : String → Option (Value ν String)
  distinct : ∀ text v, parse text = some v → v.Distinct

mutual

/-- Compact JSON with object keys in byte order, which for UTF-8 is the order of strings.
Members are written before they are sorted: their keys decide the order. -/
def writeCanonical (encode : Scalar ν String → List UInt8) : Value ν String → List UInt8
  | .object members =>
      let entries := (writeEntries encode members).insertionSort ByKey
      openObject ::
        commaList (entries.map fun entry => encode (.string entry.1) ++ colon :: entry.2)
        ++ [closeObject]
  | .array items => openArray :: commaList (writeElements encode items) ++ [closeArray]
  | .scalar s => encode s

def writeElements (encode : Scalar ν String → List UInt8) :
    List (Value ν String) → List (List UInt8)
  | [] => []
  | v :: rest => writeCanonical encode v :: writeElements encode rest

def writeEntries (encode : Scalar ν String → List UInt8) :
    List (String × Value ν String) → List (String × List UInt8)
  | [] => []
  | (key, v) :: rest => (key, writeCanonical encode v) :: writeEntries encode rest

end

def fingerprintValue (encode : Scalar ν String → List UInt8) (v : Value ν String) : UInt64 :=
  fnv1a64 (writeCanonical encode v)

/-- Text that is not JSON is hashed as it is. -/
def abiFingerprint (encode : Scalar ν String → List UInt8) (reader : AbiReader ν) (text : String) :
    UInt64 :=
  match reader.parse text with
  | some v => fingerprintValue encode v
  | none => fnv1a64 text.toUTF8.data.toList

/-! ## Entries -/

/-- Spring's request variant, in index order. -/
def springRequestTypes : List String :=
  ["get_status_request_v0", "get_blocks_request_v0", "get_blocks_ack_request_v0",
    "get_blocks_request_v1", "get_status_request_v1"]

def springResultTypes : List String :=
  ["get_status_result_v0", "get_blocks_result_v0", "get_blocks_result_v1", "get_status_result_v1"]

/-- A variant of the ABI lists the first of Spring's types, and at least one. -/
def variantIsPrefix (abi : Value ν String) (name : String) (spring : List String) : Bool :=
  match (abi.member "variants").bind Value.asArray with
  | none => false
  | some variants =>
      match ((variants.find? fun v => (v.member "name").bind Value.asStr = some name).bind
          (Value.member "types")).bind Value.asArray with
      | none => false
      | some types =>
          !types.isEmpty && types.length ≤ spring.length
            && (types.zip spring).all fun (mine, want) => mine.asStr = some want

def compatibleValue (abi : Value ν String) : Bool :=
  variantIsPrefix abi "request" springRequestTypes && variantIsPrefix abi "result" springResultTypes

def AbiEntry.new (encode : Scalar ν String → List UInt8) (reader : AbiReader ν) (text : String) :
    AbiEntry :=
  match reader.parse text with
  | some v => { text, fp := fingerprintValue encode v, compatible := compatibleValue v }
  | none => { text, fp := fnv1a64 text.toUTF8.data.toList, compatible := false }

theorem AbiEntry.new_fp (encode : Scalar ν String → List UInt8) (reader : AbiReader ν)
    (text : String) : (AbiEntry.new encode reader text).fp = abiFingerprint encode reader text := by
  rw [AbiEntry.new, abiFingerprint]
  cases reader.parse text <;> rfl

/-! ## What a fingerprint identifies -/

section Canonical

variable (encode : Scalar ν String → List UInt8)

theorem writeElements_eq (items : List (Value ν String)) :
    writeElements encode items = items.map (writeCanonical encode) := by
  induction items with
  | nil => rfl
  | cons v rest ih => rw [writeElements, ih, List.map_cons]

theorem writeEntries_eq (members : List (String × Value ν String)) :
    writeEntries encode members = members.map fun m => (m.1, writeCanonical encode m.2) := by
  induction members with
  | nil => rfl
  | cons m rest ih => rw [writeEntries, ih, List.map_cons]

/-- The canonical text is the text of the canonical value. -/
theorem writeCanonical_eq (v : Value ν String) :
    writeCanonical encode v = write encode v.canonical := by
  induction v with
  | scalar s => rfl
  | array items ih =>
      rw [writeCanonical, Value.canonical, write, writeElements_eq, writeItems_eq,
        canonicalItems_eq, List.map_map, List.map_congr_left ih]
      rfl
  | object members ih =>
      let written (m : String × Value ν String) : String × List UInt8 := (m.1, write encode m.2)
      have entries : writeEntries encode members = (canonicalMembers members).map written := by
        rw [writeEntries_eq, canonicalMembers_eq, List.map_map]
        exact List.map_congr_left fun m member => congrArg (Prod.mk m.1) (ih m member)
      have sorted : ((canonicalMembers members).map written).insertionSort ByKey =
          ((canonicalMembers members).insertionSort ByKey).map written :=
        (List.map_insertionSort ByKey ByKey written _ fun _ _ _ _ => Iff.rfl).symm
      rw [writeCanonical, Value.canonical, write, writeMembers_eq, entries, sorted, List.map_map]
      rfl

end Canonical

/-- Equal canonical texts are of values equal up to the order of members. -/
theorem writeCanonical_eq_iff (enc : Encoder ν String)
    {a b : Value ν String} (distinct : a.Distinct) :
    writeCanonical enc.encode a = writeCanonical enc.encode b ↔ a.Reordered b := by
  rw [writeCanonical_eq, writeCanonical_eq, ← Value.canonical_eq_iff distinct]
  exact ⟨write_injective enc, fun same => by rw [same]⟩

/-- A JSON value with each key once in every object, as readers make them. -/
structure AbiValue (ν : Type) where
  value : Value ν String
  distinct : value.Distinct

/-- The entry of a text that parses has the fingerprint of its value. -/
theorem AbiEntry.new_fp_of_parse (encode : Scalar ν String → List UInt8) {reader : AbiReader ν}
    {text : String} {v : Value ν String} (parsed : reader.parse text = some v) :
    (AbiEntry.new encode reader text).fp = fnv1a64 (writeCanonical encode v) := by
  rw [AbiEntry.new_fp, abiFingerprint, parsed]
  rfl

/-- The canonical text identifies an ABI up to the order of members.  So entries of other ABIs
with one fingerprint need canonical texts that collide, and neither the order of keys nor blanks
between tokens change the fingerprint of an entry. -/
theorem canonical_text_identifies (enc : Encoder ν String) (reader : AbiReader ν) :
    (∀ a b : AbiValue ν,
      writeCanonical enc.encode a.value = writeCanonical enc.encode b.value ↔
        a.value.Reordered b.value) ∧
    (∀ a b : AbiValue ν, ¬a.value.Reordered b.value →
      fingerprintValue enc.encode a.value = fingerprintValue enc.encode b.value →
      ∃ x y, x ≠ y ∧ fnv1a64 x = fnv1a64 y ∧ writeCanonical enc.encode a.value = x ∧
        writeCanonical enc.encode b.value = y) ∧
    (∀ text text' v w, reader.parse text = some v → reader.parse text' = some w →
      ¬v.Reordered w →
      (AbiEntry.new enc.encode reader text).fp = (AbiEntry.new enc.encode reader text').fp →
      ∃ x y, x ≠ y ∧ fnv1a64 x = fnv1a64 y ∧ writeCanonical enc.encode v = x ∧
        writeCanonical enc.encode w = y) ∧
    (∀ text text' v w, reader.parse text = some v → reader.parse text' = some w → v.Reordered w →
      (AbiEntry.new enc.encode reader text).fp = (AbiEntry.new enc.encode reader text').fp) ∧
    ∀ text, (AbiEntry.new enc.encode reader text).fp =
      abiFingerprint enc.encode reader text := by
  have collision {a b : Value ν String} (distinct : a.Distinct) (differ : ¬a.Reordered b)
      (collide : fnv1a64 (writeCanonical enc.encode a) = fnv1a64 (writeCanonical enc.encode b)) :
      ∃ x y, x ≠ y ∧ fnv1a64 x = fnv1a64 y ∧ writeCanonical enc.encode a = x ∧
        writeCanonical enc.encode b = y := by
    refine ⟨_, _, ?_, collide, rfl, rfl⟩
    rwa [ne_eq, writeCanonical_eq_iff enc distinct]
  refine ⟨fun a b => writeCanonical_eq_iff enc a.distinct, ?_, ?_, ?_, ?_⟩
  · intro a b differ collide
    exact collision a.distinct differ collide
  · intro text text' v w parsed parsed' differ collide
    rw [AbiEntry.new_fp_of_parse _ parsed, AbiEntry.new_fp_of_parse _ parsed'] at collide
    exact collision (reader.distinct text v parsed) differ collide
  · intro text text' v w parsed parsed' reordered
    rw [AbiEntry.new_fp_of_parse _ parsed, AbiEntry.new_fp_of_parse _ parsed',
      (writeCanonical_eq_iff enc (reader.distinct text v parsed)).mpr reordered]
  · exact AbiEntry.new_fp enc.encode reader

/-! ## A reader -/

/-- Two spellings of one object. -/
def sampleMembers : List (String × Value Unit String) :=
  [("a", .scalar .null), ("b", .scalar (.bool true))]

theorem distinct_sampleMembers {members : List (String × Value Unit String)}
    (permuted : sampleMembers.Perm members) : Value.Distinct (.object members) := by
  have distinct : Value.Distinct (.object sampleMembers) := by
    apply Value.Distinct.object (by decide)
    simp only [sampleMembers, List.forall_mem_cons]
    exact ⟨.scalar _, .scalar _, List.forall_mem_nil _⟩
  exact (Value.Reordered.canonical_eq (.members permuted) distinct).1

def sampleReader : AbiReader Unit where
  parse text :=
    if text = "ab" then some (.object sampleMembers)
    else if text = "ba" then some (.object sampleMembers.reverse)
    else none
  distinct text v parsed := by
    split at parsed
    · cases parsed
      exact distinct_sampleMembers (.refl _)
    · split at parsed
      · cases parsed
        exact distinct_sampleMembers (List.reverse_perm _).symm
      · cases parsed

/-- Members in another order, one fingerprint. -/
theorem canonical_text_identifies_sample :
    (AbiEntry.new sampleEncode sampleReader "ab").fp =
      (AbiEntry.new sampleEncode sampleReader "ba").fp :=
  (canonical_text_identifies sampleEncoder sampleReader).2.2.2.1 "ab" "ba" _ _ rfl rfl
    (.members (List.reverse_perm _).symm)

example : writeCanonical sampleEncode
    (.object [("b", .scalar (.bool true)), ("a", .array [.scalar .null, .object []])]) =
      [0x7B, 0x22, 0x61, 0x22, 0x3A, 0x5B, 0x6E, 0x2C, 0x7B, 0x7D, 0x5D, 0x2C, 0x22, 0x62, 0x22,
        0x3A, 0x74, 0x7D] := by
  decide +kernel

end FleetRouter.Fleet
