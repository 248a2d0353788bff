import FleetRouter.Lib.Numeral
import FleetRouter.ChainApi.Block

/-!
# Routing hints

The block a request body names.  nodeos reads bodies with a parser of its own that
gives up at some depth, so a hint is taken only from bodies that parser reads as a
strict one does.  The router counts nesting levels, nodeos spends a budget; they refuse
the same trees.
-/

namespace FleetRouter.ChainApi

open Numeral

/-! ## JSON trees -/

/-- The bytes of a string without escapes. -/
abbrev Text := List UInt8

/-- A JSON number as it is written. -/
structure Number where
  negative : Bool
  /-- The digits before a fraction or an exponent. -/
  magnitude : Nat
  /-- It has a fraction or an exponent. -/
  fractional : Bool
  deriving DecidableEq, Repr

inductive Json where
  | null
  | bool (value : Bool)
  | number (n : Number)
  | string (text : Text)
  | array (elements : List Json)
  | object (members : List (Text × Json))

/-- How the strict parser hands a number to its visitor. -/
inductive Visited where
  | u64 (value : Nat)
  | i64 (value : Int)
  | f64
  deriving DecidableEq, Repr

/-- Integers that do not fit, and `-0`, arrive as floats. -/
def Number.visited (n : Number) : Visited :=
  if n.fractional then .f64
  else if n.negative then
    if 0 < n.magnitude ∧ n.magnitude ≤ 2 ^ 63 then .i64 (-n.magnitude) else .f64
  else if n.magnitude < 2 ^ 64 then .u64 n.magnitude
  else .f64

/-! ## The readers of a body -/

/-- Why a body is refused. -/
inductive Refusal where
  | notObject
  | repeatedKey
  | nonInteger
  | tooDeep
  deriving DecidableEq, Repr

/-- The nesting level at which a container may no longer hold anything; the top-level
object is level 1. -/
def fcFullLevel : Nat := 100

namespace Nested

mutual

/-- Reads any value without a non-integer number in it and no deeper nesting than fc
parses; `level` is the value's level if it is a container. -/
def read (level : Nat) : Json → Except Refusal Unit
  | .null | .bool _ | .string _ => .ok ()
  | .number n =>
      match n.visited with
      | .u64 _ | .i64 _ => .ok ()
      | .f64 => .error .nonInteger
  | .array elements =>
      if fcFullLevel ≤ level then
        if elements.isEmpty then .ok () else .error .tooDeep
      else readElements (level + 1) elements
  | .object members =>
      if fcFullLevel ≤ level then
        if members.isEmpty then .ok () else .error .tooDeep
      else readMembers (level + 1) members

def readElements (level : Nat) : List Json → Except Refusal Unit
  | [] => .ok ()
  | value :: rest =>
      match read level value with
      | .ok () => readElements level rest
      | .error why => .error why

def readMembers (level : Nat) : List (Text × Json) → Except Refusal Unit
  | [] => .ok ()
  | (_, value) :: rest =>
      match read level value with
      | .ok () => readMembers level rest
      | .error why => .error why

end

end Nested

/-- The hint key's value, as far as the hint rules care. -/
inductive Value where
  | uint (value : Nat)
  | str (text : Text)
  /-- Anything else: negative, bool, null, object, array. -/
  | other
  deriving DecidableEq, Repr

/-- Reads the hint key's value; refuses what `Nested.read` refuses. -/
def readHintValue (level : Nat) : Json → Except Refusal Value
  | .null | .bool _ => .ok .other
  | .string text => .ok (.str text)
  | .number n =>
      match n.visited with
      | .u64 value => .ok (.uint value)
      | .i64 value => .ok (if 0 ≤ value then .uint value.toNat else .other)
      | .f64 => .error .nonInteger
  | .array elements => (Nested.read level (.array elements)).map fun _ => .other
  | .object members => (Nested.read level (.object members)).map fun _ => .other

namespace TopLevel

/-- Reads the members of the top-level object. -/
def visitMap (key : Text) :
    List Text → Option Value → List (Text × Json) → Except Refusal (Option Value)
  | _, found, [] => .ok found
  | seen, found, (name, value) :: rest =>
      if seen.contains name then .error .repeatedKey
      else if name = key then
        match readHintValue 2 value with
        | .ok read => visitMap key (name :: seen) (some read) rest
        | .error why => .error why
      else
        match Nested.read 2 value with
        | .ok () => visitMap key (name :: seen) found rest
        | .error why => .error why

def read (key : Text) : Json → Except Refusal (Option Value)
  | .object members => visitMap key [] none members
  | _ => .error .notObject

end TopLevel

/-- The value of the top-level key, of a body that is not refused. -/
def topLevelValue (tree : Json) (key : Text) : Option Value :=
  match TopLevel.read key tree with
  | .ok found => found
  | .error _ => none

/-! ## The block a value names -/

def isAsciiDigit (b : UInt8) : Bool := 48 ≤ b && b ≤ 57

def isAsciiHexdigit (b : UInt8) : Bool :=
  isAsciiDigit b || (65 ≤ b && b ≤ 70) || (97 ≤ b && b ≤ 102)

/-- The value of a hexadecimal digit of either case. -/
def toDigit (b : UInt8) : Nat :=
  if isAsciiDigit b then b.toNat - 48 else if b ≤ 70 then b.toNat - 55 else b.toNat - 87

/-- Numbers are cut to 32 bits, as nodeos looks the block up. -/
def truncate (n : Nat) : Fin (2 ^ 32) := Fin.ofNat _ n

/-- An integer, or a string of 1 to 64 digits whose value fits 64 bits. -/
def decimal : Value → Option (Fin (2 ^ 32))
  | .uint value => some (truncate value)
  | .str s =>
      if 1 ≤ s.length && s.length ≤ 64 && s.all isAsciiDigit then
        (parse (2 ^ 64) 10 (s.map toDigit)).map truncate
      else none
  | .other => none

/-- The first four bytes of an id of 1 to 32 pairs of hexadecimal digits. -/
def hexBlockNum (s : Text) : Option (Fin (2 ^ 32)) :=
  if s.isEmpty || 64 < s.length || s.length % 2 ≠ 0 || !s.all isAsciiHexdigit then none
  else
    let head := s.take (min s.length 8)
    let digits := head ++ List.replicate (8 - head.length) 48
    (parse (2 ^ 32) 16 (digits.map toDigit)).map truncate

/-- The key that names the block. -/
def BlockEndpoint.key (ep : BlockEndpoint) : Text :=
  match ep with
  | .blockInfo => "block_num".toUTF8.data.toList
  | _ => "block_num_or_id".toUTF8.data.toList

/-- The block the key's value names for an endpoint. -/
def Value.hint (ep : BlockEndpoint) (value : Value) : Option Hint :=
  let number := (decimal value).map fun num => ⟨num, false⟩
  match ep with
  | .blockInfo => number
  | .blockHeaderState =>
      number.or <|
        match value with
        | .str s => if s.length = 64 then (hexBlockNum s).map fun num => ⟨num, true⟩ else none
        | _ => none
  | .block | .blockHeader | .rawBlock =>
      number.or <|
        match value with
        | .str s => (hexBlockNum s).map fun num => ⟨num, true⟩
        | _ => none

/-- The block a tree names for an endpoint. -/
def hintOf (ep : BlockEndpoint) (tree : Json) : Option Hint :=
  (topLevelValue tree ep.key).bind (Value.hint ep)

/-- nodeos's empty-body test: nothing but spaces, or braces around spaces and tabs. -/
def isEmptyContent (body : List UInt8) : Bool :=
  let trimmed := ((body.dropWhile (· = 32)).reverse.dropWhile (· = 32)).reverse
  trimmed.isEmpty ||
    (1 < trimmed.length && trimmed.head? = some 123 && trimmed.getLast? = some 125 &&
      (trimmed.drop 1).dropLast.all fun b => b = 32 || b = 9)

/-- The strict parser.  A body that nodeos calls empty is no more than an empty object
to it. -/
structure SerdeJson where
  parse : List UInt8 → Option Json
  emptyContent : ∀ body tree, isEmptyContent body = true → parse body = some tree →
    tree = .object []

/-- The block a body names, when the router may route on it. -/
def hint (serde : SerdeJson) (ep : BlockEndpoint) (body : List UInt8) : Option Hint :=
  if isEmptyContent body || body.contains 92 then none
  else (serde.parse body).bind (hintOf ep)

/-! ## What nodeos reads -/

mutual

/-- fc's legacy reader: a value needs a budget, and a container gives its members two
less than its own. -/
def fcReads (budget : Nat) : Json → Bool
  | .null | .bool _ | .string _ | .number _ => 0 < budget
  | .array elements => 0 < budget && fcReadsElements (budget - 2) elements
  | .object members => 0 < budget && fcReadsMembers (budget - 2) members

def fcReadsElements (budget : Nat) : List Json → Bool
  | [] => true
  | value :: rest => fcReads budget value && fcReadsElements budget rest

def fcReadsMembers (budget : Nat) : List (Text × Json) → Bool
  | [] => true
  | (_, value) :: rest => fcReads budget value && fcReadsMembers budget rest

end

/-- The budget of the top-level value. -/
def fcBudget : Nat := 200

mutual

/-- The numbers in a tree. -/
def Json.numbers : Json → List Number
  | .null | .bool _ | .string _ => []
  | .number n => [n]
  | .array elements => numbersOfElements elements
  | .object members => numbersOfMembers members

def Json.numbersOfElements : List Json → List Number
  | [] => []
  | value :: rest => value.numbers ++ numbersOfElements rest

def Json.numbersOfMembers : List (Text × Json) → List Number
  | [] => []
  | (_, value) :: rest => value.numbers ++ numbersOfMembers rest

end

/-- The integer that the sign and the digits stand for. -/
def Number.value (n : Number) : Int := if n.negative then -n.magnitude else n.magnitude

/-- An integer other than `-0` that fits 64 bits, unsigned or signed. -/
@[mk_iff] structure Number.IsInteger (n : Number) : Prop where
  whole : n.fractional = false
  notNegativeZero : ¬(n.negative = true ∧ n.magnitude = 0)
  fits : (0 ≤ n.value ∧ n.value < 2 ^ 64) ∨ (-2 ^ 63 ≤ n.value ∧ n.value < 2 ^ 63)

/-- The number a value stands for. -/
inductive NamesNumber : Json → Nat → Prop where
  | integer (n : Number) (isInteger : n.IsInteger) (notNegative : 0 ≤ n.value) :
      NamesNumber (.number n) n.value.toNat
  | digits (s : Text) (some : 1 ≤ s.length) (short : s.length ≤ 64)
      (digits : ∀ b ∈ s, isAsciiDigit b = true) (fits : value 10 (s.map toDigit) < 2 ^ 64) :
      NamesNumber (.string s) (value 10 (s.map toDigit))

/-- An id of pairs of hexadecimal digits, filled up to 32 bytes with zeros. -/
def idBytes (s : Text) : List Nat :=
  pairs 16 (s.map toDigit) ++ List.replicate (32 - s.length / 2) 0

/-- The strings an endpoint takes for ids. -/
structure IsId (ep : BlockEndpoint) (s : Text) : Prop where
  even : Even s.length
  some : 2 ≤ s.length
  short : s.length ≤ 64
  digits : ∀ b ∈ s, isAsciiHexdigit b = true
  exact : ep = .blockHeaderState → s.length = 64
  taken : ep ≠ .blockInfo

/-- The block a value names for an endpoint. -/
inductive Names (ep : BlockEndpoint) : Json → Hint → Prop where
  | number {v : Json} {n : Nat} (isNumber : NamesNumber v n) : Names ep v ⟨truncate n, false⟩
  | id {s : Text} (notNumber : ∀ n, ¬NamesNumber (.string s) n) (isId : IsId ep s) :
      Names ep (.string s) ⟨truncate (value 256 ((idBytes s).take 4)), true⟩

/-! ## Levels and budgets -/

/-- The numbers that arrive as floats are those that are no integers. -/
theorem Number.visited_eq_f64_iff (n : Number) : n.visited = .f64 ↔ ¬n.IsInteger := by
  obtain ⟨negative, magnitude, fractional⟩ := n
  rw [Number.isInteger_iff]
  cases fractional with
  | true => simp [visited]
  | false =>
      cases negative with
      | true =>
          simp only [visited, Number.value, Bool.false_eq_true, if_false, if_true, ite_eq_right_iff,
            reduceCtorEq, imp_false, true_and, Nat.reducePow, Int.reducePow, Int.reduceNeg]
          omega
      | false =>
          simp only [visited, Number.value, Bool.false_eq_true, if_false, ite_eq_right_iff,
            reduceCtorEq, imp_false, true_and, false_and, not_false_eq_true, Nat.reducePow,
            Int.reducePow, Int.reduceNeg]
          omega

namespace Nested

theorem read_number_iff (level : Nat) (n : Number) :
    read level (.number n) = .ok () ↔ n.IsInteger := by
  rw [← not_iff_not, ← n.visited_eq_f64_iff, read]
  cases n.visited <;> simp

theorem readElements_cons (level : Nat) (value : Json) (rest : List Json) :
    readElements level (value :: rest) = .ok () ↔
      read level value = .ok () ∧ readElements level rest = .ok () := by
  rw [readElements]
  cases read level value <;> simp

theorem readMembers_cons (level : Nat) (name : Text) (value : Json) (rest : List (Text × Json)) :
    readMembers level ((name, value) :: rest) = .ok () ↔
      read level value = .ok () ∧ readMembers level rest = .ok () := by
  rw [readMembers]
  cases read level value <;> simp

end Nested

/-- Nothing is read without a budget. -/
theorem fcReads_zero (v : Json) : fcReads 0 v = false := by
  cases v <;> simp [fcReads]

/-- The budget of a value at a level. -/
def budgetAt (level : Nat) : Nat := 202 - 2 * level

mutual

/-- The level counter refuses a value where the budget runs out inside it. -/
theorem Nested.read_ok_iff {level : Nat} (within : level ≤ fcFullLevel) (v : Json) :
    read level v = .ok () ↔
      (∀ n ∈ v.numbers, n.IsInteger) ∧ fcReads (budgetAt level) v = true := by
  have enough : 0 < budgetAt level := by
    simp only [budgetAt, fcFullLevel] at within ⊢
    omega
  have spent : budgetAt level - 2 = budgetAt (level + 1) := by
    simp only [budgetAt]
    omega
  cases v with
  | null | bool _ | string _ => simp [read, Json.numbers, fcReads, enough]
  | number n => simp [read_number_iff, Json.numbers, fcReads, enough]
  | array elements =>
      rw [read, Json.numbers, fcReads, spent]
      simp only [enough, decide_true, Bool.true_and]
      split
      · rename_i full
        obtain rfl : level = fcFullLevel := le_antisymm within full
        cases elements with
        | nil => simp [Json.numbersOfElements, fcReadsElements]
        | cons value rest => simp [fcReadsElements, budgetAt, fcFullLevel, fcReads_zero]
      · rename_i more
        exact readElements_ok_iff (Nat.lt_of_not_le more) elements
  | object members =>
      rw [read, Json.numbers, fcReads, spent]
      simp only [enough, decide_true, Bool.true_and]
      split
      · rename_i full
        obtain rfl : level = fcFullLevel := le_antisymm within full
        cases members with
        | nil => simp [Json.numbersOfMembers, fcReadsMembers]
        | cons member rest => simp [fcReadsMembers, budgetAt, fcFullLevel, fcReads_zero]
      · rename_i more
        exact readMembers_ok_iff (Nat.lt_of_not_le more) members

theorem Nested.readElements_ok_iff {level : Nat} (within : level ≤ fcFullLevel)
    (elements : List Json) :
    readElements level elements = .ok () ↔
      (∀ n ∈ Json.numbersOfElements elements, n.IsInteger) ∧
        fcReadsElements (budgetAt level) elements = true := by
  cases elements with
  | nil => simp [readElements, Json.numbersOfElements, fcReadsElements]
  | cons value rest =>
      rw [readElements_cons, read_ok_iff within value, readElements_ok_iff within rest,
        Json.numbersOfElements, fcReadsElements, List.forall_mem_append, Bool.and_eq_true]
      tauto

theorem Nested.readMembers_ok_iff {level : Nat} (within : level ≤ fcFullLevel)
    (members : List (Text × Json)) :
    readMembers level members = .ok () ↔
      (∀ n ∈ Json.numbersOfMembers members, n.IsInteger) ∧
        fcReadsMembers (budgetAt level) members = true := by
  cases members with
  | nil => simp [readMembers, Json.numbersOfMembers, fcReadsMembers]
  | cons member rest =>
      obtain ⟨name, value⟩ := member
      rw [readMembers_cons, read_ok_iff within value, readMembers_ok_iff within rest,
        Json.numbersOfMembers, fcReadsMembers, List.forall_mem_append, Bool.and_eq_true]
      tauto

end

/-! ## The top-level object -/

/-- What the hint rules see of a value. -/
def Json.toValue : Json → Value
  | .string text => .str text
  | .number n =>
      match n.visited with
      | .u64 value => .uint value
      | .i64 value => if 0 ≤ value then .uint value.toNat else .other
      | .f64 => .other
  | .null | .bool _ | .array _ | .object _ => .other

theorem readHintValue_eq (level : Nat) (v : Json) :
    readHintValue level v = (Nested.read level v).map fun _ => v.toValue := by
  cases v with
  | number n =>
      simp only [readHintValue, Nested.read, Json.toValue]
      cases n.visited <;> rfl
  | null | bool _ | string _ => simp [readHintValue, Nested.read, Json.toValue, Except.map]
  | array _ | object _ => rfl

namespace TopLevel

theorem fresh_cons {name : Text} {names seen : List Text} :
    (∀ other ∈ names, other ∉ name :: seen) ↔ name ∉ names ∧ ∀ other ∈ names, other ∉ seen := by
  simp only [List.mem_cons, not_or, forall_and]
  apply and_congr_left
  intro _
  constructor
  · intro differs member
    exact differs name member rfl
  · rintro absent other member rfl
    exact absent member

theorem find?_absent {name : Text} {members : List (Text × Json)}
    (absent : name ∉ members.map Prod.fst) : (members.find? fun m => m.1 = name) = none := by
  rw [List.find?_eq_none]
  intro m member
  simpa using fun same : m.1 = name => absent (same ▸ List.mem_map_of_mem member)

/-- The members are read when no name comes twice and every value is read; found is the
value of the key. -/
theorem visitMap_ok_iff (key : Text) (members : List (Text × Json)) (seen : List Text)
    (found result : Option Value) :
    visitMap key seen found members = .ok result ↔
      (members.map Prod.fst).Nodup ∧ (∀ name ∈ members.map Prod.fst, name ∉ seen) ∧
        Nested.readMembers 2 members = .ok () ∧
        result = ((members.find? fun m => m.1 = key).map fun m => m.2.toValue).or found := by
  induction members generalizing seen found with
  | nil =>
      simp only [visitMap, Except.ok.injEq, Nested.readMembers]
      simp [eq_comm]
  | cons member rest ih =>
      obtain ⟨name, value⟩ := member
      rw [visitMap, Nested.readMembers_cons, readHintValue_eq]
      simp only [List.map_cons, List.nodup_cons, List.forall_mem_cons, List.contains_iff_mem]
      split
      · rename_i isSeen
        simp [isSeen]
      cases Nested.read 2 value with
      | error why => split <;> simp [Except.map]
      | ok _ =>
          split
          · rename_i isKey
            subst isKey
            simp only [Except.map, ih, fresh_cons, List.find?_cons, decide_true]
            by_cases absent : name ∈ rest.map Prod.fst
            · tauto
            · rw [find?_absent absent]
              simp only [Option.map_none, Option.none_or, Option.map_some, Option.some_or]
              tauto
          · rename_i notKey
            simp only [ih, fresh_cons, List.find?_cons, notKey, decide_false]
            tauto

/-- A tree is read when it is an object without a repeated name whose values are. -/
theorem read_ok_iff (key : Text) (tree : Json) (result : Option Value) :
    read key tree = .ok result ↔
      ∃ members, tree = .object members ∧ (members.map Prod.fst).Nodup ∧
        Nested.readMembers 2 members = .ok () ∧
        result = (members.find? fun m => m.1 = key).map fun m => m.2.toValue := by
  cases tree with
  | object members => simp [read, visitMap_ok_iff]
  | _ => simp [read]

end TopLevel

/-- The reader takes the tree, whether or not it has the key. -/
def Accepted (key : Text) (tree : Json) : Prop := ∃ found, TopLevel.read key tree = .ok found

/-- The reader takes the objects without a repeated name or a non-integer that nodeos
reads. -/
theorem accepted_iff (key : Text) (tree : Json) :
    Accepted key tree ↔
      (∃ members, tree = .object members ∧ (members.map Prod.fst).Nodup) ∧
        (∀ n ∈ tree.numbers, n.IsInteger) ∧ fcReads fcBudget tree = true := by
  have level : (2 : Nat) ≤ fcFullLevel := by decide
  simp only [Accepted, TopLevel.read_ok_iff]
  constructor
  · rintro ⟨found, members, rfl, nodup, reads, -⟩
    obtain ⟨integers, fc⟩ := (Nested.readMembers_ok_iff level members).mp reads
    exact ⟨⟨members, rfl, nodup⟩, integers, by simpa [fcReads, fcBudget, budgetAt] using fc⟩
  · rintro ⟨⟨members, rfl, nodup⟩, integers, fc⟩
    have reads := (Nested.readMembers_ok_iff level members).mpr
      ⟨integers, by simpa [fcReads, fcBudget, budgetAt] using fc⟩
    exact ⟨_, members, rfl, nodup, reads, rfl⟩

/-! ## Numbers and ids -/

theorem toDigit_lt {b : UInt8} (isHex : isAsciiHexdigit b = true) : toDigit b < 16 := by
  simp only [isAsciiHexdigit, isAsciiDigit, Bool.or_eq_true, Bool.and_eq_true, decide_eq_true_eq,
    UInt8.le_iff_toNat_le, UInt8.reduceToNat] at isHex
  simp only [toDigit, isAsciiDigit, Bool.and_eq_true, decide_eq_true_eq, UInt8.le_iff_toNat_le,
    UInt8.reduceToNat]
  split
  · omega
  · split <;> omega

/-- The digits before the block number's end, filled up, are the id's first bytes. -/
theorem value_head (ds : List Nat) (even : Even ds.length) (short : ds.length ≤ 64) :
    value 16 (ds.take 8 ++ List.replicate (8 - (ds.take 8).length) 0) =
      value 256 ((pairs 16 ds ++ List.replicate (32 - ds.length / 2) 0).take 4) := by
  obtain ⟨n, isTwice⟩ := even
  have evenHead : Even (ds.take 8).length := by
    rw [List.length_take, isTwice]
    exact ⟨min 4 n, by omega⟩
  have zeros : 8 - (ds.take 8).length = 2 * (4 - n) := by
    rw [List.length_take, isTwice]
    omega
  have padded : (ds.take 8 ++ List.replicate (8 - (ds.take 8).length) 0).length = 4 + 4 := by
    rw [List.length_append, List.length_replicate, List.length_take]
    omega
  have half : ds.length / 2 = n := by omega
  have filled : (List.replicate (32 - n) 0).take (4 - n) = List.replicate (4 - n) 0 := by
    rw [List.take_replicate]
    congr 1
    omega
  rw [← value_pairs 16 ⟨4, padded⟩, pairs_append 16 evenHead, zeros, pairs_zeros,
    pairs_take 16 ds 4, List.take_append, length_pairs, half, filled]

/-- An integer arrives as what it is. -/
theorem Number.visited_of_isInteger {n : Number} (isInteger : n.IsInteger) :
    n.visited = if 0 ≤ n.value then .u64 n.value.toNat else .i64 n.value := by
  obtain ⟨negative, magnitude, fractional⟩ := n
  obtain ⟨rfl, notNegativeZero, fits⟩ := isInteger
  cases negative with
  | true =>
      simp only [Number.value, if_true, true_and] at notNegativeZero fits ⊢
      have positive : 0 < magnitude ∧ magnitude ≤ 2 ^ 63 := by omega
      rw [visited, if_neg (by simp), if_pos rfl, if_pos positive, if_neg (by omega)]
  | false =>
      simp only [Number.value, Bool.false_eq_true, if_false] at fits ⊢
      have small : magnitude < 2 ^ 64 := by omega
      rw [visited, if_neg (by simp), if_neg (by simp), if_pos small, if_pos (by omega),
        Int.toNat_natCast]

theorem namesNumber_string_iff {s : Text} {n : Nat} :
    NamesNumber (.string s) n ↔
      (1 ≤ s.length ∧ s.length ≤ 64 ∧ (∀ b ∈ s, isAsciiDigit b = true)) ∧
        value 10 (s.map toDigit) < 2 ^ 64 ∧ n = value 10 (s.map toDigit) := by
  constructor
  · intro names
    cases names with
    | digits _ some short digits fits => exact ⟨⟨some, short, digits⟩, fits, rfl⟩
  · rintro ⟨⟨some, short, digits⟩, fits, rfl⟩
    exact .digits s some short digits fits

/-- The number of a value the reader took. -/
theorem decimal_toValue_iff {v : Json} (integers : ∀ n ∈ v.numbers, n.IsInteger)
    {num : Fin (2 ^ 32)} :
    decimal v.toValue = some num ↔ ∃ n, NamesNumber v n ∧ num = truncate n := by
  cases v with
  | number n =>
      have isInteger := integers n (by simp [Json.numbers])
      rw [Json.toValue, Number.visited_of_isInteger isInteger]
      by_cases notNegative : 0 ≤ n.value
      · simp only [notNegative, if_true, decimal, Option.some.injEq]
        constructor
        · rintro rfl
          exact ⟨_, .integer n isInteger notNegative, rfl⟩
        · rintro ⟨_, ⟨⟩, rfl⟩
          rfl
      · simp only [notNegative, if_false, decimal, reduceCtorEq, false_iff]
        rintro ⟨_, ⟨⟩, -⟩
        contradiction
  | string s =>
      simp only [Json.toValue, decimal, namesNumber_string_iff, parse_eq, Nat.ofNat_pos,
        Nat.pow_pos, Bool.and_eq_true, decide_eq_true_eq, List.all_eq_true, and_assoc]
      by_cases digits : 1 ≤ s.length ∧ s.length ≤ 64 ∧ ∀ b ∈ s, isAsciiDigit b = true
      · rw [if_pos digits]
        by_cases fits : value 10 (s.map toDigit) < 2 ^ 64
        · rw [if_pos fits, Option.map_some, Option.some.injEq]
          constructor
          · rintro rfl
            exact ⟨_, digits.1, digits.2.1, digits.2.2, fits, rfl, rfl⟩
          · rintro ⟨n, -, -, -, -, rfl, rfl⟩
            rfl
        · rw [if_neg fits, Option.map_none]
          simp only [reduceCtorEq, false_iff]
          rintro ⟨n, -, -, -, small, -⟩
          exact fits small
      · rw [if_neg digits]
        simp only [reduceCtorEq, false_iff]
        rintro ⟨n, nonempty, short, each, -⟩
        exact digits ⟨nonempty, short, each⟩
  | null | bool _ | array _ | object _ =>
      simp only [Json.toValue, decimal, reduceCtorEq, false_iff]
      rintro ⟨_, ⟨⟩, -⟩

/-- A string of hexadecimal pairs is read as its id's first four bytes. -/
theorem hexBlockNum_iff {s : Text} {num : Fin (2 ^ 32)} :
    hexBlockNum s = some num ↔
      (Even s.length ∧ 2 ≤ s.length ∧ s.length ≤ 64 ∧ ∀ b ∈ s, isAsciiHexdigit b = true) ∧
        num = truncate (value 256 ((idBytes s).take 4)) := by
  have refused :
      (s.isEmpty || 64 < s.length || s.length % 2 ≠ 0 || !s.all isAsciiHexdigit) = false ↔
      Even s.length ∧ 2 ≤ s.length ∧ s.length ≤ 64 ∧ ∀ b ∈ s, isAsciiHexdigit b = true := by
    simp only [Bool.or_eq_false_iff, List.isEmpty_eq_false_iff, ← List.length_pos_iff,
      decide_eq_false_iff_not, Bool.not_eq_false', List.all_eq_true, Nat.even_iff, not_not, not_lt]
    constructor
    · rintro ⟨⟨⟨nonempty, short⟩, even⟩, hex⟩
      exact ⟨even, by omega, short, hex⟩
    · rintro ⟨even, nonempty, short, hex⟩
      exact ⟨⟨⟨by omega, short⟩, even⟩, hex⟩
  rw [← refused]
  unfold hexBlockNum
  cases refuse : s.isEmpty || 64 < s.length || s.length % 2 ≠ 0 || !s.all isAsciiHexdigit with
  | true => simp
  | false =>
      obtain ⟨even, -, short, hex⟩ := refused.mp refuse
      have head : ((s.take (min s.length 8) ++
          List.replicate (8 - (s.take (min s.length 8)).length) 48).map toDigit) =
          (s.map toDigit).take 8 ++ List.replicate (8 - ((s.map toDigit).take 8).length) 0 := by
        rw [Nat.min_comm, ← List.take_eq_take_min]
        simp [List.map_take, toDigit, isAsciiDigit]
      have small : value 16 ((s.map toDigit).take 8 ++
          List.replicate (8 - ((s.map toDigit).take 8).length) 0) < 2 ^ 32 := by
        have digits : ∀ d ∈ (s.map toDigit).take 8 ++
            List.replicate (8 - ((s.map toDigit).take 8).length) 0, d < 16 := by
          intro d member
          rcases List.mem_append.mp member with isHead | isZero
          · obtain ⟨b, isByte, rfl⟩ := List.mem_map.mp (List.mem_of_mem_take isHead)
            exact toDigit_lt (hex b isByte)
          · rw [List.eq_of_mem_replicate isZero]
            decide
        have bound := value_lt (by decide) digits
        rwa [List.length_append, List.length_replicate,
          Nat.add_sub_cancel' (List.length_take_le ..)] at bound
      simp only [Bool.false_eq_true, if_false]
      rw [head, parse_eq (by decide) (by decide), if_pos small,
        value_head _ (by simpa using even) (by simpa using short), List.length_map, ← idBytes]
      simp [eq_comm]

/-- What an endpoint takes for an id besides what it takes for a number. -/
theorem hint_eq (ep : BlockEndpoint) (value : Value) :
    value.hint ep = ((decimal value).map fun num => ⟨num, false⟩).or
      (match value with
      | .str s =>
          if ep = .blockInfo ∨ (ep = .blockHeaderState ∧ s.length ≠ 64) then none
          else (hexBlockNum s).map fun num => ⟨num, true⟩
      | _ => none) := by
  cases ep <;> cases value <;> simp [Value.hint]

theorem toValue_eq_str {v : Json} {s : Text} : v.toValue = .str s ↔ v = .string s := by
  cases v with
  | number n =>
      simp only [Json.toValue, reduceCtorEq, iff_false]
      repeat' split
      all_goals simp
  | string text => simp [Json.toValue]
  | null | bool _ | array _ | object _ => simp [Json.toValue]

theorem isId_iff {ep : BlockEndpoint} {s : Text} :
    IsId ep s ↔ ¬(ep = .blockInfo ∨ (ep = .blockHeaderState ∧ s.length ≠ 64)) ∧
      Even s.length ∧ 2 ≤ s.length ∧ s.length ≤ 64 ∧ ∀ b ∈ s, isAsciiHexdigit b = true := by
  constructor
  · intro isId
    refine ⟨?_, isId.even, isId.some, isId.short, isId.digits⟩
    rintro (info | ⟨state, other⟩)
    · exact isId.taken info
    · exact other (isId.exact state)
  · rintro ⟨takes, even, some, short, digits⟩
    rw [not_or, not_and_not_right] at takes
    exact ⟨even, some, short, digits, takes.2, takes.1⟩

/-- The key's value names what nodeos takes it for. -/
theorem names_iff (ep : BlockEndpoint) {v : Json} (integers : ∀ n ∈ v.numbers, n.IsInteger)
    {h : Hint} : v.toValue.hint ep = some h ↔ Names ep v h := by
  have noNumber : decimal v.toValue = none ↔ ∀ n, ¬NamesNumber v n := by
    rw [Option.eq_none_iff_forall_ne_some]
    simp only [ne_eq, decimal_toValue_iff integers, not_exists, not_and]
    constructor
    · intro none n names
      exact none _ n names rfl
    · intro none num n names _
      exact none n names
  rw [hint_eq, Option.or_eq_some_iff, Option.map_eq_some_iff, Option.map_eq_none_iff, noNumber]
  constructor
  · rintro (⟨num, isNumber, rfl⟩ | ⟨notNumber, isId⟩)
    · obtain ⟨n, names, rfl⟩ := (decimal_toValue_iff integers).mp isNumber
      exact .number names
    · cases value : v.toValue with
      | str s =>
          obtain rfl := toValue_eq_str.mp value
          simp only [value] at isId
          split at isId
          · cases isId
          · rename_i takes
            obtain ⟨num, isHex, rfl⟩ := Option.map_eq_some_iff.mp isId
            obtain ⟨hex, rfl⟩ := hexBlockNum_iff.mp isHex
            exact .id notNumber (isId_iff.mpr ⟨takes, hex⟩)
      | uint _ | other => simp [value] at isId
  · intro names
    cases names with
    | number isNumber => exact .inl ⟨_, (decimal_toValue_iff integers).mpr ⟨_, isNumber, rfl⟩, rfl⟩
    | id notNumber isId =>
        obtain ⟨takes, hex⟩ := isId_iff.mp isId
        refine .inr ⟨notNumber, ?_⟩
        simp only [Json.toValue]
        rw [if_neg takes, Option.map_eq_some_iff]
        exact ⟨_, hexBlockNum_iff.mpr ⟨hex, rfl⟩, rfl⟩

/-! ## Hints -/

theorem Json.numbers_member {members : List (Text × Json)} {name : Text} {v : Json}
    (member : (name, v) ∈ members) {n : Number} (isNumber : n ∈ v.numbers) :
    n ∈ numbersOfMembers members := by
  induction members with
  | nil => cases member
  | cons first rest ih =>
      obtain ⟨other, value⟩ := first
      rw [numbersOfMembers, List.mem_append]
      rcases List.mem_cons.mp member with same | later
      · cases same
        exact .inl isNumber
      · exact .inr (ih later)

/-- Without a repeated name the first member of a name is the only one. -/
theorem find?_iff_mem {members : List (Text × Json)} (nodup : (members.map Prod.fst).Nodup)
    {key : Text} {v : Json} :
    (members.find? fun m => m.1 = key) = some (key, v) ↔ (key, v) ∈ members := by
  constructor
  · exact List.mem_of_find?_eq_some
  · intro member
    induction members with
    | nil => cases member
    | cons first rest ih =>
        rw [List.map_cons, List.nodup_cons] at nodup
        rw [List.find?_cons]
        rcases List.mem_cons.mp member with rfl | later
        · simp
        · have differs : first.1 ≠ key := by
            rintro rfl
            exact nodup.1 (List.mem_map.mpr ⟨_, later, rfl⟩)
          simp only [differs, decide_false]
          exact ih nodup.2 later

/-- A routing hint is read from the bodies nodeos reads the same way, and names the
block nodeos would look up. -/
theorem hint_reads_as_nodeos (ep : BlockEndpoint) (tree : Json) :
    (Accepted ep.key tree ↔
      (∃ members, tree = .object members ∧ (members.map Prod.fst).Nodup) ∧
        (∀ n ∈ tree.numbers, n.IsInteger) ∧ fcReads fcBudget tree = true) ∧
    (∀ h, hintOf ep tree = some h ↔ Accepted ep.key tree ∧
      ∃ members v, tree = .object members ∧ (ep.key, v) ∈ members ∧ Names ep v h) ∧
    ∀ (serde : SerdeJson) (body : List UInt8), serde.parse body = some tree →
      body.contains 92 = false → hint serde ep body = hintOf ep tree := by
  refine ⟨accepted_iff ep.key tree, ?_, ?_⟩
  · intro h
    simp only [hintOf, topLevelValue]
    cases read : TopLevel.read ep.key tree with
    | error why => simp [Accepted, read]
    | ok found =>
        have accepted : Accepted ep.key tree := ⟨found, read⟩
        have integers := ((accepted_iff ep.key tree).mp accepted).2.1
        obtain ⟨members, rfl, nodup, -, rfl⟩ := (TopLevel.read_ok_iff ..).mp read
        simp only [accepted, true_and, Option.bind_map, Option.bind_eq_some_iff]
        constructor
        · rintro ⟨⟨name, v⟩, found, isHint⟩
          obtain rfl : name = ep.key := by simpa using List.find?_some found
          have member := List.mem_of_find?_eq_some found
          refine ⟨members, v, rfl, member, (names_iff ep ?_).mp isHint⟩
          exact fun n isNumber => integers n (Json.numbers_member member isNumber)
        · rintro ⟨_, v, ⟨⟩, member, names⟩
          refine ⟨(ep.key, v), (find?_iff_mem nodup).mpr member, (names_iff ep ?_).mpr names⟩
          exact fun n isNumber => integers n (Json.numbers_member member isNumber)
  · intro serde body parsed plain
    rw [hint, plain, Bool.or_false, parsed, Option.bind_some]
    split
    · rename_i empty
      rw [serde.emptyContent body tree empty parsed]
      rfl
    · rfl

/-! ## A strict parser -/

namespace StrictJson

def isSpace (b : UInt8) : Bool := b = 32 || b = 9 || b = 10 || b = 13

def isDigit (b : UInt8) : Bool := 48 ≤ b && b ≤ 57

/-- A byte that stands for itself in a string. -/
def isPlain (b : UInt8) : Bool := b ≠ 34 && b ≠ 92 && 32 ≤ b

def skip (bytes : List UInt8) : List UInt8 := bytes.dropWhile isSpace

/-- One digit or more. -/
def digits (bytes : List UInt8) : Option (List UInt8 × List UInt8) :=
  let read := bytes.takeWhile isDigit
  if read.isEmpty then none else some (read, bytes.dropWhile isDigit)

def fraction : List UInt8 → Option (Bool × List UInt8)
  | 46 :: bytes => (digits bytes).map fun read => (true, read.2)
  | bytes => some (false, bytes)

def exponent : List UInt8 → Option (Bool × List UInt8)
  | e :: bytes =>
      if e = 101 || e = 69 then
        let unsigned :=
          match bytes with
          | sign :: rest => if sign = 43 || sign = 45 then rest else bytes
          | [] => []
        (digits unsigned).map fun read => (true, read.2)
      else some (false, e :: bytes)
  | [] => some (false, [])

def number (bytes : List UInt8) : Option (Json × List UInt8) := do
  let negative := bytes.head? = some 45
  let (integer, rest) ← digits (if negative then bytes.drop 1 else bytes)
  if integer.head? = some 48 && 1 < integer.length then none
  else
    let (hasFraction, rest) ← fraction rest
    let (hasExponent, rest) ← exponent rest
    some (.number ⟨negative, Numeral.value 10 (integer.map fun digit => digit.toNat - 48),
      hasFraction || hasExponent⟩, rest)

/-- The rest of a string, after its opening quote. -/
def text (bytes : List UInt8) : Option (Text × List UInt8) :=
  match bytes.dropWhile isPlain with
  | 34 :: rest => some (bytes.takeWhile isPlain, rest)
  | _ => none

mutual

def value : Nat → List UInt8 → Option (Json × List UInt8)
  | 0, _ => none
  | fuel + 1, bytes =>
      match skip bytes with
      | 110 :: 117 :: 108 :: 108 :: rest => some (.null, rest)
      | 116 :: 114 :: 117 :: 101 :: rest => some (.bool true, rest)
      | 102 :: 97 :: 108 :: 115 :: 101 :: rest => some (.bool false, rest)
      | 34 :: rest => (text rest).map fun read => (.string read.1, read.2)
      | 91 :: rest =>
          match skip rest with
          | 93 :: rest => some (.array [], rest)
          | rest => (elements fuel rest).map fun read => (.array read.1, read.2)
      | 123 :: rest =>
          match skip rest with
          | 125 :: rest => some (.object [], rest)
          | rest => (members fuel rest).map fun read => (.object read.1, read.2)
      | rest => number rest

def elements : Nat → List UInt8 → Option (List Json × List UInt8)
  | 0, _ => none
  | fuel + 1, bytes => do
      let (first, rest) ← value fuel bytes
      match skip rest with
      | 44 :: rest => (elements fuel rest).map fun read => (first :: read.1, read.2)
      | 93 :: rest => some ([first], rest)
      | _ => none

def members : Nat → List UInt8 → Option (List (Text × Json) × List UInt8)
  | 0, _ => none
  | fuel + 1, bytes =>
      match skip bytes with
      | 34 :: rest => do
          let (key, rest) ← text rest
          match skip rest with
          | 58 :: rest => do
              let (first, rest) ← value fuel rest
              match skip rest with
              | 44 :: rest => (members fuel rest).map fun read => ((key, first) :: read.1, read.2)
              | 125 :: rest => some ([(key, first)], rest)
              | _ => none
          | _ => none
      | _ => none

end

def parse (body : List UInt8) : Option Json :=
  (value (body.length + 1) body).bind fun read => if skip read.2 = [] then some read.1 else none

theorem skip_spaces (spaces : List UInt8) (isSpaces : ∀ b ∈ spaces, b = 32 ∨ b = 9)
    (rest : List UInt8) : skip (spaces ++ rest) = skip rest := by
  induction spaces with
  | nil => rfl
  | cons b spaces ih =>
      rw [List.forall_mem_cons] at isSpaces
      have isSpace : isSpace b = true := by
        rcases isSpaces.1 with rfl | rfl <;> rfl
      rw [List.cons_append, skip, List.dropWhile_cons, if_pos isSpace]
      exact ih isSpaces.2

/-- A body that nodeos calls empty is nothing but spaces, or an empty object between spaces. -/
theorem isEmptyContent_cases {body : List UInt8} (isEmpty : isEmptyContent body = true) :
    (∀ b ∈ body, b = 32) ∨ ∃ before inner after : List UInt8, (∀ b ∈ before, b = 32) ∧
      (∀ b ∈ inner, b = 32 ∨ b = 9) ∧ body = before ++ 123 :: (inner ++ 125 :: after) ∧
      ∀ b ∈ after, b = 32 := by
  have blanks (bytes : List UInt8) : ∀ b ∈ bytes.takeWhile (· = 32), b = 32 := fun b member => by
    simpa using List.mem_takeWhile_imp member
  unfold isEmptyContent at isEmpty
  dsimp only at isEmpty
  have split : body = body.takeWhile (· = 32) ++ body.dropWhile (· = 32) :=
    List.takeWhile_append_dropWhile.symm
  generalize body.dropWhile (· = 32) = rest at isEmpty split
  have trimmed : rest = (rest.reverse.dropWhile (· = 32)).reverse ++
      (rest.reverse.takeWhile (· = 32)).reverse := by
    rw [← List.reverse_append, List.takeWhile_append_dropWhile, List.reverse_reverse]
  have after : ∀ b ∈ (rest.reverse.takeWhile (· = 32)).reverse, b = 32 := fun b member =>
    blanks rest.reverse b (List.mem_reverse.mp member)
  generalize (rest.reverse.takeWhile (· = 32)).reverse = spaces at trimmed after
  generalize (rest.reverse.dropWhile (· = 32)).reverse = content at isEmpty trimmed
  rw [Bool.or_eq_true, List.isEmpty_iff] at isEmpty
  cases isEmpty with
  | inl none =>
      left
      rw [split, trimmed, none, List.nil_append]
      exact List.forall_mem_append.mpr ⟨blanks body, after⟩
  | inr braces =>
      right
      simp only [Bool.and_eq_true, decide_eq_true_eq, List.all_eq_true, Bool.or_eq_true] at braces
      obtain ⟨⟨⟨long, first⟩, last⟩, inner⟩ := braces
      cases content with
      | nil => cases first
      | cons b tail =>
          cases first
          have isTail : tail ≠ [] := by
            rintro rfl
            exact absurd long (by decide)
          rw [List.getLast?_cons_of_ne_nil isTail] at last
          have closed : tail = tail.dropLast ++ [125] := by
            rw [← List.dropLast_append_getLast? 125 last]
            simp
          have isRest : rest = 123 :: (tail.dropLast ++ 125 :: spaces) := by
            calc
              rest = 123 :: (tail ++ spaces) := trimmed
              _ = 123 :: ((tail.dropLast ++ [125]) ++ spaces) := by rw [← closed]
              _ = _ := by rw [List.append_assoc]; rfl
          exact ⟨_, tail.dropLast, spaces, blanks body, inner, isRest ▸ split, after⟩

/-- Strings with escapes are refused, since no hint is taken from a body with a backslash. -/
def serdeJson : SerdeJson where
  parse := parse
  emptyContent := by
    intro body tree isEmpty parsed
    have asSpaces {bytes : List UInt8} (blank : ∀ b ∈ bytes, b = 32) :
        ∀ b ∈ bytes, b = 32 ∨ b = 9 := fun b member => .inl (blank b member)
    rcases isEmptyContent_cases isEmpty with blank | ⟨before, inner, after, blank, isInner, rfl, _⟩
    · have nothing : skip body = [] := by
        have skipped := skip_spaces body (asSpaces blank) []
        rwa [List.append_nil] at skipped
      simp [parse, value, nothing, number, digits] at parsed
    · have opens : skip (before ++ 123 :: (inner ++ 125 :: after)) =
          123 :: (inner ++ 125 :: after) := skip_spaces before (asSpaces blank) _
      have closes : skip (inner ++ 125 :: after) = 125 :: after := skip_spaces inner isInner _
      simp only [parse, value, opens, closes, Option.bind_some, Option.ite_none_right_eq_some,
        Option.some.injEq] at parsed
      exact parsed.2.symm

end StrictJson

example : hint StrictJson.serdeJson .block
    "\x7b \"block_num_or_id\" : 7, \"x\": [-1, null]\x7d ".toUTF8.toList = some ⟨7, false⟩ := by
  decide +kernel

end FleetRouter.ChainApi
