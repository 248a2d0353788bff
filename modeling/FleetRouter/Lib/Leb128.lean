import Mathlib.Algebra.Order.Ring.Nat
import Mathlib.Tactic.Ring
import FleetRouter.Lib.ByteReader

/-!
# LEB128 numbers

Unsigned LEB128 writes a number in groups of seven bits, lowest first, and
marks every byte but the last with its high bit.  `Word` is the format itself.
`decode` is the bounded reading loop: a number of full groups and then one last
byte with a bound of its own.  It accepts exactly the words that fit
(`decode_eq_ok`), and what `encode` writes is one of them.
-/

namespace Leb128

open ByteReader

/-- The byte strings of the format and the numbers they stand for.  Padding
with zero groups is allowed. -/
inductive Word : List UInt8 → Nat → Prop
  | last (low : UInt8) : low.toNat < 128 → Word [low] low.toNat
  | more (low : UInt8) (word : List UInt8) (high : Nat) :
      128 ≤ low.toNat → Word word high →
      Word (low :: word) (low.toNat - 128 + 128 * high)

/-- The numbers below this bound fit `groups` full groups and a last byte of at
most `lastMax`. -/
def limit (groups : Nat) (lastMax : UInt8) : Nat := (lastMax.toNat + 1) * 128 ^ groups

variable {ε : Type}

/-- The reading loop.  `shift` and `value` are its accumulators. -/
def decode (eof bad : ε) (lastMax : UInt8) : Nat → Nat → Nat → Read ε Nat
  | 0, shift, value => do
      let last ← byte eof
      if lastMax < last then fail bad else pure (value ||| last.toNat <<< shift)
  | groups + 1, shift, value => do
      let low ← byte eof
      let value := value ||| (low &&& 0x7f).toNat <<< shift
      if low &&& 0x80 = 0 then pure value
      else decode eof bad lastMax groups (shift + 7) value

/-- Write a number in at most `groups` full groups and a last byte. -/
def encode : Nat → Nat → List UInt8
  | 0, value => [value.toUInt8]
  | groups + 1, value =>
      if value >>> 7 = 0 then [(value &&& 0x7f).toUInt8]
      else (value &&& 0x7f ||| 0x80).toUInt8 :: encode groups (value >>> 7)

/-! ## Bits and groups -/

private theorem low_bits (low : UInt8) : (low &&& 0x7f).toNat = low.toNat % 128 := by
  rw [UInt8.toNat_and]
  exact Nat.and_two_pow_sub_one_eq_mod low.toNat 7

private theorem high_bit (low : UInt8) : low &&& 0x80 = 0 ↔ low.toNat < 128 := by
  have all : ∀ n : Fin 256, (n.val &&& 128 = 0 ↔ n.val < 128) := by
    decide +kernel
  rw [← UInt8.toNat_inj, UInt8.toNat_and]
  exact all ⟨low.toNat, low.toNat_lt⟩

private theorem or_group {value shift : Nat} (small : value < 2 ^ shift) (group : Nat) :
    value ||| group <<< shift = value + group * 2 ^ shift := by
  rw [Nat.or_comm, Nat.shiftLeft_eq, Nat.mul_comm, ← Nat.two_pow_add_eq_or_of_lt small]
  omega

private theorem pow_shift_succ (shift : Nat) : 2 ^ (shift + 7) = 2 ^ shift * 128 := by
  rw [Nat.pow_add]

/-- One more group is below the next power of two. -/
private theorem add_group_lt {value shift : Nat} (small : value < 2 ^ shift) (low : Nat) :
    value + low % 128 * 2 ^ shift < 2 ^ (shift + 7) := by
  rw [pow_shift_succ]
  have bound : low % 128 * 2 ^ shift ≤ 127 * 2 ^ shift :=
    Nat.mul_le_mul_right _ (by omega)
  omega

/-- A single group fits whenever there is one full group. -/
private theorem group_le_limit (groups : Nat) {lastMax : UInt8} :
    128 ≤ limit (groups + 1) lastMax := by
  have power : 128 ^ 1 ≤ 128 ^ (groups + 1) := Nat.pow_le_pow_right (by decide) (by omega)
  exact power.trans (Nat.le_mul_of_pos_left _ (Nat.succ_pos _))

theorem Word.length_pos {word : List UInt8} {value : Nat} (isWord : Word word value) :
    0 < word.length := by
  cases isWord <;> simp

/-! ## The reading loop -/

variable {eof bad : ε} {lastMax : UInt8}

theorem decode_streaming (groups shift value : Nat) :
    Streaming eof (decode eof bad lastMax groups shift value) := by
  induction groups generalizing shift value with
  | zero =>
      exact Streaming.byte.bind fun _ => (Streaming.fail bad).ite (Streaming.pure _)
  | succ groups ih =>
      exact Streaming.byte.bind fun _ => (Streaming.pure _).ite (ih _ _)

/-- Every word that fits is read, on top of the groups already taken. -/
theorem decode_reads {word : List UInt8} {number : Nat} (isWord : Word word number)
    {groups shift value : Nat} (small : value < 2 ^ shift)
    (short : word.length ≤ groups + 1) (fits : number < limit groups lastMax) :
    Reads (decode eof bad lastMax groups shift value) word
      (value + number * 2 ^ shift) := by
  induction groups generalizing word number shift value with
  | zero =>
      cases isWord with
      | more low word high isMore isTail =>
          have := isTail.length_pos
          simp only [List.length_cons] at short
          omega
      | last low isLow =>
          have atMost : ¬lastMax < low := by
            rw [UInt8.lt_iff_toNat_lt]
            simp only [limit, Nat.pow_zero, Nat.mul_one] at fits
            omega
          intro tail
          simp only [decode]
          rw [bind_of_ok (Reads.byte low tail), if_neg atMost, or_group small]
          rfl
  | succ groups ih =>
      cases isWord with
      | last low isLow =>
          intro tail
          simp only [decode]
          rw [bind_of_ok (Reads.byte low tail), if_pos ((high_bit low).mpr isLow),
            low_bits, or_group small, Nat.mod_eq_of_lt isLow]
          rfl
      | more low word high isMore isTail =>
          have highFits : high < limit groups lastMax := by
            simp only [limit, Nat.pow_succ] at fits ⊢
            rw [← Nat.mul_assoc] at fits
            omega
          have lowMod : low.toNat % 128 = low.toNat - 128 := by
            have := low.toNat_lt
            omega
          have read := ih isTail (add_group_lt small low.toNat)
            (by simpa using short) highFits
          intro tail
          simp only [decode]
          rw [List.cons_append, ← List.singleton_append,
            bind_of_ok (Reads.byte low (word ++ tail)),
            if_neg (by rw [high_bit]; omega), low_bits, or_group small, read tail,
            lowMod, pow_shift_succ]
          congr 2
          ring

/-- Whatever is read is a word that fits. -/
theorem decode_sound {groups shift value result : Nat} {input rest : List UInt8}
    (small : value < 2 ^ shift)
    (success : decode eof bad lastMax groups shift value input = .ok (result, rest))
    (lastSmall : lastMax.toNat < 128) :
    ∃ word number, input = word ++ rest ∧ Word word number ∧
      word.length ≤ groups + 1 ∧ number < limit groups lastMax ∧
      result = value + number * 2 ^ shift := by
  induction groups generalizing shift value input with
  | zero =>
      simp only [decode] at success
      obtain ⟨last, middle, firstOk, nextOk⟩ := bind_eq_ok.mp success
      cases input with
      | nil => cases firstOk
      | cons first tail =>
          cases firstOk
          split at nextOk
          · cases nextOk
          · rename_i atMost
            rw [or_group small] at nextOk
            cases nextOk
            rw [UInt8.lt_iff_toNat_lt] at atMost
            exact ⟨[last], last.toNat, rfl, .last last (by omega), by simp,
              by simp [limit]; omega, rfl⟩
  | succ groups ih =>
      simp only [decode] at success
      obtain ⟨low, middle, firstOk, nextOk⟩ := bind_eq_ok.mp success
      cases input with
      | nil => cases firstOk
      | cons first tail =>
          cases firstOk
          rw [low_bits, or_group small] at nextOk
          split at nextOk
          · rename_i isLow
            rw [high_bit] at isLow
            cases nextOk
            exact ⟨[low], low.toNat, rfl, .last low isLow, by simp,
              isLow.trans_le (group_le_limit groups), by rw [Nat.mod_eq_of_lt isLow]⟩
          · rename_i isMore
            rw [high_bit] at isMore
            obtain ⟨word, high, rfl, isWord, short, fits, equal⟩ :=
              ih (add_group_lt small low.toNat) nextOk
            have lowMod : low.toNat % 128 = low.toNat - 128 := by
              have := low.toNat_lt
              omega
            refine ⟨low :: word, low.toNat - 128 + 128 * high, rfl,
              .more low word high (by omega) isWord, by simpa using short, ?_, ?_⟩
            · have := low.toNat_lt
              simp only [limit, Nat.pow_succ] at fits ⊢
              rw [← Nat.mul_assoc]
              omega
            · rw [equal, lowMod, pow_shift_succ]
              ring

/-- The loop started without accumulated groups accepts exactly the words that
fit. -/
theorem decode_eq_ok {groups number : Nat} {input rest : List UInt8}
    (lastSmall : lastMax.toNat < 128) :
    decode eof bad lastMax groups 0 0 input = .ok (number, rest) ↔
      ∃ word, input = word ++ rest ∧ Word word number ∧
        word.length ≤ groups + 1 ∧ number < limit groups lastMax := by
  constructor
  · intro success
    obtain ⟨word, number', equal, isWord, short, fits, rfl⟩ :=
      decode_sound (by simp) success lastSmall
    simp only [Nat.pow_zero, Nat.mul_one, Nat.zero_add]
    exact ⟨word, equal, isWord, short, fits⟩
  · rintro ⟨word, rfl, isWord, short, fits⟩
    have read : decode eof bad lastMax groups 0 0 (word ++ rest) = _ :=
      decode_reads isWord (by simp) short fits rest
    simpa using read

/-! ## Writing -/

/-- What is written stands for the number. -/
theorem encode_word {groups value : Nat} (small : value < 128 ^ (groups + 1)) :
    Word (encode groups value) value := by
  induction groups generalizing value with
  | zero =>
      have byteValue : value.toUInt8.toNat = value := by
        simp only [Nat.toUInt8_eq, UInt8.toNat_ofNat']
        omega
      have last := Word.last value.toUInt8 (by omega)
      rwa [byteValue] at last
  | succ groups ih =>
      have mask : value &&& 0x7f = value % 128 := Nat.and_two_pow_sub_one_eq_mod value 7
      have rest : value >>> 7 = value / 128 := Nat.shiftRight_eq_div_pow value 7
      simp only [encode, mask, rest]
      split
      · rename_i single
        have byteValue : (value % 128).toUInt8.toNat = value := by
          simp only [Nat.toUInt8_eq, UInt8.toNat_ofNat']
          omega
        have last := Word.last (value % 128).toUInt8 (by omega)
        rwa [byteValue] at last
      · have group : value % 128 < 2 ^ 7 := by omega
        have marked : value % 128 ||| 128 = value % 128 + 128 := or_group group 1
        have byteValue : (value % 128 ||| 128).toUInt8.toNat = value % 128 + 128 := by
          simp only [marked, Nat.toUInt8_eq, UInt8.toNat_ofNat']
          omega
        have highSmall : value / 128 < 128 ^ (groups + 1) := by
          rw [Nat.pow_succ] at small
          omega
        have word := Word.more (value % 128 ||| 128).toUInt8 _ _ (by omega) (ih highSmall)
        rw [byteValue] at word
        have whole : value % 128 + 128 - 128 + 128 * (value / 128) = value := by omega
        rwa [whole] at word

theorem encode_length (groups value : Nat) : (encode groups value).length ≤ groups + 1 := by
  induction groups generalizing value with
  | zero => simp [encode]
  | succ groups ih =>
      simp only [encode]
      split
      · simp
      · simpa using ih (value >>> 7)

end Leb128
