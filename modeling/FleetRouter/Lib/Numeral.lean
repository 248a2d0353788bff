import Mathlib.Data.Nat.Digits.Defs
import Mathlib.Algebra.Ring.Parity
import Mathlib.Data.List.Induction

/-!
# Numerals

A numeral is a list of digits, the most significant first.  `parse` is the loop that
reads one with a check at every digit; it fails exactly when the value does not fit.
Reading two digits as one squares the radix and keeps the value.
-/

namespace Numeral

variable {bound radix : Nat} {digits : List Nat}

/-- The value of a numeral. -/
def value (radix : Nat) (digits : List Nat) : Nat := Nat.ofDigits radix digits.reverse

@[simp] theorem value_nil : value radix [] = 0 := rfl

theorem value_concat (radix : Nat) (digits : List Nat) (last : Nat) :
    value radix (digits ++ [last]) = value radix digits * radix + last := by
  rw [value, List.reverse_append, List.reverse_singleton, List.singleton_append,
    Nat.ofDigits_cons, value, Nat.mul_comm, Nat.add_comm]

theorem value_cons (radix first : Nat) (digits : List Nat) :
    value radix (first :: digits) = first * radix ^ digits.length + value radix digits := by
  rw [value, List.reverse_cons, Nat.ofDigits_append, Nat.ofDigits_singleton, List.length_reverse,
    value, Nat.mul_comm, Nat.add_comm]

theorem value_lt (isRadix : 1 < radix) (small : ∀ digit ∈ digits, digit < radix) :
    value radix digits < radix ^ digits.length := by
  rw [value, ← List.length_reverse]
  exact Nat.ofDigits_lt_base_pow_length isRadix (by simpa using small)

/-! ## Reading with a bound -/

/-- Reads digit after digit and fails once the value reaches the bound. -/
def parse (bound radix : Nat) (digits : List Nat) : Option Nat :=
  digits.foldlM
    (fun read digit => if read * radix + digit < bound then some (read * radix + digit) else none) 0

theorem parse_concat (bound radix : Nat) (digits : List Nat) (last : Nat) :
    parse bound radix (digits ++ [last]) = (parse bound radix digits).bind fun read =>
      if read * radix + last < bound then some (read * radix + last) else none := by
  rw [parse, List.foldlM_append]
  simp [parse]

/-- A numeral is read when its value is below the bound: no part of it is greater. -/
theorem parse_eq (positive : 0 < bound) (isRadix : 0 < radix) (digits : List Nat) :
    parse bound radix digits =
      if value radix digits < bound then some (value radix digits) else none := by
  induction digits using List.reverseRecOn with
  | nil => simp [parse, positive]
  | append_singleton digits last ih =>
      rw [parse_concat, ih, value_concat]
      split
      · rfl
      · rename_i large
        have grows : value radix digits ≤ value radix digits * radix + last :=
          (Nat.le_mul_of_pos_right _ isRadix).trans (Nat.le_add_right ..)
        rw [if_neg (by omega)]
        rfl

/-! ## Pairs of digits -/

/-- Two digits read as one. -/
def pairs (radix : Nat) : List Nat → List Nat
  | [] | [_] => []
  | high :: low :: rest => (high * radix + low) :: pairs radix rest

theorem length_pairs (radix : Nat) (digits : List Nat) :
    (pairs radix digits).length = digits.length / 2 := by
  fun_induction pairs radix digits with
  | case1 => rfl
  | case2 => simp
  | case3 high low rest ih =>
      simp only [List.length_cons, ih]
      omega

theorem value_pairs (radix : Nat) (even : Even digits.length) :
    value (radix * radix) (pairs radix digits) = value radix digits := by
  fun_induction pairs radix digits with
  | case1 => rfl
  | case2 => simp at even
  | case3 high low rest ih =>
      have evenRest : Even rest.length := by
        simpa [Nat.even_add_one] using even
      obtain ⟨half, isHalf⟩ := evenRest
      have powers : (radix * radix) ^ (pairs radix rest).length = radix ^ rest.length := by
        rw [length_pairs, isHalf, ← Nat.pow_two, ← Nat.pow_mul]
        congr 1
        omega
      rw [value_cons, value_cons, value_cons, ih ⟨half, isHalf⟩, powers, List.length_cons,
        Nat.pow_succ, Nat.add_mul, Nat.mul_assoc, Nat.mul_comm radix, Nat.add_assoc]

theorem pairs_take (radix : Nat) (digits : List Nat) (count : Nat) :
    pairs radix (digits.take (2 * count)) = (pairs radix digits).take count := by
  fun_induction pairs radix digits generalizing count with
  | case1 => simp [pairs]
  | case2 only =>
      cases count with
      | zero => rfl
      | succ count => simp [Nat.mul_succ, pairs]
  | case3 high low rest ih =>
      cases count with
      | zero => rfl
      | succ count =>
          rw [Nat.mul_succ, List.take_succ_cons, List.take_succ_cons, pairs, ih,
            List.take_succ_cons]

theorem pairs_zeros (radix count : Nat) :
    pairs radix (List.replicate (2 * count) 0) = List.replicate count 0 := by
  induction count with
  | zero => rfl
  | succ count ih =>
      rw [Nat.mul_succ, List.replicate_succ, List.replicate_succ, pairs, ih, Nat.zero_mul,
        List.replicate_succ]

theorem pairs_append (radix : Nat) (even : Even digits.length) (more : List Nat) :
    pairs radix (digits ++ more) = pairs radix digits ++ pairs radix more := by
  fun_induction pairs radix digits with
  | case1 => rfl
  | case2 => simp at even
  | case3 high low rest ih =>
      have evenRest : Even rest.length := by
        simpa [Nat.even_add_one] using even
      rw [List.cons_append, List.cons_append, pairs, ih evenRest, List.cons_append]

end Numeral
