import Mathlib.Init

/-!
# Computations that may fail

When a sequence of steps succeeds: each step does, with the results of those before.
-/

namespace Fallible

variable {α β ε ε' : Type}

theorem bind_eq_ok {x : Except ε α} {f : α → Except ε β} {b : β} :
    (x >>= f) = .ok b ↔ ∃ a, x = .ok a ∧ f a = .ok b := by
  cases x with
  | error err => simp [bind, Except.bind]
  | ok a => simp [bind, Except.bind]

theorem map_eq_ok {x : Except ε α} {f : α → β} {b : β} :
    x.map f = .ok b ↔ ∃ a, x = .ok a ∧ f a = b := by
  cases x with
  | error err => simp [Except.map]
  | ok a => simp [Except.map]

theorem mapError_eq_ok {x : Except ε α} {f : ε → ε'} {a : α} :
    x.mapError f = .ok a ↔ x = .ok a := by
  cases x with
  | error err =>
      constructor
      · intro same
        cases same
      · intro same
        cases same
  | ok b =>
      constructor
      · intro same
        cases same
        rfl
      · intro same
        cases same
        rfl

end Fallible
