import Mathlib.Data.List.Basic
import Mathlib.Order.Lattice

/-!
# Functions that change at finitely many points

A function over a linear order that changes its value only at listed points is
known from its values at those points.  `ChangesAt` is closed under the ways
such functions are put together, and a scan of the points finds the first place
where a predicate holds.
-/

namespace ChangePoints

variable {α β γ ι : Type} [LinearOrder α]

/-- Along a stretch that meets no further point, `f` is constant. -/
def ChangesAt (points : List α) (f : α → β) : Prop :=
  ∀ m n, m ≤ n → (∀ b ∈ points, b ≤ m ∨ n < b) → f m = f n

namespace ChangesAt

variable {points more : List α} {f : α → β}

theorem const (points : List α) (c : β) : ChangesAt points fun _ => c := fun _ _ _ _ => rfl

theorem mono (changes : ChangesAt points f) (subset : points ⊆ more) : ChangesAt more f :=
  fun m n ordered clear => changes m n ordered fun b member => clear b (subset member)

theorem map (changes : ChangesAt points f) (g : β → γ) : ChangesAt points fun n => g (f n) :=
  fun m n ordered clear => congrArg g (changes m n ordered clear)

theorem map₂ {f' : α → γ} {δ : Type} (changes : ChangesAt points f)
    (changes' : ChangesAt points f') (g : β → γ → δ) : ChangesAt points fun n => g (f n) (f' n) :=
  fun m n ordered clear => congrArg₂ g (changes m n ordered clear) (changes' m n ordered clear)

/-- Being at or above a point changes at the point. -/
theorem le {b : α} (member : b ∈ points) : ChangesAt points fun n => decide (b ≤ n) := by
  intro m n ordered clear
  rcases clear b member with below | above
  · simp [below, below.trans ordered]
  · simp [above.not_ge, (ordered.trans_lt above).not_ge]

theorem lt {b : α} (member : b ∈ points) : ChangesAt points fun n => decide (n < b) := by
  have flipped := (le member).map Bool.not
  simpa only [← decide_not, not_le] using flipped

theorem any {xs : List ι} {p : ι → α → Bool} (each : ∀ x ∈ xs, ChangesAt points (p x)) :
    ChangesAt points fun n => xs.any fun x => p x n := by
  intro m n ordered clear
  rw [Bool.eq_iff_iff, List.any_eq_true, List.any_eq_true]
  exact exists_congr fun x => and_congr_right fun member => by
    rw [each x member m n ordered clear]

end ChangesAt

/-- The first element above `start` where `stops` holds, capped at `cap`. -/
structure FirstAbove (stops : α → Prop) (start cap e : α) : Prop where
  capped : e ≤ cap
  before : ∀ n, start < n → n < e → ¬stops n
  stop : e < cap → start < e ∧ stops e

theorem FirstAbove.unique {stops : α → Prop} {start cap e e' : α}
    (first : FirstAbove stops start cap e) (first' : FirstAbove stops start cap e') : e = e' := by
  rcases lt_trichotomy e e' with less | same | more
  · obtain ⟨above, stopped⟩ := first.stop (less.trans_le first'.capped)
    exact absurd stopped (first'.before e above less)
  · exact same
  · obtain ⟨above, stopped⟩ := first'.stop (more.trans_le first.capped)
    exact absurd stopped (first.before e' above more)

end ChangePoints
