import Mathlib.Data.List.Chain
import Mathlib.Data.List.DropRight
import Mathlib.Order.Basic

/-!
# Broadcast with loss

A bounded broadcast channel keeps the newest messages.  A receiver reads at its own cursor; when
the message there is gone it is told so, and its cursor moves to the oldest message kept.  A
receiver that recovers with a fresh cut of the state reads a gapless sequence: every element
continues the one before or starts anew.
-/

namespace Broadcast

variable {α : Type}

/-! ## The channel -/

/-- What reading at a cursor gives; the cursor is moved. -/
inductive Recv (α : Type) where
  | pending
  | lagged (next : Nat)
  | message (a : α) (next : Nat)

/-- Reads at `next` from a channel that keeps `capacity` of the messages `sent`. -/
def recv (capacity : Nat) (sent : List α) (next : Nat) : Recv α :=
  if next + capacity < sent.length then .lagged (sent.length - capacity)
  else
    match sent[next]? with
    | some a => .message a (next + 1)
    | none => .pending

variable {capacity next next' : Nat} {sent : List α} {a : α}

theorem recv_eq_message (read : recv capacity sent next = .message a next') :
    sent[next]? = some a ∧ next' = next + 1 := by
  rw [recv] at read
  split at read
  · cases read
  · split at read
    · cases read
      exact ⟨‹_›, rfl⟩
    · cases read

theorem recv_eq_lagged (read : recv capacity sent next = .lagged next') :
    next + capacity < sent.length ∧ next' = sent.length - capacity := by
  rw [recv] at read
  split at read
  · cases read
    exact ⟨‹_›, rfl⟩
  · split at read <;> cases read

/-! ## What is kept -/

/-- Trimming before more is added loses nothing that would be kept. -/
theorem rtake_rtake_append (n : Nat) (xs ys : List α) :
    (xs.rtake n ++ ys).rtake n = (xs ++ ys).rtake n := by
  simp only [List.rtake, List.length_append, List.length_drop, List.drop_append, List.drop_drop]
  congr 2 <;> omega

theorem length_rtake_le (n : Nat) (xs : List α) : (xs.rtake n).length ≤ n := by
  rw [List.rtake, List.length_drop]
  omega

/-- Dropping the first element once there are too many. -/
theorem tail_eq_rtake {n : Nat} {xs : List α} (full : xs.length = n + 1) :
    xs.tail = xs.rtake n := by
  rw [List.rtake, full, Nat.add_sub_cancel_left, List.drop_one]

theorem rtake_of_length_le {n : Nat} {xs : List α} (short : xs.length ≤ n) : xs.rtake n = xs := by
  rw [List.rtake, Nat.sub_eq_zero_of_le short, List.drop_zero]

/-! ## Gapless sequences -/

section Gapless

variable (rev : α → Nat) (fresh : α → Bool)

/-- An element that is not fresh has the revision after that of the element before. -/
def Follows (a b : α) : Prop := rev a ≤ rev b ∧ (fresh b = false → rev b = rev a + 1)

structure Gapless (xs : List α) : Prop where
  first : ∀ x ∈ xs.head?, fresh x = true
  chain : xs.IsChain (Follows rev fresh)

variable {rev fresh} {xs : List α}

theorem Gapless.nil : Gapless rev fresh [] := ⟨fun _ isHead => absurd isHead (by simp), .nil⟩

theorem Gapless.snoc (gapless : Gapless rev fresh xs) (first : xs = [] → fresh a = true)
    (follows : ∀ last ∈ xs.getLast?, Follows rev fresh last a) : Gapless rev fresh (xs ++ [a]) := by
  constructor
  · intro x isHead
    cases xs with
    | nil =>
        cases isHead
        exact first rfl
    | cons y ys => exact gapless.first x isHead
  · apply gapless.chain.append (.singleton a)
    intro last isLast x isHead
    cases isHead
    exact follows last isLast

theorem Gapless.follows (gapless : Gapless rev fresh xs) {i : Nat} {b : α} (isAt : xs[i]? = some a)
    (isNext : xs[i + 1]? = some b) : Follows rev fresh a b := by
  obtain ⟨_, rfl⟩ := List.getElem?_eq_some_iff.mp isAt
  obtain ⟨bound, rfl⟩ := List.getElem?_eq_some_iff.mp isNext
  exact List.isChain_iff_getElem.mp gapless.chain i bound

theorem Gapless.monotone (gapless : Gapless rev fresh xs) : (xs.map rev).Pairwise (· ≤ ·) := by
  apply List.IsChain.pairwise
  exact (List.isChain_map rev).mpr (gapless.chain.imp fun _ _ follows => follows.1)

end Gapless

end Broadcast
