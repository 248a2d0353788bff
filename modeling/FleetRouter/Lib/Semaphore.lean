import Mathlib.Algebra.GroupWithZero.Nat
import Mathlib.Algebra.Order.BigOperators.Group.List
import Mathlib.Data.List.Nodup

/-!
# Counting semaphores and tallies

A semaphore hands out a fixed number of permits and takes them back.  A tally adds a
count over a list of keys; it follows an update of the count at one key.
-/

/-- A semaphore with this many permits. -/
structure Semaphore (permits : Nat) where
  available : Nat
  le : available ≤ permits
  deriving DecidableEq, Repr

namespace Semaphore

variable {permits : Nat} {s s' : Semaphore permits}

def new (permits : Nat) : Semaphore permits := ⟨permits, le_rfl⟩

/-- The permits handed out. -/
def held (s : Semaphore permits) : Nat := permits - s.available

def tryAcquire (s : Semaphore permits) : Option (Semaphore permits) :=
  if 0 < s.available then some ⟨s.available - 1, (Nat.sub_le _ _).trans s.le⟩ else none

/-- A permit that was handed out comes back. -/
def release (s : Semaphore permits) : Option (Semaphore permits) :=
  if below : s.available < permits then some ⟨s.available + 1, below⟩ else none

@[simp] theorem held_new : (new permits).held = 0 := Nat.sub_self permits

theorem held_tryAcquire (acquired : s.tryAcquire = some s') : s'.held = s.held + 1 := by
  have le := s.le
  simp only [tryAcquire, Option.ite_none_right_eq_some, Option.some.injEq] at acquired
  obtain ⟨positive, rfl⟩ := acquired
  simp only [held]
  omega

theorem held_release (released : s.release = some s') : s'.held + 1 = s.held := by
  simp only [release, Option.dite_none_right_eq_some, Option.some.injEq] at released
  obtain ⟨below, rfl⟩ := released
  simp only [held]
  omega

end Semaphore

namespace Tally

variable {κ : Type}

/-- The sum of a count over some keys. -/
def tally (count : κ → Nat) (keys : List κ) : Nat := (keys.map count).sum

variable {count : κ → Nat} {keys others : List κ}

@[simp] theorem tally_nil : tally count [] = 0 := rfl

@[simp] theorem tally_cons (key : κ) :
    tally count (key :: keys) = count key + tally count keys := by
  simp [tally]

section Update

variable (count) [DecidableEq κ] {key : κ} (value : Nat)

theorem tally_update_of_not_mem (absent : key ∉ keys) :
    tally (Function.update count key value) keys = tally count keys := by
  induction keys with
  | nil => rfl
  | cons first keys ih =>
      rw [List.mem_cons, not_or] at absent
      rw [tally_cons, tally_cons, ih absent.2, Function.update_of_ne (Ne.symm absent.1)]

theorem tally_update_of_mem (nodup : keys.Nodup) (member : key ∈ keys) :
    tally (Function.update count key value) keys + count key = tally count keys + value := by
  induction keys with
  | nil => cases member
  | cons first keys ih =>
      rw [List.nodup_cons] at nodup
      rw [tally_cons, tally_cons]
      rcases List.mem_cons.mp member with rfl | member
      · rw [tally_update_of_not_mem count value nodup.1, Function.update_self]
        omega
      · have other : first ≠ key := by
          rintro rfl
          exact nodup.1 member
        rw [Function.update_of_ne other]
        have rest := ih nodup.2 member
        omega

end Update

/-- Keys that count nothing do not matter. -/
theorem tally_le_of_counted (nodup : keys.Nodup)
    (counted : ∀ key ∈ keys, 0 < count key → key ∈ others) :
    tally count keys ≤ tally count others := by
  induction keys generalizing others with
  | nil => exact Nat.zero_le _
  | cons first keys ih =>
      rw [List.nodup_cons] at nodup
      rw [List.forall_mem_cons] at counted
      rw [tally_cons]
      rcases Nat.eq_zero_or_pos (count first) with zero | positive
      · rw [zero, Nat.zero_add]
        exact ih nodup.2 counted.2
      · obtain ⟨before, after, rfl⟩ := List.append_of_mem (counted.1 positive)
        have rest : tally count keys ≤ tally count (before ++ after) := by
          apply ih nodup.2
          intro key member counts
          have found := counted.2 key member counts
          rw [List.mem_append, List.mem_cons] at found
          rcases found with found | rfl | found
          · exact List.mem_append_left _ found
          · exact absurd member nodup.1
          · exact List.mem_append_right _ found
        simp only [tally, List.map_append, List.sum_append, List.map_cons, List.sum_cons] at rest ⊢
        omega

end Tally
