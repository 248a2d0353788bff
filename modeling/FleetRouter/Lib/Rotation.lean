import Mathlib.Data.Nat.Periodic

/-!
# Rotation

Some positions of a circle are marked.  A pointer that moves round the circle stands
on a shift and picks the marked position it reaches first.  Over whole turns a marked
position is picked as often as there are positions in the gap that ends in it.
-/

namespace Rotation

open Finset

variable {k shift position other : Nat} {marked : Nat → Bool}

/-- Steps forward from the shift to the position. -/
def rank (k shift position : Nat) : Nat := (position + k - shift) % k

theorem rank_of_le (le : shift ≤ position) (inside : position < k) :
    rank k shift position = position - shift := by
  have ahead : position + k - shift = position - shift + k := by omega
  rw [rank, ahead, Nat.add_mod_right]
  exact Nat.mod_eq_of_lt (by omega)

theorem rank_of_lt (lt : position < shift) (inside : shift < k) :
    rank k shift position = position + k - shift :=
  Nat.mod_eq_of_lt (by omega)

theorem rank_lt (inside : position < k) : rank k shift position < k :=
  Nat.mod_lt _ (Nat.zero_lt_of_lt inside)

/-- Going back as far as the rank leads to the shift. -/
theorem rank_rank (isShift : shift < k) (inside : position < k) :
    rank k (rank k shift position) position = shift := by
  rcases Nat.lt_or_ge position shift with behind | ahead
  · rw [rank_of_lt behind isShift, rank_of_lt (by omega) (by omega)]
    omega
  · rw [rank_of_le ahead inside, rank_of_le (by omega) inside]
    omega

theorem rank_injective (isShift : shift < k) (inside : position < k) (isOther : other < k)
    (same : rank k shift position = rank k shift other) : position = other := by
  rcases Nat.lt_or_ge position shift with behind | ahead <;>
    rcases Nat.lt_or_ge other shift with otherBehind | otherAhead
  · rw [rank_of_lt behind isShift, rank_of_lt otherBehind isShift] at same
    omega
  · rw [rank_of_lt behind isShift, rank_of_le otherAhead isOther] at same
    omega
  · rw [rank_of_le ahead inside, rank_of_lt otherBehind isShift] at same
    omega
  · rw [rank_of_le ahead inside, rank_of_le otherAhead isOther] at same
    omega

/-- Between the shift and the position lie the positions just before the latter. -/
theorem rank_lt_rank_iff (isShift : shift < k) (inside : position < k) (isOther : other < k) :
    rank k shift other < rank k shift position ↔
      0 < rank k other position ∧ rank k other position ≤ rank k shift position := by
  rcases Nat.lt_or_ge position shift with behind | ahead <;>
    rcases Nat.lt_or_ge other shift with otherBehind | otherAhead <;>
    rcases Nat.lt_or_ge position other with after | before <;>
    simp only [rank_of_lt, rank_of_le, *] <;> omega

/-- No marked position is reached before this one. -/
def picks (k : Nat) (marked : Nat → Bool) (shift position : Nat) : Prop :=
  ∀ other < k, marked other = true → rank k shift position ≤ rank k shift other

/-- Positions from the marked one before, exclusive, to this one. -/
def gap (k : Nat) (marked : Nat → Bool) (position : Nat) : Nat :=
  (List.range (k - 1)).findIdx (fun back => marked (rank k (back + 1) position)) + 1

theorem gap_le (inside : position < k) : gap k marked position ≤ k := by
  have bound : (List.range (k - 1)).findIdx (fun back => marked (rank k (back + 1) position)) ≤
      (List.range (k - 1)).length := List.findIdx_le_length
  rw [List.length_range] at bound
  unfold gap
  omega

/-- Less than a gap back no position is marked. -/
theorem lt_gap_iff {back : Nat} (inside : back < k) :
    back < gap k marked position ↔
      ∀ step, 0 < step → step ≤ back → marked (rank k step position) = false := by
  unfold gap
  constructor
  · intro less step positive within
    obtain ⟨before, rfl⟩ := Nat.exists_eq_succ_of_ne_zero positive.ne'
    have sooner : before < (List.range (k - 1)).findIdx
        fun back => marked (rank k (back + 1) position) := by omega
    simpa using List.not_of_lt_findIdx sooner
  · intro unmarked
    by_contra reached
    have isBack : (List.range (k - 1)).findIdx
        (fun back => marked (rank k (back + 1) position)) < (List.range (k - 1)).length := by
      rw [List.length_range]
      omega
    have found := List.findIdx_getElem (w := isBack)
    rw [List.getElem_range] at found
    have clear := unmarked _ (Nat.succ_pos _) (Nat.le_of_not_lt reached)
    rw [clear] at found
    cases found

/-- A position is picked from the shifts of its gap. -/
theorem picks_iff_lt_gap (isShift : shift < k) (inside : position < k) :
    picks k marked shift position ↔ rank k shift position < gap k marked position := by
  rw [lt_gap_iff (rank_lt inside)]
  constructor
  · intro first step positive within
    by_contra isMarked
    have isStep : step < k := within.trans_lt (rank_lt inside)
    have least := first (rank k step position) (rank_lt inside) (by simpa using isMarked)
    have sooner := (rank_lt_rank_iff isShift inside (rank_lt inside)).mpr
      (by rw [rank_rank isStep inside]; exact ⟨positive, within⟩)
    exact sooner.not_ge least
  · intro unmarked other isOther isMarked
    by_contra sooner
    have between := (rank_lt_rank_iff isShift inside isOther).mp (Nat.lt_of_not_le sooner)
    have clear := unmarked _ between.1 between.2
    rw [rank_rank isOther inside, isMarked] at clear
    cases clear

/-- In one turn a position is picked once for each position of its gap. -/
theorem card_picks (inside : position < k) [DecidablePred (picks k marked · position)] :
    #{s ∈ range k | picks k marked s position} = gap k marked position := by
  have sameCount : #{s ∈ range k | picks k marked s position} =
      #(range (gap k marked position)) := by
    apply card_nbij' (rank k · position) (rank k · position)
    · intro s isShift
      simp only [coe_filter, mem_range, Set.mem_ofPred_eq] at isShift
      simpa using (picks_iff_lt_gap isShift.1 inside).mp isShift.2
    · intro back within
      simp only [coe_range, Set.mem_Iio] at within
      have isBack := within.trans_le (gap_le inside)
      simp only [coe_filter, mem_range, Set.mem_ofPred_eq]
      refine ⟨rank_lt inside, (picks_iff_lt_gap (rank_lt inside) inside).mpr ?_⟩
      rwa [rank_rank isBack inside]
    · intro s isShift
      simp only [coe_filter, mem_range, Set.mem_ofPred_eq] at isShift
      exact rank_rank isShift.1 inside
    · intro back within
      simp only [coe_range, Set.mem_Iio] at within
      exact rank_rank (within.trans_le (gap_le inside)) inside
  rw [sameCount, card_range]

/-- Over whole turns a periodic event happens that many times as often as in one. -/
theorem card_turns (p : Nat → Prop) [DecidablePred p] (periodic : Function.Periodic p k)
    (start turns : Nat) :
    #{x ∈ Ico start (start + k * turns) | p x} = turns * #{x ∈ range k | p x} := by
  have whole : Function.Periodic p (k * turns) := by
    rw [Nat.mul_comm]
    exact periodic.nat_mul turns
  rw [Nat.filter_Ico_card_eq_of_periodic start (k * turns) p whole,
    ← Nat.count_eq_card_filter_range]
  clear whole
  induction turns with
  | zero => simp
  | succ turns ih =>
      have later : Nat.count (fun x => p (k * turns + x)) k = Nat.count p k := by
        congr! 2 with x
        rw [Nat.add_comm, Nat.mul_comm]
        exact (periodic.nat_mul turns x).to_iff
      rw [Nat.mul_succ, Nat.count_add, ih, later, Nat.succ_mul]

end Rotation
