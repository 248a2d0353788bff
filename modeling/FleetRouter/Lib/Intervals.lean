import Mathlib.Data.List.Sort
import Mathlib.Order.Lattice

/-!
# Lists of half-open intervals

Merging a list of intervals into its components, the gaps between components,
and what is left of one interval outside the others.  Every operation is
described by the points its intervals cover and by the shape of its result:
`Separated` lists are sorted, and their intervals are non-empty and do not
touch.
-/

namespace Intervals

/-- A half-open interval, empty when `end ≤ begin`. -/
structure Interval (α : Type) where
  begin : α
  «end» : α
  deriving DecidableEq, Repr

@[simp] theorem Interval.eta {α : Type} (r : Interval α) : Interval.mk r.begin r.end = r := rfl

variable {α : Type} [LinearOrder α]

namespace Interval

instance : Membership α (Interval α) := ⟨fun r n => r.begin ≤ n ∧ n < r.end⟩

theorem mem_iff {r : Interval α} {n : α} : n ∈ r ↔ r.begin ≤ n ∧ n < r.end := Iff.rfl

/-- The order intervals are sorted by: by begin, then by end. -/
def le (r s : Interval α) : Prop := r.begin < s.begin ∨ r.begin = s.begin ∧ r.end ≤ s.end

instance : DecidableRel (le (α := α)) := fun r s =>
  inferInstanceAs (Decidable (r.begin < s.begin ∨ r.begin = s.begin ∧ r.end ≤ s.end))

instance : Std.Total (le (α := α)) where
  total r s := by
    rcases lt_trichotomy r.begin s.begin with below | same | above
    · exact .inl (.inl below)
    · rcases le_total r.end s.end with shorter | longer
      · exact .inl (.inr ⟨same, shorter⟩)
      · exact .inr (.inr ⟨same.symm, longer⟩)
    · exact .inr (.inl above)

instance : IsTrans (Interval α) le where
  trans r s t := by
    rintro (first | ⟨first, shorter⟩) (second | ⟨second, longer⟩)
    · exact .inl (first.trans second)
    · exact .inl (second ▸ first)
    · exact .inl (first ▸ second)
    · exact .inr ⟨first.trans second, shorter.trans longer⟩

theorem begin_le_of_le {r s : Interval α} (ordered : r.le s) : r.begin ≤ s.begin := by
  rcases ordered with below | ⟨same, -⟩
  · exact below.le
  · exact same.le

/-- A non-empty interval inside another ends before it does. -/
theorem end_le_of_subset {r s : Interval α} (nonempty : r.begin < r.end)
    (inside : ∀ n ∈ r, n ∈ s) : r.end ≤ s.end := by
  by_contra longer
  have begins : r.begin < s.end := (inside r.begin ⟨le_rfl, nonempty⟩).2
  have stops : s.end ∈ s := inside s.end ⟨begins.le, not_le.mp longer⟩
  exact lt_irrefl _ stops.2

end Interval

/-- The point lies in one of the intervals. -/
def Covered (rs : List (Interval α)) (n : α) : Prop := ∃ r ∈ rs, n ∈ r

@[simp] theorem covered_nil (n : α) : ¬Covered [] n := by simp [Covered]

@[simp] theorem covered_cons (r : Interval α) (rs : List (Interval α)) (n : α) :
    Covered (r :: rs) n ↔ n ∈ r ∨ Covered rs n := by simp [Covered]

@[simp] theorem covered_append (rs ss : List (Interval α)) (n : α) :
    Covered (rs ++ ss) n ↔ Covered rs n ∨ Covered ss n := by
  simp only [Covered, List.mem_append, or_and_right, exists_or]

/-- Sorted, disjoint, non-empty and not touching. -/
structure Separated (rs : List (Interval α)) : Prop where
  nonempty : ∀ r ∈ rs, r.begin < r.end
  apart : rs.Pairwise fun r s => r.end < s.begin

namespace Separated

variable {r : Interval α} {rs : List (Interval α)}

theorem nil : Separated ([] : List (Interval α)) := ⟨by simp, .nil⟩

theorem cons_iff : Separated (r :: rs) ↔
    r.begin < r.end ∧ (∀ s ∈ rs, r.end < s.begin) ∧ Separated rs := by
  constructor
  · intro separated
    have apart := List.pairwise_cons.mp separated.apart
    exact ⟨separated.nonempty r (by simp), apart.1,
      ⟨fun s member => separated.nonempty s (by simp [member]), apart.2⟩⟩
  · rintro ⟨nonempty, after, separated⟩
    exact ⟨by simpa using ⟨nonempty, separated.nonempty⟩,
      List.pairwise_cons.mpr ⟨after, separated.apart⟩⟩

theorem append {ss : List (Interval α)} (first : Separated rs) (second : Separated ss)
    (apart : ∀ r ∈ rs, ∀ s ∈ ss, r.end < s.begin) : Separated (rs ++ ss) where
  nonempty r member := by
    rcases List.mem_append.mp member with inFirst | inSecond
    · exact first.nonempty r inFirst
    · exact second.nonempty r inSecond
  apart := List.pairwise_append.mpr ⟨first.apart, second.apart, apart⟩

/-- Points behind the first interval of a separated list are not in it. -/
theorem not_covered_of_le {n : α} (separated : Separated (r :: rs)) (before : n ≤ r.end) :
    ¬Covered rs n := by
  rintro ⟨s, member, inside⟩
  have after := (cons_iff.mp separated).2.1 s member
  exact absurd inside.1 (not_le.mpr (before.trans_lt after))

/-- A point is behind some interval exactly when it is behind the first. -/
theorem exists_end_le {n : α} (separated : Separated rs) :
    (∃ r ∈ rs, r.end ≤ n) ↔ ∃ first ∈ rs.head?, first.end ≤ n := by
  cases rs with
  | nil => simp
  | cons first rest =>
      obtain ⟨-, after, later⟩ := cons_iff.mp separated
      simp only [List.head?_cons, Option.mem_def, Option.some.injEq, exists_eq_left']
      constructor
      · rintro ⟨r, member, behind⟩
        rcases List.mem_cons.mp member with rfl | member
        · exact behind
        · exact (after r member).le.trans ((later.nonempty r member).le.trans behind)
      · exact fun behind => ⟨first, by simp, behind⟩

/-- A point is before some interval exactly when it is before the last. -/
theorem exists_lt_begin {n : α} (separated : Separated rs) :
    (∃ r ∈ rs, n < r.begin) ↔ ∃ last ∈ rs.getLast?, n < last.begin := by
  constructor
  · rintro ⟨r, member, before⟩
    rcases List.eq_nil_or_concat' rs with rfl | ⟨init, last, rfl⟩
    · cases member
    · refine ⟨last, by simp, ?_⟩
      rcases List.mem_append.mp member with earlier | isLast
      · have apart := (List.pairwise_append.mp separated.apart).2.2 r earlier last (by simp)
        exact before.trans ((separated.nonempty r member).trans apart)
      · rwa [← List.mem_singleton.mp isLast]
  · rintro ⟨last, isLast, before⟩
    exact ⟨last, List.mem_of_getLast? isLast, before⟩

/-- The first interval begins first. -/
theorem begin_head_le {first : Interval α} (separated : Separated rs) (isFirst : first ∈ rs.head?)
    (member : r ∈ rs) : first.begin ≤ r.begin := by
  cases rs with
  | nil => cases member
  | cons s rest =>
      cases isFirst
      obtain ⟨nonempty, after, -⟩ := cons_iff.mp separated
      rcases List.mem_cons.mp member with rfl | member
      · exact le_rfl
      · exact (nonempty.trans (after r member)).le

/-- The last interval ends last. -/
theorem end_le_getLast {last : Interval α} (separated : Separated rs)
    (isLast : last ∈ rs.getLast?) (member : r ∈ rs) : r.end ≤ last.end := by
  rcases List.eq_nil_or_concat' rs with rfl | ⟨init, t, rfl⟩
  · cases member
  · obtain rfl : t = last := by simpa using isLast
    rcases List.mem_append.mp member with earlier | same
    · have apart := (List.pairwise_append.mp separated.apart).2.2 r earlier t (by simp)
      exact (apart.trans (separated.nonempty t (by simp))).le
    · rw [List.mem_singleton.mp same]

end Separated

/-! ## Merging -/

/-- Merge sorted intervals; `last` is the component being extended. -/
def sweep (last : Interval α) : List (Interval α) → List (Interval α)
  | [] => [last]
  | r :: rest =>
      if r.begin ≤ last.end then sweep { last with «end» := max last.end r.end } rest
      else last :: sweep r rest

def mergeSorted : List (Interval α) → List (Interval α)
  | [] => []
  | r :: rest => sweep r rest

/-- The components of a list of intervals.  Empty intervals are dropped. -/
def merge (rs : List (Interval α)) : List (Interval α) :=
  mergeSorted ((rs.filter fun r => r.begin < r.end).insertionSort Interval.le)

/-- Extending a component leaves the list sorted by begin. -/
theorem sorted_extend {last r : Interval α} {rest : List (Interval α)}
    (sorted : (last :: r :: rest).Pairwise fun r s => r.begin ≤ s.begin) (stop : α) :
    ({ last with «end» := stop } :: rest).Pairwise fun r s => r.begin ≤ s.begin := by
  obtain ⟨first, sorted⟩ := List.pairwise_cons.mp sorted
  exact List.pairwise_cons.mpr
    ⟨fun s member => first s (by simp [member]), (List.pairwise_cons.mp sorted).2⟩

theorem covered_sweep {last : Interval α} {rest : List (Interval α)}
    (sorted : (last :: rest).Pairwise fun r s => r.begin ≤ s.begin) (n : α) :
    Covered (sweep last rest) n ↔ n ∈ last ∨ Covered rest n := by
  induction rest generalizing last with
  | nil => simp [sweep]
  | cons r rest ih =>
      obtain ⟨first, later⟩ := List.pairwise_cons.mp sorted
      rw [sweep]
      split
      · rename_i touching
        rw [ih (sorted_extend sorted _), covered_cons, ← or_assoc]
        have starts := first r (by simp)
        simp only [Interval.mem_iff]
        grind
      · rw [covered_cons, ih later, covered_cons]

theorem begin_sweep_le {last : Interval α} {rest : List (Interval α)}
    (sorted : (last :: rest).Pairwise fun r s => r.begin ≤ s.begin) :
    ∀ r ∈ sweep last rest, last.begin ≤ r.begin := by
  induction rest generalizing last with
  | nil => simp [sweep]
  | cons s rest ih =>
      obtain ⟨first, later⟩ := List.pairwise_cons.mp sorted
      intro r member
      rw [sweep] at member
      split at member
      · exact ih (sorted_extend sorted (max last.end s.end)) r member
      · rcases List.mem_cons.mp member with rfl | inside
        · exact le_rfl
        · exact (first s (by simp)).trans (ih later r inside)

theorem separated_sweep {last : Interval α} {rest : List (Interval α)}
    (sorted : (last :: rest).Pairwise fun r s => r.begin ≤ s.begin)
    (nonempty : ∀ r ∈ last :: rest, r.begin < r.end) : Separated (sweep last rest) := by
  induction rest generalizing last with
  | nil =>
      exact Separated.cons_iff.mpr ⟨nonempty last (by simp), by simp, .nil⟩
  | cons r rest ih =>
      have later := (List.pairwise_cons.mp sorted).2
      rw [sweep]
      split
      · apply ih (sorted_extend sorted _)
        intro s member
        rcases List.mem_cons.mp member with rfl | member
        · exact (nonempty last (by simp)).trans_le (le_max_left ..)
        · exact nonempty s (by simp [member])
      · rename_i apart
        refine Separated.cons_iff.mpr ⟨nonempty last (by simp), ?_,
          ih later fun s member => nonempty s (List.mem_cons_of_mem _ member)⟩
        exact fun s member => (lt_of_not_ge apart).trans_le (begin_sweep_le later s member)

theorem sorted_insertionSort (rs : List (Interval α)) :
    (rs.insertionSort Interval.le).Pairwise fun r s => r.begin ≤ s.begin :=
  (List.pairwise_insertionSort Interval.le rs).imp Interval.begin_le_of_le

theorem separated_merge (rs : List (Interval α)) : Separated (merge rs) := by
  have sorted := sorted_insertionSort (rs.filter fun r => r.begin < r.end)
  have nonempty : ∀ r ∈ (rs.filter fun r => r.begin < r.end).insertionSort Interval.le,
      r.begin < r.end := by simp
  rw [merge]
  cases arranged : (rs.filter fun r => r.begin < r.end).insertionSort Interval.le with
  | nil => exact .nil
  | cons r rest => exact separated_sweep (arranged ▸ sorted) (arranged ▸ nonempty)

/-- Merging keeps the covered points. -/
theorem covered_merge (rs : List (Interval α)) (n : α) :
    Covered (merge rs) n ↔ Covered rs n := by
  have sorted := sorted_insertionSort (rs.filter fun r => r.begin < r.end)
  have same : Covered (merge rs) n ↔
      Covered ((rs.filter fun r => r.begin < r.end).insertionSort Interval.le) n := by
    rw [merge]
    cases arranged : (rs.filter fun r => r.begin < r.end).insertionSort Interval.le with
    | nil => rfl
    | cons r rest => rw [mergeSorted, covered_sweep (arranged ▸ sorted), covered_cons]
  rw [same]
  simp only [Covered, List.mem_insertionSort, List.mem_filter, decide_eq_true_eq]
  constructor
  · rintro ⟨r, ⟨member, -⟩, inside⟩
    exact ⟨r, member, inside⟩
  · rintro ⟨r, member, inside⟩
    exact ⟨r, ⟨member, inside.1.trans_lt inside.2⟩, inside⟩

/-! ## Gaps -/

/-- The holes between neighbouring components. -/
def gaps (rs : List (Interval α)) : List (Interval α) :=
  rs.zipWith (fun r s => ⟨r.end, s.begin⟩) rs.tail

/-- The gaps are the points behind one component and before another that no
component has. -/
theorem covered_gaps {rs : List (Interval α)} (separated : Separated rs) (n : α) :
    Covered (gaps rs) n ↔
      (∃ r ∈ rs, r.end ≤ n) ∧ (∃ s ∈ rs, n < s.begin) ∧ ¬Covered rs n := by
  induction rs with
  | nil => simp [gaps]
  | cons r rest ih =>
      obtain ⟨nonempty, after, rest'⟩ := Separated.cons_iff.mp separated
      cases rest with
      | nil =>
          simp only [gaps, List.tail_cons, List.zipWith_nil_right, covered_nil, List.mem_singleton,
            exists_eq_left, covered_cons, or_false, false_iff, not_and, not_not]
          intro behind before
          exact absurd (nonempty.trans_le behind) (not_lt.mpr before.le)
      | cons s rest =>
          have next : gaps (r :: s :: rest) = ⟨r.end, s.begin⟩ :: gaps (s :: rest) := rfl
          have step := ih rest'
          rw [next, covered_cons, step, Interval.mem_iff]
          obtain ⟨nonempty', after', -⟩ := Separated.cons_iff.mp rest'
          have gap := after s (by simp)
          constructor
          · rintro (⟨behind, before⟩ | ⟨⟨t, member, behind⟩, before, outside⟩)
            · refine ⟨⟨r, by simp, behind⟩, ⟨s, by simp, before⟩, ?_⟩
              rw [covered_cons, covered_cons, Interval.mem_iff, Interval.mem_iff]
              rintro (inside | inside | inside)
              · exact absurd inside.2 (not_lt.mpr behind)
              · exact absurd inside.1 (not_le.mpr before)
              · exact rest'.not_covered_of_le (before.le.trans nonempty'.le) inside
            · obtain ⟨u, member', before⟩ := before
              refine ⟨⟨t, by simp [member], behind⟩, ⟨u, by simp [member'], before⟩, ?_⟩
              rw [covered_cons]
              rintro (inside | inside)
              · have below := after t member
                exact absurd ((below.trans_le ((rest'.nonempty t member).le.trans behind)).trans
                  inside.2) (lt_irrefl _)
              · exact outside inside
          · rintro ⟨⟨t, member, behind⟩, ⟨u, member', before⟩, outside⟩
            rw [covered_cons, not_or] at outside
            rcases lt_or_ge n s.begin with early | late
            · refine .inl ⟨?_, early⟩
              rcases List.mem_cons.mp member with rfl | member
              · exact behind
              · exact (after t member).le.trans ((rest'.nonempty t member).le.trans behind)
            · refine .inr ⟨⟨s, by simp, ?_⟩, ⟨u, ?_, before⟩, outside.2⟩
              · by_contra inside
                exact outside.2 ⟨s, by simp, late, not_le.mp inside⟩
              · rcases List.mem_cons.mp member' with rfl | member'
                · exact absurd (before.trans (nonempty.trans gap)) (not_lt.mpr late)
                · exact member'

/-! ## Subtraction -/

/-- What is left of `[cursor, stop)` outside sorted intervals. -/
def subtractFrom (stop cursor : α) : List (Interval α) → List (Interval α)
  | [] => [⟨cursor, stop⟩]
  | c :: rest =>
      if c.end ≤ cursor then subtractFrom stop cursor rest
      else if stop ≤ c.begin then [⟨cursor, stop⟩]
      else
        (if cursor < c.begin then [⟨cursor, c.begin⟩] else [])
          ++ if stop ≤ c.end then [] else subtractFrom stop c.end rest

/-- The parts of `top` outside the separated intervals `covered`. -/
def subtract (top : Interval α) (covered : List (Interval α)) : List (Interval α) :=
  if top.end ≤ top.begin then [] else subtractFrom top.end top.begin covered

theorem covered_subtractFrom {stop cursor : α} {covered : List (Interval α)}
    (separated : Separated covered) (room : cursor < stop) (n : α) :
    Covered (subtractFrom stop cursor covered) n ↔
      (cursor ≤ n ∧ n < stop) ∧ ¬Covered covered n := by
  induction covered generalizing cursor with
  | nil => simp [subtractFrom, Interval.mem_iff]
  | cons c rest ih =>
      obtain ⟨nonempty, after, rest'⟩ := Separated.cons_iff.mp separated
      rw [subtractFrom, covered_cons, Interval.mem_iff]
      split
      · rename_i behind
        rw [ih rest' room]
        grind
      · rename_i ahead
        split
        · rename_i beyond
          have none_inside (inside : n < stop) : ¬Covered rest n :=
            separated.not_covered_of_le (inside.le.trans (beyond.trans nonempty.le))
          simp only [covered_cons, covered_nil, or_false, Interval.mem_iff]
          grind
        · rename_i reaches
          have none_before (before : n < c.end) : ¬Covered rest n :=
            separated.not_covered_of_le before.le
          have tail : Covered (if stop ≤ c.end then [] else subtractFrom stop c.end rest) n ↔
              (c.end ≤ n ∧ n < stop) ∧ ¬Covered rest n := by
            split
            · simp only [covered_nil, false_iff]
              grind
            · exact ih rest' (lt_of_not_ge ‹_›)
          rw [covered_append, tail]
          split
          · simp only [covered_cons, covered_nil, or_false, Interval.mem_iff]
            grind
          · simp only [covered_nil, false_or]
            grind

theorem separated_subtractFrom {stop cursor : α} {covered : List (Interval α)}
    (separated : Separated covered) (room : cursor < stop) :
    Separated (subtractFrom stop cursor covered) ∧
      ∀ r ∈ subtractFrom stop cursor covered, cursor ≤ r.begin := by
  induction covered generalizing cursor with
  | nil => simp [subtractFrom, Separated.cons_iff, Separated.nil, room]
  | cons c rest ih =>
      obtain ⟨nonempty, after, rest'⟩ := Separated.cons_iff.mp separated
      rw [subtractFrom]
      split
      · exact ih rest' room
      · rename_i ahead
        split
        · simp [Separated.cons_iff, Separated.nil, room]
        · have tail : Separated (if stop ≤ c.end then [] else subtractFrom stop c.end rest) ∧
              ∀ r ∈ (if stop ≤ c.end then [] else subtractFrom stop c.end rest),
                c.end ≤ r.begin := by
            split
            · exact ⟨.nil, by simp⟩
            · exact ih rest' (lt_of_not_ge ‹_›)
          split
          · rename_i before
            rw [List.singleton_append]
            refine ⟨Separated.cons_iff.mpr ⟨before, ?_, tail.1⟩, ?_⟩
            · exact fun r member => nonempty.trans_le (tail.2 r member)
            · intro r member
              rcases List.mem_cons.mp member with rfl | member
              · exact le_rfl
              · exact (lt_of_not_ge ahead).le.trans (tail.2 r member)
          · exact ⟨tail.1, fun r member => (lt_of_not_ge ahead).le.trans (tail.2 r member)⟩

/-- Subtraction leaves exactly the points of `top` that are not covered. -/
theorem covered_subtract {top : Interval α} {covered : List (Interval α)}
    (separated : Separated covered) (n : α) :
    Covered (subtract top covered) n ↔ n ∈ top ∧ ¬Covered covered n := by
  rw [subtract]
  split
  · rename_i empty
    simp only [covered_nil, Interval.mem_iff, false_iff]
    grind
  · exact covered_subtractFrom separated (lt_of_not_ge ‹_›) n

theorem separated_subtract (top : Interval α) {covered : List (Interval α)}
    (separated : Separated covered) : Separated (subtract top covered) := by
  rw [subtract]
  split
  · exact .nil
  · exact (separated_subtractFrom separated (lt_of_not_ge ‹_›)).1

/-- The parts of every interval outside the separated intervals `covered`. -/
def subtractEach (rs covered : List (Interval α)) : List (Interval α) :=
  rs.flatMap fun r => subtract r covered

theorem subtractEach_cons (r : Interval α) (rs covered : List (Interval α)) :
    subtractEach (r :: rs) covered = subtract r covered ++ subtractEach rs covered := by
  rw [subtractEach, List.flatMap_cons, ← subtractEach]

theorem covered_subtractEach {rs covered : List (Interval α)} (separated : Separated covered)
    (n : α) : Covered (subtractEach rs covered) n ↔ Covered rs n ∧ ¬Covered covered n := by
  induction rs with
  | nil => simp [subtractEach]
  | cons r rs ih =>
      rw [subtractEach_cons, covered_append, covered_subtract separated, ih, covered_cons,
        or_and_right]

/-- What is left of separated intervals is separated: each part lies in its interval. -/
theorem separated_subtractEach {rs covered : List (Interval α)} (intervals : Separated rs)
    (separated : Separated covered) : Separated (subtractEach rs covered) := by
  induction rs with
  | nil => exact .nil
  | cons r rs ih =>
      obtain ⟨nonempty, after, later⟩ := Separated.cons_iff.mp intervals
      rw [subtractEach_cons]
      apply Separated.append (separated_subtract r separated) (ih later)
      intro first isFirst second isSecond
      have firstNonempty := (separated_subtract r separated).nonempty first isFirst
      have secondNonempty := (ih later).nonempty second isSecond
      have inside : ∀ n ∈ first, n ∈ r := fun n member =>
        ((covered_subtract separated n).mp ⟨first, isFirst, member⟩).1
      obtain ⟨⟨s, member, begins⟩, -⟩ := (covered_subtractEach separated second.begin).mp
        ⟨second, isSecond, le_rfl, secondNonempty⟩
      exact ((Interval.end_le_of_subset firstNonempty inside).trans_lt (after s member)).trans_le
        begins.1

end Intervals
