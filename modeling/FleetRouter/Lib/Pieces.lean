import Mathlib.Data.List.Dedup
import FleetRouter.Lib.Intervals

/-!
# Pieces of labelled intervals

The bounds of some labelled intervals cut the line into windows, on each of which the
same intervals lie; neighbouring windows with the same labels are glued together.  A
piece carries the labels of exactly the intervals that have its points, in order.
-/

namespace Intervals

/-- An interval, with labels that hold on all of it. -/
structure Piece (α ι : Type) where
  range : Interval α
  labels : List ι
  deriving DecidableEq, Repr

/-- Sorted, disjoint and non-empty; neighbours may touch. -/
structure Ordered {α : Type} [LinearOrder α] (rs : List (Interval α)) : Prop where
  nonempty : ∀ r ∈ rs, r.begin < r.end
  apart : rs.Pairwise fun r s => r.end ≤ s.begin

variable {α ι : Type} [LinearOrder α]

theorem Ordered.cons_iff {r : Interval α} {rs : List (Interval α)} : Ordered (r :: rs) ↔
    r.begin < r.end ∧ (∀ s ∈ rs, r.end ≤ s.begin) ∧ Ordered rs := by
  constructor
  · intro ordered
    have apart := List.pairwise_cons.mp ordered.apart
    exact ⟨ordered.nonempty r (by simp), apart.1,
      ⟨fun s member => ordered.nonempty s (by simp [member]), apart.2⟩⟩
  · rintro ⟨nonempty, after, ordered⟩
    exact ⟨by simpa using ⟨nonempty, ordered.nonempty⟩,
      List.pairwise_cons.mpr ⟨after, ordered.apart⟩⟩

theorem Ordered.sublist {rs ss : List (Interval α)} (ordered : Ordered ss) (sub : rs.Sublist ss) :
    Ordered rs :=
  ⟨fun r member => ordered.nonempty r (sub.subset member), ordered.apart.sublist sub⟩

/-! ## Windows -/

/-- The intervals between neighbours of a list. -/
def windows (bounds : List α) : List (Interval α) := bounds.zipWith Interval.mk bounds.tail

section Windows

variable {bs : List α}

omit [LinearOrder α] in
theorem windows_cons_cons (a b : α) (rest : List α) :
    windows (a :: b :: rest) = ⟨a, b⟩ :: windows (b :: rest) := rfl

omit [LinearOrder α] in
theorem begin_mem_of_mem_windows {w : Interval α} (member : w ∈ windows bs) : w.begin ∈ bs := by
  induction bs with
  | nil => cases member
  | cons a rest ih =>
      cases rest with
      | nil => cases member
      | cons b rest =>
          rw [windows_cons_cons] at member
          cases List.mem_cons.mp member with
          | inl first => simp [first]
          | inr later => exact List.mem_cons_of_mem _ (ih later)

theorem ordered_windows (sorted : bs.Pairwise (· < ·)) : Ordered (windows bs) := by
  induction bs with
  | nil => exact ⟨by simp [windows], .nil⟩
  | cons a rest ih =>
      obtain ⟨first, later⟩ := List.pairwise_cons.mp sorted
      cases rest with
      | nil => exact ⟨by simp [windows], .nil⟩
      | cons b rest =>
          rw [windows_cons_cons]
          refine Ordered.cons_iff.mpr ⟨first b (by simp), fun w member => ?_, ih later⟩
          have listed := begin_mem_of_mem_windows member
          cases List.mem_cons.mp listed with
          | inl same => exact same.ge
          | inr after => exact ((List.pairwise_cons.mp later).1 _ after).le

/-- No bound lies inside a window. -/
theorem windows_clear (sorted : bs.Pairwise (· < ·)) {w : Interval α} (member : w ∈ windows bs)
    {c : α} (listed : c ∈ bs) : c ≤ w.begin ∨ w.end ≤ c := by
  induction bs with
  | nil => cases listed
  | cons a rest ih =>
      obtain ⟨first, later⟩ := List.pairwise_cons.mp sorted
      cases rest with
      | nil => cases member
      | cons b rest =>
          rw [windows_cons_cons] at member
          cases List.mem_cons.mp member with
          | inl isFirst =>
              subst isFirst
              rcases List.mem_cons.mp listed with rfl | listed
              · exact .inl le_rfl
              · rcases List.mem_cons.mp listed with rfl | listed
                · exact .inr le_rfl
                · exact .inr ((List.pairwise_cons.mp later).1 c listed).le
          | inr isLater =>
              rcases List.mem_cons.mp listed with rfl | listed
              · exact .inl (first _ (begin_mem_of_mem_windows isLater)).le
              · exact ih later isLater listed

/-- A point between two bounds lies in a window. -/
theorem exists_window {lo hi n : α} (low : lo ∈ bs) (high : hi ∈ bs) (above : lo ≤ n)
    (below : n < hi) (sorted : bs.Pairwise (· < ·)) : ∃ w ∈ windows bs, n ∈ w := by
  induction bs generalizing lo with
  | nil => cases low
  | cons a rest ih =>
      obtain ⟨first, later⟩ := List.pairwise_cons.mp sorted
      have behind : a ≤ n := by
        rcases List.mem_cons.mp low with rfl | low
        · exact above
        · exact (first lo low).le.trans above
      have ahead : hi ∈ rest := by
        rcases List.mem_cons.mp high with rfl | high
        · exact absurd below (not_lt.mpr behind)
        · exact high
      cases rest with
      | nil => cases ahead
      | cons b rest =>
          rw [windows_cons_cons]
          rcases lt_or_ge n b with before | after
          · exact ⟨⟨a, b⟩, by simp, behind, before⟩
          · obtain ⟨w, member, inside⟩ := ih (by simp) ahead after later
            exact ⟨w, List.mem_cons_of_mem _ member, inside⟩

end Windows

/-! ## Labels -/

section Labels

variable (parts : List (ι × Interval α))

/-- The labels of the intervals that have a point. -/
def labelsAt (n : α) : List ι :=
  (parts.filter fun part => part.2.begin ≤ n && n < part.2.end).map Prod.fst

/-- The labels of the intervals that have all of `window`. -/
def labelsOver (window : Interval α) : List ι :=
  (parts.filter fun part => part.2.begin ≤ window.begin && window.end ≤ part.2.end).map Prod.fst

/-- The begins and ends, sorted and without repetition. -/
def bounds : List α :=
  ((parts.flatMap fun part => [part.2.begin, part.2.end]).insertionSort (· ≤ ·)).dedup

theorem mem_bounds {c : α} :
    c ∈ bounds parts ↔ ∃ part ∈ parts, c = part.2.begin ∨ c = part.2.end := by
  simp [bounds]

theorem sorted_bounds : (bounds parts).Pairwise (· < ·) := by
  have sorted : (bounds parts).Pairwise (· ≤ ·) :=
    (List.pairwise_insertionSort _ _).sublist (List.dedup_sublist _)
  have distinct : (bounds parts).Nodup := List.nodup_dedup _
  exact (sorted.and distinct).imp fun both => lt_of_le_of_ne both.1 both.2

/-- On a window between neighbouring bounds the labels do not change. -/
theorem labelsOver_eq {w : Interval α} (member : w ∈ windows (bounds parts)) {n : α}
    (inside : n ∈ w) : labelsOver parts w = labelsAt parts n := by
  have clear := fun c => windows_clear (sorted_bounds parts) member (c := c)
  rw [labelsOver, labelsAt]
  congr 1
  apply List.filter_congr
  intro part listed
  have first := clear part.2.begin ((mem_bounds parts).mpr ⟨part, listed, .inl rfl⟩)
  have last := clear part.2.end ((mem_bounds parts).mpr ⟨part, listed, .inr rfl⟩)
  rw [Interval.mem_iff] at inside
  have begins : part.2.begin ≤ w.begin ↔ part.2.begin ≤ n := by grind
  have ends : w.end ≤ part.2.end ↔ n < part.2.end := by grind
  simp [begins, ends]

/-- The windows that some interval has, with their labels. -/
def cut : List (Piece α ι) :=
  ((windows (bounds parts)).map fun w => ⟨w, labelsOver parts w⟩).filter fun piece =>
    !piece.labels.isEmpty

end Labels

/-! ## Gluing -/

section Glue

variable [DecidableEq ι]

/-- A piece, extended up to the end of the next one. -/
def Piece.upTo (last next : Piece α ι) : Piece α ι :=
  { last with range := { last.range with «end» := next.range.end } }

/-- The pieces touch and have the same labels. -/
def Piece.joins (last next : Piece α ι) : Prop :=
  last.range.end = next.range.begin ∧ last.labels = next.labels

instance (last next : Piece α ι) : Decidable (last.joins next) :=
  inferInstanceAs (Decidable (_ ∧ _))

/-- Glue pieces in order; `last` is the piece being extended. -/
def glueFrom (last : Piece α ι) : List (Piece α ι) → List (Piece α ι)
  | [] => [last]
  | piece :: rest =>
      if last.joins piece then glueFrom (last.upTo piece) rest else last :: glueFrom piece rest

/-- Neighbours that touch and have the same labels become one piece. -/
def glue : List (Piece α ι) → List (Piece α ι)
  | [] => []
  | piece :: rest => glueFrom piece rest

/-- The labelled intervals as disjoint pieces. -/
def pieces (parts : List (ι × Interval α)) : List (Piece α ι) := glue (cut parts)

end Glue

/-- Pieces that say for every point which labels it has. -/
structure Partitions (labels : α → List ι) (ps : List (Piece α ι)) : Prop where
  ordered : Ordered (ps.map Piece.range)
  exact_ : ∀ piece ∈ ps, ∀ n ∈ piece.range, piece.labels = labels n
  covers : ∀ n, (∃ piece ∈ ps, n ∈ piece.range) ↔ labels n ≠ []

theorem partitions_cut (parts : List (ι × Interval α)) :
    Partitions (labelsAt parts) (cut parts) := by
  have sorted := sorted_bounds parts
  have listed {piece : Piece α ι} : piece ∈ cut parts ↔
      piece.range ∈ windows (bounds parts) ∧ piece.labels = labelsOver parts piece.range ∧
        piece.labels ≠ [] := by
    obtain ⟨range, labels⟩ := piece
    simp only [cut, List.mem_filter, List.mem_map, Piece.mk.injEq, Bool.not_eq_true',
      List.isEmpty_eq_false_iff]
    constructor
    · rintro ⟨⟨w, member, rfl, rfl⟩, some⟩
      exact ⟨member, rfl, some⟩
    · rintro ⟨member, rfl, some⟩
      exact ⟨⟨range, member, rfl, rfl⟩, some⟩
  constructor
  · refine (ordered_windows sorted).sublist ?_
    have sub := ((windows (bounds parts)).map fun w =>
      (⟨w, labelsOver parts w⟩ : Piece α ι)).filter_sublist
        (p := fun piece => !piece.labels.isEmpty)
    simpa [cut, Function.comp_def] using sub.map Piece.range
  · intro piece member n inside
    obtain ⟨isWindow, labels, -⟩ := listed.mp member
    rw [labels, labelsOver_eq parts isWindow inside]
  · intro n
    constructor
    · rintro ⟨piece, member, inside⟩
      obtain ⟨isWindow, labels, some⟩ := listed.mp member
      rwa [← labelsOver_eq parts isWindow inside, ← labels]
    · intro some
      obtain ⟨label, has⟩ := List.exists_mem_of_ne_nil _ some
      obtain ⟨part, isPart, -⟩ := List.mem_map.mp has
      simp only [List.mem_filter, Bool.and_eq_true, decide_eq_true_eq] at isPart
      obtain ⟨isPart, above, below⟩ := isPart
      obtain ⟨w, isWindow, inside⟩ := exists_window
        ((mem_bounds parts).mpr ⟨part, isPart, .inl rfl⟩)
        ((mem_bounds parts).mpr ⟨part, isPart, .inr rfl⟩) above below sorted
      refine ⟨⟨w, labelsOver parts w⟩, listed.mpr ⟨isWindow, rfl, ?_⟩, inside⟩
      rwa [labelsOver_eq parts isWindow inside]

section Glue

variable [DecidableEq ι] {last next : Piece α ι} {rest : List (Piece α ι)}

omit [DecidableEq ι] in
/-- Two pieces that touch hold the points of the longer one. -/
theorem mem_upTo (joins : last.joins next)
    (ordered : Ordered ((last :: next :: rest).map Piece.range)) {n : α} :
    n ∈ (last.upTo next).range ↔ n ∈ last.range ∨ n ∈ next.range := by
  obtain ⟨nonempty, -, later⟩ := Ordered.cons_iff.mp ordered
  obtain ⟨nonempty', -, -⟩ := Ordered.cons_iff.mp later
  have touch := joins.1
  simp only [Interval.mem_iff, Piece.upTo]
  grind

omit [DecidableEq ι] in
theorem ordered_upTo (joins : last.joins next)
    (ordered : Ordered ((last :: next :: rest).map Piece.range)) :
    Ordered ((last.upTo next :: rest).map Piece.range) := by
  obtain ⟨nonempty, -, later⟩ := Ordered.cons_iff.mp ordered
  obtain ⟨nonempty', after, rest'⟩ := Ordered.cons_iff.mp later
  have longer : last.range.begin < next.range.end := by
    have touch := joins.1
    exact nonempty.trans (touch ▸ nonempty')
  exact Ordered.cons_iff.mpr ⟨longer, after, rest'⟩

/-- Gluing keeps the points. -/
theorem exists_mem_glueFrom (ordered : Ordered ((last :: rest).map Piece.range)) {n : α} :
    (∃ piece ∈ glueFrom last rest, n ∈ piece.range) ↔
      ∃ piece ∈ last :: rest, n ∈ piece.range := by
  induction rest generalizing last with
  | nil => rfl
  | cons next rest ih =>
      rw [glueFrom]
      split
      · rename_i joins
        rw [ih (ordered_upTo joins ordered)]
        simp only [List.exists_mem_cons_iff, mem_upTo joins ordered, or_assoc]
      · have later := (Ordered.cons_iff.mp ordered).2.2
        rw [List.exists_mem_cons_iff, ih later, List.exists_mem_cons_iff (a := last)]

/-- Gluing keeps what holds on every point of every piece. -/
theorem exact_glueFrom {labels : α → List ι}
    (ordered : Ordered ((last :: rest).map Piece.range))
    (all : ∀ piece ∈ last :: rest, ∀ n ∈ piece.range, piece.labels = labels n) :
    ∀ piece ∈ glueFrom last rest, ∀ n ∈ piece.range, piece.labels = labels n := by
  induction rest generalizing last with
  | nil => exact all
  | cons next rest ih =>
      obtain ⟨atLast, later⟩ := List.forall_mem_cons.mp all
      obtain ⟨atNext, atRest⟩ := List.forall_mem_cons.mp later
      rw [glueFrom]
      split
      · rename_i joins
        apply ih (ordered_upTo joins ordered)
        refine List.forall_mem_cons.mpr ⟨fun n inside => ?_, atRest⟩
        cases (mem_upTo joins ordered).mp inside with
        | inl here => exact atLast n here
        | inr there => exact joins.2.trans (atNext n there)
      · refine List.forall_mem_cons.mpr ⟨atLast, ?_⟩
        exact ih (Ordered.cons_iff.mp ordered).2.2 later

/-- The first glued piece begins where the first piece did, with its labels; every
other one begins later. -/
theorem begin_glueFrom (ordered : Ordered ((last :: rest).map Piece.range)) :
    ∀ piece ∈ glueFrom last rest, last.range.begin ≤ piece.range.begin ∧
      (piece.range.begin = last.range.begin → piece.labels = last.labels) := by
  induction rest generalizing last with
  | nil => simp [glueFrom]
  | cons next rest ih =>
      obtain ⟨nonempty, after, later⟩ := Ordered.cons_iff.mp ordered
      rw [glueFrom]
      split
      · rename_i joins
        exact ih (ordered_upTo joins ordered)
      · refine List.forall_mem_cons.mpr ⟨⟨le_rfl, fun _ => rfl⟩, fun piece member => ?_⟩
        have begins : last.range.begin < piece.range.begin :=
          nonempty.trans_le ((after next.range (by simp)).trans (ih later piece member).1)
        exact ⟨begins.le, fun same => absurd same begins.ne'⟩

theorem ordered_glueFrom (ordered : Ordered ((last :: rest).map Piece.range)) :
    Ordered ((glueFrom last rest).map Piece.range) ∧
      (glueFrom last rest).Pairwise fun p q => ¬ p.joins q := by
  induction rest generalizing last with
  | nil => exact ⟨ordered, List.pairwise_singleton _ _⟩
  | cons next rest ih =>
      obtain ⟨nonempty, after, later⟩ := Ordered.cons_iff.mp ordered
      rw [glueFrom]
      split
      · rename_i joins
        exact ih (ordered_upTo joins ordered)
      · rename_i apart
        have begins := begin_glueFrom later
        have touches := after next.range (by simp)
        refine ⟨Ordered.cons_iff.mpr ⟨nonempty, ?_, (ih later).1⟩,
          List.pairwise_cons.mpr ⟨?_, (ih later).2⟩⟩
        · intro r member
          obtain ⟨piece, isPiece, rfl⟩ := List.mem_map.mp member
          exact touches.trans (begins piece isPiece).1
        · rintro piece member ⟨touch, same⟩
          -- only the piece that starts with `next` can touch `last`
          have start : piece.range.begin = next.range.begin :=
            le_antisymm (touch ▸ touches) (begins piece member).1
          exact apart ⟨touch.trans start, same.trans ((begins piece member).2 start)⟩

/-- The pieces of labelled intervals say for every point which intervals have it; no two
pieces that touch have the same labels. -/
theorem partitions_pieces (parts : List (ι × Interval α)) :
    Partitions (labelsAt parts) (pieces parts) ∧
      (pieces parts).Pairwise fun p q => ¬ p.joins q := by
  have cutUp := partitions_cut parts
  rw [pieces]
  cases isCut : cut parts with
  | nil =>
      rw [isCut] at cutUp
      exact ⟨cutUp, .nil⟩
  | cons last rest =>
      rw [isCut] at cutUp
      have glued := ordered_glueFrom cutUp.ordered
      refine ⟨⟨glued.1, exact_glueFrom cutUp.ordered cutUp.exact_, fun n => ?_⟩, glued.2⟩
      exact (exists_mem_glueFrom cutUp.ordered).trans (cutUp.covers n)

end Glue

end Intervals
