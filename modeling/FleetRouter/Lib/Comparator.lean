import Mathlib.Data.List.Perm.Basic
import Mathlib.Order.Compare

/-!
# Comparisons

A comparison that looks at one key after another is a total preorder when its keys
are, and a least element of a list that no other element ties with does not depend on
the order of the list.
-/

namespace Comparator

variable {α β : Type} {cmp : α → α → Ordering}

/-- A comparison that is reflexive, transitive and total. -/
structure IsTotalPreorder (cmp : α → α → Ordering) : Prop where
  refl : ∀ a, cmp a a = .eq
  swap : ∀ a b, cmp b a = (cmp a b).swap
  total : ∀ a b, (cmp a b).isLE ∨ (cmp b a).isLE
  trans : ∀ a b c, (cmp a b).isLE → (cmp b c).isLE → (cmp a c).isLE

theorem isTotalPreorder_of_transCmp [Std.TransCmp cmp] : IsTotalPreorder cmp where
  refl _ := Std.ReflCmp.compare_self
  swap _ _ := Std.OrientedCmp.eq_swap
  total a b := by
    have swap : cmp b a = (cmp a b).swap := Std.OrientedCmp.eq_swap
    rw [swap]
    cases cmp a b <;> simp
  trans _ _ _ first second := Std.TransCmp.isLE_trans first second

/-- The greater value first. -/
def descending [Ord β] (key : α → β) (a b : α) : Ordering := compare (key b) (key a)

instance [Ord β] [Std.TransOrd β] (key : α → β) : Std.TransCmp (descending key) where
  eq_swap {a b} := Std.OrientedOrd.eq_swap (a := key b) (b := key a)
  isLE_trans {a b c} first second := by
    have first : (compare (key b) (key a)).isLE := first
    have second : (compare (key c) (key b)).isLE := second
    exact Std.TransOrd.isLE_trans second first

instance transCmp_onFun [Std.TransCmp cmp] (key : β → α) :
    Std.TransCmp (Function.onFun cmp key) where
  eq_swap {a b} := by
    have swap : cmp (key a) (key b) = (cmp (key b) (key a)).swap := Std.OrientedCmp.eq_swap
    exact swap
  isLE_trans {a b c} first second := by
    have first : (cmp (key a) (key b)).isLE := first
    have second : (cmp (key b) (key c)).isLE := second
    have both : (cmp (key a) (key c)).isLE := Std.TransCmp.isLE_trans first second
    exact both

/-- Compares by one key after another. -/
def lexAll (keys : List (α → α → Ordering)) : α → α → Ordering :=
  keys.foldr compareLex fun _ _ => .eq

theorem lexAll_cons (key : α → α → Ordering) (keys : List (α → α → Ordering)) (a b : α) :
    lexAll (key :: keys) a b = (key a b).then (lexAll keys a b) := rfl

theorem transCmp_lexAll {keys : List (α → α → Ordering)}
    (each : ∀ key ∈ keys, Std.TransCmp key) : Std.TransCmp (lexAll keys) := by
  induction keys with
  | nil => exact { eq_swap := rfl, isLE_trans := fun _ _ => rfl }
  | cons key keys ih =>
      rw [List.forall_mem_cons] at each
      have first := each.1
      have rest := ih each.2
      exact inferInstanceAs (Std.TransCmp (compareLex key (lexAll keys)))

/-- Where all earlier keys are equal, the next one decides. -/
def InKeyOrder (cmp : α → α → Ordering) (keys : List (α → α → Ordering)) : Prop :=
  ∀ earlier key later, keys = earlier ++ key :: later →
    ∀ a b, (∀ tied ∈ earlier, tied a b = .eq) → key a b = .lt → cmp a b = .lt

theorem inKeyOrder_lexAll (keys : List (α → α → Ordering)) : InKeyOrder (lexAll keys) keys := by
  intro earlier key later split a b tied less
  subst split
  induction earlier with
  | nil => simp [lexAll_cons, less]
  | cons first earlier ih =>
      rw [List.forall_mem_cons] at tied
      rw [List.cons_append, lexAll_cons, tied.1]
      exact ih tied.2

/-- An element of the list that no other comes before. -/
structure IsLeast (cmp : α → α → Ordering) (xs : List α) (least : α) : Prop where
  mem : least ∈ xs
  le : ∀ x ∈ xs, (cmp least x).isLE

/-- Without ties there is one least element, whatever the order of the list. -/
theorem IsLeast.eq_of_perm [Std.TransCmp cmp] {xs ys : List α} {x y : α} (perm : xs.Perm ys)
    (noTies : ∀ a ∈ xs, ∀ b ∈ xs, cmp a b = .eq → a = b)
    (first : IsLeast cmp xs x) (second : IsLeast cmp ys y) : x = y := by
  have inFirst : y ∈ xs := perm.mem_iff.mpr second.mem
  have inSecond : x ∈ ys := perm.mem_iff.mp first.mem
  exact noTies x first.mem y inFirst
    (Std.OrientedCmp.isLE_antisymm (first.le y inFirst) (second.le x inSecond))

end Comparator
