import Mathlib.Data.List.DropRight
import Mathlib.Data.List.Perm.Subperm
import Mathlib.Order.Lattice

/-!
# Deques sorted by a key

A deque whose entries ascend by a key, used as a bounded memory: the back is
truncated when a key comes again, the front is pruned by key and by length.
On an ascending deque each operation keeps exactly the entries its bound
names.
-/

namespace KeyedDeque

variable {α κ : Type} [LinearOrder κ] (key : α → κ)

/-- The entries ascend strictly by key. -/
def Ascending (entries : List α) : Prop := entries.Pairwise fun a b => key a < key b

instance (entries : List α) : Decidable (Ascending key entries) :=
  inferInstanceAs (Decidable (entries.Pairwise _))

/-- Pop from the back while the key is at or above `bound`. -/
def truncateFrom (bound : κ) (entries : List α) : List α :=
  entries.rdropWhile fun entry => decide (bound ≤ key entry)

/-- Pop from the front while the key is at or below `bound`, keeping one
entry. -/
def pruneTo (bound : κ) : List α → List α
  | first :: second :: rest =>
      if key first ≤ bound then pruneTo bound (second :: rest) else first :: second :: rest
  | entries => entries

/-- Pop from the front while more than `cap` entries are held. -/
def keepLast (cap : Nat) (entries : List α) : List α := entries.drop (entries.length - cap)

/-- The entry with a given key. -/
def lookup (k : κ) (entries : List α) : Option α :=
  entries.find? fun entry => decide (key entry = k)

variable {key} {entries : List α}

theorem truncateFrom_initial (bound : κ) (entries : List α) :
    truncateFrom key bound entries <+: entries :=
  List.rdropWhile_prefix _ _

theorem pruneTo_suffix (bound : κ) (entries : List α) :
    pruneTo key bound entries <:+ entries := by
  fun_induction pruneTo key bound entries with
  | case1 first second rest low ih => exact ih.trans (List.suffix_cons _ _)
  | case2 | case3 => exact List.suffix_rfl

theorem keepLast_suffix (cap : Nat) (entries : List α) : keepLast cap entries <:+ entries :=
  List.drop_suffix _ _

theorem keepLast_length (cap : Nat) (entries : List α) :
    (keepLast cap entries).length ≤ cap := by
  rw [keepLast, List.length_drop]
  omega

theorem Ascending.truncateFrom (ascending : Ascending key entries)
    (bound : κ) : Ascending key (truncateFrom key bound entries) :=
  List.Pairwise.sublist (truncateFrom_initial bound entries).sublist ascending

theorem Ascending.pruneTo (ascending : Ascending key entries)
    (bound : κ) : Ascending key (pruneTo key bound entries) :=
  List.Pairwise.sublist (pruneTo_suffix bound entries).sublist ascending

theorem Ascending.keepLast (ascending : Ascending key entries)
    (cap : Nat) : Ascending key (keepLast cap entries) :=
  List.Pairwise.sublist (keepLast_suffix cap entries).sublist ascending

/-- Truncation removes exactly the entries at or above the bound. -/
theorem truncateFrom_eq_filter (ascending : Ascending key entries) (bound : κ) :
    truncateFrom key bound entries = entries.filter fun entry => decide (key entry < bound) := by
  induction entries using List.reverseRecOn with
  | nil => rfl
  | append_singleton front last ih =>
      obtain ⟨frontAscending, -, below⟩ := List.pairwise_append.mp ascending
      rw [List.filter_append]
      by_cases high : bound ≤ key last
      · rw [truncateFrom, List.rdropWhile_concat_pos _ _ _ (by simpa using high)]
        change truncateFrom key bound front = _
        rw [ih frontAscending]
        simp [not_lt.mpr high]
      · rw [truncateFrom, List.rdropWhile_concat_neg _ _ _ (by simpa using high)]
        have all : front.filter (fun entry => decide (key entry < bound)) = front := by
          rw [List.filter_eq_self]
          intro entry member
          simpa using (below entry member last (by simp)).trans (not_le.mp high)
        simp [all, not_le.mp high]

theorem mem_truncateFrom (ascending : Ascending key entries) {bound : κ} {entry : α} :
    entry ∈ truncateFrom key bound entries ↔ entry ∈ entries ∧ key entry < bound := by
  rw [truncateFrom_eq_filter ascending, List.mem_filter, decide_eq_true_eq]

/-- A deque popped from the front keeps what is above an entry it kept. -/
theorem Ascending.mem_suffix {entries kept : List α} (ascending : Ascending key entries)
    (suffix : kept <:+ entries) {entry other : α} (isKept : entry ∈ kept)
    (member : other ∈ entries) (above : key entry ≤ key other) : other ∈ kept := by
  obtain ⟨front, rfl⟩ := suffix
  rcases List.mem_append.mp member with popped | inKept
  · exact absurd ((List.pairwise_append.mp ascending).2.2 other popped entry isKept)
      (not_lt.mpr above)
  · exact inKept

/-- An entry above every entry can be put at the back. -/
theorem Ascending.concat (ascending : Ascending key entries) {entry : α}
    (above : ∀ other ∈ entries, key other < key entry) :
    Ascending key (entries ++ [entry]) := by
  refine List.pairwise_append.mpr ⟨ascending, List.pairwise_singleton _ _, ?_⟩
  intro other member last isLast
  rw [List.mem_singleton.mp isLast]
  exact above other member

/-- Pruning keeps the last entry and those above the bound. -/
theorem mem_pruneTo {front : List α} {last : α} (ascending : Ascending key (front ++ [last]))
    {bound : κ} {entry : α} :
    entry ∈ pruneTo key bound (front ++ [last]) ↔
      entry ∈ front ∧ bound < key entry ∨ entry = last := by
  induction front with
  | nil => simp [pruneTo]
  | cons first rest ih =>
      obtain ⟨above, restAscending⟩ := List.pairwise_cons.mp ascending
      have step : pruneTo key bound (first :: rest ++ [last]) =
          if key first ≤ bound then pruneTo key bound (rest ++ [last])
          else first :: rest ++ [last] := by
        cases rest <;> rfl
      rw [step]
      by_cases low : key first ≤ bound
      · rw [if_pos low, ih restAscending, List.mem_cons]
        constructor
        · rintro (⟨member, high⟩ | isLast)
          · exact .inl ⟨.inr member, high⟩
          · exact .inr isLast
        · rintro (⟨rfl | member, high⟩ | isLast)
          · exact absurd low (not_le.mpr high)
          · exact .inl ⟨member, high⟩
          · exact .inr isLast
      · rw [if_neg low, List.mem_append, List.mem_singleton]
        constructor
        · rintro (member | isLast)
          · refine .inl ⟨member, ?_⟩
            rcases List.mem_cons.mp member with rfl | inRest
            · exact not_le.mp low
            · exact (not_le.mp low).trans (above entry (by simp [inRest]))
          · exact .inr isLast
        · rintro (⟨member, -⟩ | isLast)
          · exact .inl member
          · exact .inr isLast

/-- An entry survives the cap if at most `cap` entries are at or above it. -/
theorem mem_keepLast (ascending : Ascending key entries) {cap : Nat}
    {entry : α} (member : entry ∈ entries)
    (few : entries.countP (fun other => decide (key entry ≤ key other)) ≤ cap) :
    entry ∈ keepLast cap entries := by
  obtain ⟨front, back, rfl⟩ := List.append_of_mem member
  obtain ⟨-, backAscending, -⟩ := List.pairwise_append.mp ascending
  obtain ⟨above, -⟩ := List.pairwise_cons.mp backAscending
  have all : (entry :: back).countP (fun other => decide (key entry ≤ key other)) =
      (entry :: back).length := by
    rw [List.countP_eq_length]
    intro other isBack
    rcases List.mem_cons.mp isBack with rfl | inBack
    · simp
    · simpa using (above other inBack).le
  rw [List.countP_append, all] at few
  have skipped : (front ++ entry :: back).length - cap ≤ front.length := by
    rw [List.length_append]
    omega
  rw [keepLast, List.drop_append_of_le_length skipped]
  simp

theorem lookup_eq_some (ascending : Ascending key entries) {k : κ}
    {entry : α} : lookup key k entries = some entry ↔ entry ∈ entries ∧ key entry = k := by
  constructor
  · intro found
    exact ⟨List.mem_of_find?_eq_some found, by simpa using List.find?_some found⟩
  · rintro ⟨member, rfl⟩
    obtain ⟨front, back, rfl⟩ := List.append_of_mem member
    obtain ⟨-, -, below⟩ := List.pairwise_append.mp ascending
    have notFront : front.find? (fun other => decide (key other = key entry)) = none := by
      rw [List.find?_eq_none]
      intro other inFront
      simpa using (below other inFront entry (by simp)).ne
    rw [lookup, List.find?_append, notFront]
    simp

theorem lookup_eq_none {k : κ} :
    lookup key k entries = none ↔ ∀ entry ∈ entries, key entry ≠ k := by
  simp [lookup]

/-- At most one entry has a given key. -/
theorem Ascending.eq_of_key_eq (ascending : Ascending key entries)
    {left right : α} (leftMember : left ∈ entries) (rightMember : right ∈ entries)
    (same : key left = key right) : left = right := by
  have leftFound := (lookup_eq_some ascending).mpr ⟨leftMember, same⟩
  have rightFound := (lookup_eq_some ascending).mpr ⟨rightMember, rfl⟩
  exact Option.some.inj (leftFound.symm.trans rightFound)

/-- Entries of an ascending deque are counted once. -/
theorem Ascending.countP_le {entries others : List α} (ascending : Ascending key entries)
    {p q : α → Bool}
    (included : ∀ entry ∈ entries, p entry = true → entry ∈ others ∧ q entry = true) :
    entries.countP p ≤ others.countP q := by
  have nodup : entries.Nodup :=
    List.Pairwise.imp (fun less equal => less.ne (congrArg key equal)) ascending
  have subset : entries.filter p ⊆ others.filter q := by
    intro entry member
    obtain ⟨inEntries, holds⟩ := List.mem_filter.mp member
    exact List.mem_filter.mpr (included entry inEntries holds)
  rw [List.countP_eq_length_filter, List.countP_eq_length_filter]
  exact (List.subperm_of_subset (nodup.filter _) subset).length_le

end KeyedDeque
