import FleetRouter.Lib.Broadcast

/-!
# Numbered logs of bounded size

Entries are numbered in the order they are appended, from one on, and the newest of them are kept.
A log that is asked for the entries after a number answers from what it has kept.
-/

namespace EventLog

open Broadcast

variable {α : Type} {capacity : Nat}

structure Entry (α : Type) where
  id : Nat
  body : α
  deriving DecidableEq, Repr

/-- A log that keeps at most `capacity` entries. -/
structure Log (α : Type) (capacity : Nat) where
  kept : List (Entry α)
  nextId : Nat
  deriving DecidableEq, Repr

namespace Log

def empty : Log α capacity := ⟨[], 1⟩

def append (log : Log α capacity) (body : α) : Log α capacity where
  kept := (if log.kept.length = capacity then log.kept.tail else log.kept) ++ [⟨log.nextId, body⟩]
  nextId := log.nextId + 1

/-- The entries after the number `id` that are kept, oldest first. -/
def after (log : Log α capacity) (id : Nat) : List (Entry α) :=
  log.kept.filter fun entry => id < entry.id

end Log

/-! ## The whole history -/

/-- The entries of a history that was numbered from `base` on. -/
def entriesFrom (base : Nat) : List α → List (Entry α)
  | [] => []
  | body :: history => ⟨base + 1, body⟩ :: entriesFrom (base + 1) history

def entries (history : List α) : List (Entry α) := entriesFrom 0 history

@[simp] theorem length_entriesFrom (base : Nat) (history : List α) :
    (entriesFrom base history).length = history.length := by
  induction history generalizing base with
  | nil => rfl
  | cons body history ih => simp [entriesFrom, ih]

@[simp] theorem length_entries (history : List α) : (entries history).length = history.length :=
  length_entriesFrom 0 history

theorem entriesFrom_append (base : Nat) (history later : List α) :
    entriesFrom base (history ++ later) =
      entriesFrom base history ++ entriesFrom (base + history.length) later := by
  induction history generalizing base with
  | nil => rfl
  | cons body history ih =>
      simp only [entriesFrom, List.cons_append, List.length_cons, ih]
      rw [Nat.add_right_comm, Nat.add_assoc]

theorem entries_append (history later : List α) :
    entries (history ++ later) = entries history ++ entriesFrom history.length later := by
  rw [entries, entriesFrom_append, Nat.zero_add]
  rfl

theorem entries_snoc (history : List α) (body : α) :
    entries (history ++ [body]) = entries history ++ [⟨history.length + 1, body⟩] :=
  entries_append history [body]

/-- Numbers grow by one from entry to entry, so the entries after a number are a tail. -/
theorem filter_entriesFrom (base id : Nat) (history : List α) :
    ((entriesFrom base history).filter fun entry => id < entry.id) =
      (entriesFrom base history).drop (id - base) := by
  induction history generalizing base with
  | nil => simp [entriesFrom]
  | cons body history ih =>
      rw [entriesFrom, List.filter_cons, ih]
      by_cases isAfter : id < base + 1
      · simp [isAfter, Nat.sub_eq_zero_of_le (Nat.le_of_lt_succ isAfter),
          Nat.sub_eq_zero_of_le (Nat.le_of_lt isAfter)]
      · have split : id - base = (id - (base + 1)) + 1 := by omega
        simp [isAfter, split]

theorem drop_entriesFrom (base k : Nat) (history : List α) :
    (entriesFrom base history).drop k = entriesFrom (base + k) (history.drop k) := by
  induction k generalizing base history with
  | zero => rfl
  | succ k ih =>
      cases history with
      | nil => rfl
      | cons body history =>
          rw [entriesFrom, List.drop_succ_cons, List.drop_succ_cons, ih, Nat.add_assoc,
            Nat.add_comm 1 k]

/-- The entries after `id` among the newest ones are the newest ones among those after `id`. -/
theorem filter_rtake_entries (id : Nat) (history : List α) :
    (((entries history).rtake capacity).filter fun entry => id < entry.id) =
      ((entries history).drop id).rtake capacity := by
  simp only [List.rtake, length_entries, List.length_drop, List.drop_drop]
  rw [entries, drop_entriesFrom, filter_entriesFrom, ← drop_entriesFrom, List.drop_drop]
  congr 1
  omega

/-- Fewer elements than the limit are all there are. -/
theorem rtake_of_length_lt {xs : List α} (short : (xs.rtake capacity).length < capacity) :
    xs.rtake capacity = xs := by
  apply rtake_of_length_le
  rw [List.rtake, List.length_drop] at short
  omega

theorem getLast?_entries (history : List α) :
    (entries history).getLast? = history.getLast?.map fun body => ⟨history.length, body⟩ := by
  induction history using List.reverseRecOn with
  | nil => rfl
  | append_singleton history body _ => simp [entries_snoc]

/-! ## Logs and their histories -/

/-- The log that has received this history. -/
structure Log.Of (log : Log α capacity) (history : List α) : Prop where
  kept : log.kept = (entries history).rtake capacity
  nextId : log.nextId = history.length + 1

namespace Log.Of

variable {log : Log α capacity} {history : List α}

theorem empty : (Log.empty : Log α capacity).Of [] := ⟨(List.rtake_nil _).symm, rfl⟩

theorem append (of : log.Of history) (positive : 0 < capacity) (body : α) :
    (log.append body).Of (history ++ [body]) where
  kept := by
    have bounded := length_rtake_le capacity (entries history)
    rw [← of.kept] at bounded
    rw [entries_snoc, ← rtake_rtake_append, ← of.kept, Log.append, of.nextId]
    dsimp only
    split
    · rename_i full
      rw [← tail_eq_rtake (by simp [full]), List.tail_append_of_ne_nil]
      intro isNil
      simp only [isNil, List.length_nil] at full
      omega
    · apply (rtake_of_length_le _).symm
      rw [List.length_append, List.length_singleton]
      omega
  nextId := by simp [Log.append, of.nextId]

theorem foldl_append (of : log.Of history) (positive : 0 < capacity) (bodies : List α) :
    (bodies.foldl Log.append log).Of (history ++ bodies) := by
  induction bodies generalizing log history with
  | nil => simpa using of
  | cons body bodies ih => simpa using ih (of.append positive body)

theorem after (of : log.Of history) (id : Nat) :
    log.after id = ((entries history).drop id).rtake capacity := by
  rw [Log.after, of.kept]
  exact filter_rtake_entries id history

end Log.Of

/-- The number of the last entry after `id`, or `id` when there is none, is the number of all
entries. -/
theorem through_eq {history : List α} {id : Nat} (positive : 0 < capacity)
    (issued : id ≤ history.length) :
    (((entries history).drop id).rtake capacity).getLast?.elim id Entry.id = history.length := by
  rw [List.rtake, List.drop_drop, List.getLast?_drop, List.length_drop, length_entries]
  cases Nat.eq_or_lt_of_le issued with
  | inl all => simp [all]
  | inr more =>
      have inside : ¬ history.length ≤ id + (history.length - id - capacity) := by omega
      have nonempty : history ≠ [] := List.ne_nil_of_length_pos (Nat.zero_lt_of_lt more)
      rw [if_neg inside, getLast?_entries, List.getLast?_eq_some_getLast nonempty]
      rfl

end EventLog
