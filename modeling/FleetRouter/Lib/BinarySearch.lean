import FleetRouter.Lib.KeyedDeque

/-!
# Binary search

The halving search of a slice sorted by a key, as standard libraries have it: the
range is cut in two until one entry is left, and that entry is compared once more.
On an ascending slice it finds what a linear search finds.
-/

namespace KeyedDeque

variable {α κ : Type} [LinearOrder κ] (key : α → κ)

/-- Halve the range of `size` entries from `base`, keeping the half a key belongs to. -/
def narrow (k : κ) (entries : List α) (size base : Nat) : Nat :=
  if 1 < size then
    let half := size / 2
    let base' := if entries[base + half]?.any fun entry => k < key entry then base else base + half
    narrow k entries (size - half) base'
  else base
termination_by size
decreasing_by omega

/-- The entry with a key, found by halving. -/
def search (k : κ) (entries : List α) : Option α :=
  entries[narrow key k entries entries.length 0]?.filter fun entry => key entry = k

variable {key}

theorem Ascending.getElem_lt {entries : List α} (ascending : Ascending key entries) {i j : Nat}
    {a b : α} (isA : entries[i]? = some a) (isB : entries[j]? = some b) (less : i < j) :
    key a < key b := by
  obtain ⟨iBound, rfl⟩ := List.getElem?_eq_some_iff.mp isA
  obtain ⟨jBound, rfl⟩ := List.getElem?_eq_some_iff.mp isB
  exact List.pairwise_iff_getElem.mp ascending i j iBound jBound less

/-- The range never loses the entry with the key. -/
theorem narrow_eq {entries : List α} (ascending : Ascending key entries) {i size base : Nat}
    {entry : α} (isEntry : entries[i]? = some entry) (fits : base + size ≤ entries.length)
    (above : base ≤ i) (below : i < base + size) :
    narrow key (key entry) entries size base = i := by
  induction size using Nat.strong_induction_on generalizing base with
  | _ size ih =>
      rw [narrow]
      split
      · rename_i several
        have inside : base + size / 2 < entries.length := by omega
        have isMiddle : entries[base + size / 2]? = some entries[base + size / 2] :=
          List.getElem?_eq_getElem inside
        dsimp only
        rw [isMiddle]
        by_cases high : key entry < key entries[base + size / 2]
        · rw [if_pos (by simpa using high)]
          apply ih (size - size / 2) (by omega) (by omega) above
          by_contra after
          have late : base + size / 2 ≤ i := by omega
          rcases late.lt_or_eq with later | same
          · exact absurd high (ascending.getElem_lt isMiddle isEntry later).asymm
          · rw [← same, isMiddle] at isEntry
            cases isEntry
            exact lt_irrefl _ high
        · rw [if_neg (by simpa using high)]
          apply ih (size - size / 2) (by omega) (by omega) _ (by omega)
          by_contra before
          exact high (ascending.getElem_lt isEntry isMiddle (by omega))
      · omega

/-- Halving finds what a linear search finds. -/
theorem search_eq_lookup {entries : List α} (ascending : Ascending key entries) (k : κ) :
    search key k entries = lookup key k entries := by
  cases found : lookup key k entries with
  | some entry =>
      obtain ⟨member, rfl⟩ := (lookup_eq_some ascending).mp found
      obtain ⟨i, isEntry⟩ := List.mem_iff_getElem?.mp member
      have bound := (List.getElem?_eq_some_iff.mp isEntry).1
      rw [search, narrow_eq ascending isEntry (by omega) (Nat.zero_le i) (by omega), isEntry]
      simp
  | none =>
      rw [lookup_eq_none] at found
      rw [search, Option.filter_eq_none_iff]
      intro entry isEntry
      simpa using found entry (List.mem_of_getElem? isEntry)

end KeyedDeque
