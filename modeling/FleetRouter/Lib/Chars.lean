import Mathlib.Data.List.DropRight

/-!
# Texts as lists of characters

The operations on texts that programs use to read names and addresses: trimming blanks,
lower case of the ASCII letters, splitting at a separator.
-/

namespace Chars

abbrev Text := List Char

instance lawfulBEqText : LawfulBEq Text := inferInstance

/-- The characters of Unicode's `White_Space` property. -/
def isWhitespace (c : Char) : Bool :=
  let n := c.toNat
  (9 ≤ n && n ≤ 13) || n = 0x20 || n = 0x85 || n = 0xA0 || n = 0x1680
    || (0x2000 ≤ n && n ≤ 0x200A) || n = 0x2028 || n = 0x2029 || n = 0x202F || n = 0x205F
    || n = 0x3000

/-- Without the blanks around it. -/
def trim (s : Text) : Text := (s.dropWhile isWhitespace).rdropWhile isWhitespace

/-- With the ASCII letters in lower case. -/
def toAsciiLowercase (s : Text) : Text := s.map Char.toLower

/-- The texts before and after the first place a separator stands at. -/
def splitOnce (sep : Text) : Text → Option (Text × Text)
  | [] => if sep = [] then some ([], []) else none
  | c :: rest =>
      match (c :: rest).dropPrefix? sep with
      | some after => some ([], after)
      | none => (splitOnce sep rest).map fun (before, after) => (c :: before, after)

/-- The texts before and after the last place a character stands at. -/
def rsplitOnce (sep : Char) (s : Text) : Option (Text × Text) :=
  if sep ∈ s then
    let after := s.rtakeWhile (· ≠ sep)
    some (s.take (s.length - after.length - 1), after)
  else none

theorem toNat_toLower (c : Char) :
    c.toLower.toNat = if 65 ≤ c.toNat ∧ c.toNat ≤ 90 then c.toNat + 32 else c.toNat := by
  delta Char.toLower
  split
  · rename_i upper
    have low : 65 ≤ c.toNat := UInt32.le_iff_toNat_le.mp upper.1
    have high : c.toNat ≤ 90 := UInt32.le_iff_toNat_le.mp upper.2
    rw [if_pos ⟨low, high⟩]
    change (c.val.toNat + 32) % 2 ^ 32 = c.toNat + 32
    exact Nat.mod_eq_of_lt (by change c.toNat + 32 < 2 ^ 32; omega)
  · rename_i other
    rw [if_neg]
    exact fun upper =>
      other ⟨UInt32.le_iff_toNat_le.mpr upper.1, UInt32.le_iff_toNat_le.mpr upper.2⟩

theorem toLower_toLower (c : Char) : c.toLower.toLower = c.toLower := by
  apply Char.toNat_inj.mp
  have lowered := toNat_toLower c
  rw [toNat_toLower, if_neg]
  split at lowered <;> omega

/-- Blanks are not letters. -/
theorem isWhitespace_toLower (c : Char) : isWhitespace c.toLower = isWhitespace c := by
  have lowered := toNat_toLower c
  split at lowered
  · simp only [isWhitespace, lowered]
    grind
  · simp only [isWhitespace, lowered]

theorem rdropWhile_append {s after : Text} {p : Char → Bool} (all : ∀ c ∈ after, p c = true) :
    (s ++ after).rdropWhile p = s.rdropWhile p := by
  rw [List.rdropWhile, List.reverse_append, List.dropWhile_append_of_pos, List.rdropWhile]
  exact fun c member => all c (List.mem_reverse.mp member)

/-- Blanks around a text do not matter. -/
theorem trim_blanks {before after : Text} (s : Text) (first : ∀ c ∈ before, isWhitespace c = true)
    (last : ∀ c ∈ after, isWhitespace c = true) : trim (before ++ s ++ after) = trim s := by
  rw [trim, List.append_assoc, List.dropWhile_append_of_pos first, List.dropWhile_append, trim]
  split
  · rename_i blank
    rw [List.isEmpty_iff.mp blank]
    rw [List.dropWhile_eq_nil_iff.mpr last]
  · exact rdropWhile_append last

/-- Blanks are found the same way before and after. -/
theorem toAsciiLowercase_trim (s : Text) :
    toAsciiLowercase (trim s) = trim (toAsciiLowercase s) := by
  have same : isWhitespace ∘ Char.toLower = isWhitespace := funext isWhitespace_toLower
  simp only [toAsciiLowercase, trim, List.rdropWhile, List.dropWhile_map, ← List.map_reverse, same]

theorem trim_trim (s : Text) : trim (trim s) = trim s := by
  have starts : (trim s).dropWhile isWhitespace = trim s := by
    obtain ⟨dropped, split⟩ := List.rdropWhile_prefix isWhitespace (s.dropWhile isWhitespace)
    change trim s ++ dropped = _ at split
    cases same : trim s with
    | nil => rfl
    | cons c rest =>
        have first := List.dropWhile_eq_self_iff.mp (List.dropWhile_idempotent isWhitespace s)
        simp only [← split, same, List.cons_append, List.length_cons, Nat.zero_lt_succ,
          forall_const, List.getElem_cons_zero] at first
        exact List.dropWhile_cons_of_neg first
  rw [trim, starts, trim, List.rdropWhile_idempotent]

theorem toAsciiLowercase_idem (s : Text) :
    toAsciiLowercase (toAsciiLowercase s) = toAsciiLowercase s := by
  simp only [toAsciiLowercase, List.map_map, Function.comp_def, toLower_toLower]

/-- The text before the first separator is determined, and so is the one after it. -/
theorem append_sep_inj {sep : Char} {a b s t : Text} (first : sep ∉ a) (second : sep ∉ b)
    (same : a ++ sep :: s = b ++ sep :: t) : a = b ∧ s = t := by
  induction a generalizing b with
  | nil =>
      cases b with
      | nil => exact ⟨rfl, (List.cons.inj same).2⟩
      | cons c b => exact absurd (List.cons.inj same).1 (List.ne_of_not_mem_cons second)
  | cons c a ih =>
      cases b with
      | nil => exact absurd (List.cons.inj same).1.symm (List.ne_of_not_mem_cons first)
      | cons d b =>
          obtain ⟨heads, tails⟩ := List.cons.inj same
          obtain ⟨rests, lasts⟩ := ih (List.not_mem_of_not_mem_cons first)
            (List.not_mem_of_not_mem_cons second) tails
          exact ⟨by rw [heads, rests], lasts⟩

/-- The same text with blanks around it and its ASCII letters in any case. -/
def Respelled (a b : Text) : Prop :=
  ∃ before core after, a = before ++ core ++ after ∧ (∀ c ∈ before, isWhitespace c = true) ∧
    (∀ c ∈ after, isWhitespace c = true) ∧ toAsciiLowercase core = toAsciiLowercase b

theorem Respelled.folded {a b : Text} (respelled : Respelled a b) :
    toAsciiLowercase (trim a) = toAsciiLowercase (trim b) := by
  obtain ⟨before, core, after, rfl, first, last, letters⟩ := respelled
  rw [trim_blanks core first last, toAsciiLowercase_trim, letters, toAsciiLowercase_trim]

end Chars
