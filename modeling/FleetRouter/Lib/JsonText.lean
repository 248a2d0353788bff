import Mathlib.Data.List.Sort
import Mathlib.Order.Defs.LinearOrder

/-!
# JSON values and their compact texts

A value with its members in a fixed order has one compact text, and different values have
different texts: every token ends where the next delimiter begins.  Values that differ only
in the order of members have one canonical value, with the members of every object sorted.
-/

namespace JsonText

/-- A number has type `ν`, a string type `τ`. -/
inductive Scalar (ν τ : Type) where
  | null
  | bool (value : Bool)
  | number (value : ν)
  | string (text : τ)
  deriving DecidableEq

inductive Value (ν τ : Type) where
  | scalar (s : Scalar ν τ)
  | array (items : List (Value ν τ))
  | object (members : List (τ × Value ν τ))

variable {ν τ : Type}

/-- What holds of a container if it holds of what the container has, holds of every value. -/
@[induction_eliminator]
theorem Value.induct {P : Value ν τ → Prop} (scalar : ∀ s, P (.scalar s))
    (array : ∀ items, (∀ v ∈ items, P v) → P (.array items))
    (object : ∀ members, (∀ m ∈ members, P m.2) → P (.object members)) (v : Value ν τ) : P v := by
  refine @Value.rec ν τ P (fun items => ∀ v ∈ items, P v) (fun members => ∀ m ∈ members, P m.2)
    (fun m => P m.2) scalar array object ?_ ?_ ?_ ?_ ?_ v
  · exact List.forall_mem_nil _
  · exact fun _ _ first rest => List.forall_mem_cons.mpr ⟨first, rest⟩
  · exact List.forall_mem_nil _
  · exact fun _ _ first rest => List.forall_mem_cons.mpr ⟨first, rest⟩
  · exact fun _ _ value => value

/-! ## Texts -/

def quote : UInt8 := 0x22
def comma : UInt8 := 0x2C
def colon : UInt8 := 0x3A
def openArray : UInt8 := 0x5B
def backslash : UInt8 := 0x5C
def closeArray : UInt8 := 0x5D
def openObject : UInt8 := 0x7B
def closeObject : UInt8 := 0x7D

/-- The parts with a comma before each but the first. -/
def commaList : List (List UInt8) → List UInt8
  | [] => []
  | first :: rest => first ++ rest.flatMap (comma :: ·)

mutual

/-- The compact text of a value, given the texts of its scalars. -/
def write (encode : Scalar ν τ → List UInt8) : Value ν τ → List UInt8
  | .scalar s => encode s
  | .array items => openArray :: commaList (writeItems encode items) ++ [closeArray]
  | .object members => openObject :: commaList (writeMembers encode members) ++ [closeObject]

def writeItems (encode : Scalar ν τ → List UInt8) : List (Value ν τ) → List (List UInt8)
  | [] => []
  | v :: rest => write encode v :: writeItems encode rest

def writeMembers (encode : Scalar ν τ → List UInt8) : List (τ × Value ν τ) → List (List UInt8)
  | [] => []
  | (key, v) :: rest =>
      (encode (.string key) ++ colon :: write encode v) :: writeMembers encode rest

end

/-- The text of one member. -/
def writeMember (encode : Scalar ν τ → List UInt8) (m : τ × Value ν τ) : List UInt8 :=
  encode (.string m.1) ++ colon :: write encode m.2

theorem writeItems_eq (encode : Scalar ν τ → List UInt8) (items : List (Value ν τ)) :
    writeItems encode items = items.map (write encode) := by
  induction items with
  | nil => rfl
  | cons v rest ih => rw [writeItems, ih, List.map_cons]

theorem writeMembers_eq (encode : Scalar ν τ → List UInt8) (members : List (τ × Value ν τ)) :
    writeMembers encode members = members.map (writeMember encode) := by
  induction members with
  | nil => rfl
  | cons m rest ih => rw [writeMembers, ih, List.map_cons, writeMember]

/-! ## Encodings of scalars -/

/-- A text in which every quote and every backslash is escaped. -/
inductive Escaped : List UInt8 → Prop
  | nil : Escaped []
  | plain {c : UInt8} {rest : List UInt8} : c ≠ quote → c ≠ backslash → Escaped rest →
      Escaped (c :: rest)
  | escape {c : UInt8} {rest : List UInt8} : Escaped rest → Escaped (backslash :: c :: rest)

/-- The first quote that is not escaped ends the text. -/
theorem Escaped.unique {body body' after after' : List UInt8} (escaped : Escaped body)
    (escaped' : Escaped body') (same : body ++ quote :: after = body' ++ quote :: after') :
    body = body' ∧ after = after' := by
  induction escaped generalizing body' with
  | nil =>
      cases escaped' with
      | nil => exact ⟨rfl, (List.cons.inj same).2⟩
      | plain notQuote => exact absurd (List.cons.inj same).1.symm notQuote
      | escape => exact absurd (List.cons.inj same).1 (by decide)
  | plain notQuote notBackslash _ ih =>
      cases escaped' with
      | nil => exact absurd (List.cons.inj same).1 notQuote
      | plain _ _ later =>
          obtain ⟨first, rest⟩ := List.cons.inj same
          obtain ⟨bodies, afters⟩ := ih later rest
          exact ⟨by rw [first, bodies], afters⟩
      | escape => exact absurd (List.cons.inj same).1 notBackslash
  | escape _ ih =>
      cases escaped' with
      | nil => exact absurd (List.cons.inj same).1 (by decide)
      | plain _ notBackslash => exact absurd (List.cons.inj same).1.symm notBackslash
      | escape later =>
          obtain ⟨first, rest⟩ := List.cons.inj (List.cons.inj same).2
          obtain ⟨bodies, afters⟩ := ih later rest
          exact ⟨by rw [first, bodies], afters⟩

def Scalar.isString : Scalar ν τ → Bool
  | .string _ => true
  | .null | .bool _ | .number _ => false

/-- The bytes between scalars. -/
def punctuation : List UInt8 := [comma, colon, openArray, closeArray, openObject, closeObject]

def structural : List UInt8 := quote :: punctuation

/-- Texts of scalars that can be told apart: strings in quotes, with the quotes inside
escaped, and the others without structural bytes. -/
structure Encoder (ν τ : Type) where
  encode : Scalar ν τ → List UInt8
  string_injective : ∀ s t, encode (.string s) = encode (.string t) → s = t
  string_quoted : ∀ s, ∃ body, encode (.string s) = quote :: (body ++ [quote]) ∧ Escaped body
  other_injective : ∀ s t, s.isString = false → t.isString = false → encode s = encode t → s = t
  other_nonempty : ∀ s, s.isString = false → encode s ≠ []
  other_plain : ∀ s, s.isString = false → ∀ c ∈ encode s, c ∉ structural

/-- A rest that begins with a delimiter, if it is not empty. -/
def Delimited (rest : List UInt8) : Prop :=
  ∀ c ∈ rest.head?, c ∈ [comma, colon, closeArray, closeObject]

theorem delimited_nil : Delimited [] := by simp [Delimited]

theorem delimited_cons {c : UInt8} {rest : List UInt8}
    (delimiter : c ∈ [comma, colon, closeArray, closeObject]) : Delimited (c :: rest) := by
  simpa [Delimited] using delimiter

/-- A text that begins with none of the delimiters. -/
def Starts (text : List UInt8) : Prop :=
  ∃ c rest, text = c :: rest ∧ c ∉ [comma, colon, closeArray, closeObject]

namespace Encoder

variable (enc : Encoder ν τ)

/-- A scalar begins with a byte of its own: a quote, or one that is not structural. -/
theorem first_scalar (s : Scalar ν τ) : ∃ c rest, enc.encode s = c :: rest ∧ c ∉ punctuation := by
  cases isString : s.isString with
  | true =>
      cases s with
      | string text =>
          obtain ⟨body, quoted, -⟩ := enc.string_quoted text
          exact ⟨quote, body ++ [quote], quoted, by decide⟩
      | null | bool | number => cases isString
  | false =>
      cases text : enc.encode s with
      | nil => exact absurd text (enc.other_nonempty s isString)
      | cons c rest =>
          have plain := enc.other_plain s isString c (text ▸ List.mem_cons_self ..)
          exact ⟨c, rest, rfl, fun between => plain (List.mem_cons_of_mem _ between)⟩

theorem starts_scalar (s : Scalar ν τ) : Starts (enc.encode s) := by
  obtain ⟨c, rest, first, notPunctuation⟩ := enc.first_scalar s
  have delimiters : [comma, colon, closeArray, closeObject] ⊆ punctuation := by decide
  exact ⟨c, rest, first, fun delimiter => notPunctuation (delimiters delimiter)⟩

theorem scalar_ne_bracket {s : Scalar ν τ} {rest text : List UInt8} {c : UInt8}
    (bracket : c ∈ punctuation) : enc.encode s ++ rest ≠ c :: text := by
  obtain ⟨first, tail, begins, notPunctuation⟩ := enc.first_scalar s
  intro same
  rw [begins] at same
  exact notPunctuation ((List.cons.inj same).1 ▸ bracket)

/-- A string ends with its closing quote, whatever follows. -/
theorem string_unique {s t : τ} {rest rest' : List UInt8}
    (same : enc.encode (.string s) ++ rest = enc.encode (.string t) ++ rest') :
    s = t ∧ rest = rest' := by
  obtain ⟨body, quoted, escaped⟩ := enc.string_quoted s
  obtain ⟨body', quoted', escaped'⟩ := enc.string_quoted t
  rw [quoted, quoted'] at same
  simp only [List.cons_append, List.append_assoc, List.cons.injEq, true_and,
    List.nil_append] at same
  obtain ⟨bodies, rests⟩ := escaped.unique escaped' same
  exact ⟨enc.string_injective s t (by rw [quoted, quoted', bodies]), rests⟩

/-- The plain bytes before a delimiter. -/
theorem takeWhile_other {s : Scalar ν τ} (other : s.isString = false) {rest : List UInt8}
    (delimited : Delimited rest) :
    (enc.encode s ++ rest).takeWhile (fun c => decide (c ∉ structural)) = enc.encode s := by
  have plain : ∀ c ∈ enc.encode s, decide (c ∉ structural) = true := fun c member =>
    decide_eq_true (enc.other_plain s other c member)
  have stops : rest.takeWhile (fun c => decide (c ∉ structural)) = [] := by
    cases rest with
    | nil => rfl
    | cons c rest =>
        apply List.takeWhile_cons_of_neg
        have delimiters : [comma, colon, closeArray, closeObject] ⊆ structural := by decide
        rw [decide_eq_true_eq, not_not]
        exact delimiters (delimited c rfl)
  rw [List.takeWhile_append_of_pos plain, stops, List.append_nil]

theorem first_other {s : Scalar ν τ} (other : s.isString = false) {rest text : List UInt8}
    (same : enc.encode s ++ rest = quote :: text) : False := by
  cases first : enc.encode s with
  | nil => exact enc.other_nonempty s other first
  | cons c tail =>
      rw [first, List.cons_append] at same
      apply enc.other_plain s other c (first ▸ List.mem_cons_self ..)
      rw [(List.cons.inj same).1]
      decide

/-- A string is no other scalar: it begins with a quote. -/
theorem string_ne_other {s : τ} {t : Scalar ν τ} (other : t.isString = false)
    {rest rest' : List UInt8} : enc.encode (.string s) ++ rest ≠ enc.encode t ++ rest' := by
  intro same
  obtain ⟨body, quoted, -⟩ := enc.string_quoted s
  rw [quoted] at same
  exact enc.first_other other same.symm

/-- A scalar ends where the delimiter after it begins. -/
theorem scalar_unique {s t : Scalar ν τ} {rest rest' : List UInt8} (delimited : Delimited rest)
    (delimited' : Delimited rest') (same : enc.encode s ++ rest = enc.encode t ++ rest') :
    s = t ∧ rest = rest' := by
  have others (other : s.isString = false) (other' : t.isString = false) :
      s = t ∧ rest = rest' := by
    have texts := enc.takeWhile_other other delimited
    rw [same, enc.takeWhile_other other' delimited'] at texts
    rw [texts] at same
    exact ⟨(enc.other_injective t s other' other texts).symm, List.append_cancel_left same⟩
  cases s with
  | string a =>
      cases t with
      | string b =>
          obtain ⟨texts, rests⟩ := enc.string_unique same
          exact ⟨by rw [texts], rests⟩
      | null | bool | number => exact absurd same (enc.string_ne_other rfl)
  | null | bool | number =>
      cases t with
      | string b => exact absurd same.symm (enc.string_ne_other rfl)
      | null | bool | number => exact others rfl rfl

end Encoder

/-! ## Different values have different texts -/

/-- Equal texts, whatever follows them, are of equal values. -/
def Decodes {α : Type} (text : α → List UInt8) (a : α) : Prop :=
  ∀ b rest rest', Delimited rest → Delimited rest' → text a ++ rest = text b ++ rest' →
    a = b ∧ rest = rest'

section Lists

variable {α : Type} {text : α → List UInt8} {as bs : List α}
    {close : UInt8} {rest rest' : List UInt8}

/-- The text after the first item of a list begins with a comma or closes the list. -/
theorem delimited_tail (closes : close ∈ [closeArray, closeObject]) :
    Delimited ((as.map text).flatMap (comma :: ·) ++ close :: rest) := by
  cases as with
  | nil => exact delimited_cons (List.mem_cons_of_mem _ (List.mem_cons_of_mem _ closes))
  | cons a as => exact delimited_cons (by decide)

theorem tail_unique (closes : close ∈ [closeArray, closeObject])
    (decodes : ∀ a ∈ as, Decodes text a)
    (same : (as.map text).flatMap (comma :: ·) ++ close :: rest =
      (bs.map text).flatMap (comma :: ·) ++ close :: rest') : as = bs ∧ rest = rest' := by
  have notComma : close ≠ comma := by
    rintro rfl
    exact absurd closes (by decide)
  induction as generalizing bs with
  | nil =>
      cases bs with
      | nil => exact ⟨rfl, (List.cons.inj same).2⟩
      | cons b bs => exact absurd (List.cons.inj same).1 notComma
  | cons a as ih =>
      cases bs with
      | nil => exact absurd (List.cons.inj same).1.symm notComma
      | cons b bs =>
          obtain ⟨first, later⟩ := List.forall_mem_cons.mp decodes
          simp only [List.map_cons, List.flatMap_cons, List.cons_append, List.append_assoc] at same
          obtain ⟨heads, tails⟩ := first b _ _ (delimited_tail closes) (delimited_tail closes)
            (List.cons.inj same).2
          obtain ⟨items, rests⟩ := ih later tails
          exact ⟨by rw [heads, items], rests⟩

/-- A list in brackets ends with its bracket. -/
theorem commaList_unique (closes : close ∈ [closeArray, closeObject])
    (decodes : ∀ a ∈ as, Decodes text a) (starts : ∀ a, Starts (text a))
    (same : commaList (as.map text) ++ close :: rest = commaList (bs.map text) ++ close :: rest') :
    as = bs ∧ rest = rest' := by
  have notStart (a : α) {after after' : List UInt8} : close :: after ≠ text a ++ after' := by
    obtain ⟨c, tail, first, notDelimiter⟩ := starts a
    rw [first]
    intro same
    rw [← (List.cons.inj same).1] at notDelimiter
    exact notDelimiter (List.mem_cons_of_mem _ (List.mem_cons_of_mem _ closes))
  cases as with
  | nil =>
      cases bs with
      | nil => exact ⟨rfl, (List.cons.inj same).2⟩
      | cons b bs =>
          simp only [List.map_cons, commaList, List.append_assoc] at same
          exact absurd same (notStart b)
  | cons a as =>
      cases bs with
      | nil =>
          simp only [List.map_cons, commaList, List.append_assoc] at same
          exact absurd same.symm (notStart a)
      | cons b bs =>
          obtain ⟨first, later⟩ := List.forall_mem_cons.mp decodes
          simp only [List.map_cons, commaList, List.append_assoc] at same
          obtain ⟨heads, tails⟩ := first b _ _ (delimited_tail closes) (delimited_tail closes) same
          obtain ⟨items, rests⟩ := tail_unique closes later tails
          exact ⟨by rw [heads, items], rests⟩

end Lists

section Values

variable (enc : Encoder ν τ)

theorem starts_write (v : Value ν τ) : Starts (write enc.encode v) := by
  cases v with
  | scalar s => exact enc.starts_scalar s
  | array items => exact ⟨openArray, _, rfl, by decide⟩
  | object members => exact ⟨openObject, _, rfl, by decide⟩

theorem starts_writeMember (m : τ × Value ν τ) : Starts (writeMember enc.encode m) := by
  obtain ⟨c, rest, first, notDelimiter⟩ := enc.starts_scalar (.string m.1)
  exact ⟨c, _, by rw [writeMember, first, List.cons_append], notDelimiter⟩

/-- A member decodes when its value does. -/
theorem decodes_writeMember {m : τ × Value ν τ} (value : Decodes (write enc.encode) m.2) :
    Decodes (writeMember enc.encode) m := by
  intro n rest rest' delimited delimited' same
  simp only [writeMember, List.append_assoc, List.cons_append] at same
  obtain ⟨keys, after⟩ := enc.string_unique same
  obtain ⟨values, rests⟩ := value n.2 rest rest' delimited delimited' (List.cons.inj after).2
  exact ⟨Prod.ext keys values, rests⟩

theorem decodes_write (v : Value ν τ) : Decodes (write enc.encode) v := by
  induction v with
  | scalar s =>
      intro w rest rest' delimited delimited' same
      cases w with
      | scalar t =>
          obtain ⟨scalars, rests⟩ := enc.scalar_unique delimited delimited' same
          exact ⟨by rw [scalars], rests⟩
      | array | object => exact absurd same (enc.scalar_ne_bracket (by decide))
  | array items ih =>
      intro w rest rest' _ _ same
      cases w with
      | scalar t => exact absurd same.symm (enc.scalar_ne_bracket (by decide))
      | array items' =>
          simp only [write, writeItems_eq, List.cons_append, List.append_assoc,
            List.nil_append] at same
          obtain ⟨equal, rests⟩ := commaList_unique (by decide) ih (starts_write enc)
            (List.cons.inj same).2
          exact ⟨by rw [equal], rests⟩
      | object members => exact absurd (List.cons.inj same).1 (by decide)
  | object members ih =>
      intro w rest rest' _ _ same
      cases w with
      | scalar t => exact absurd same.symm (enc.scalar_ne_bracket (by decide))
      | array items => exact absurd (List.cons.inj same).1 (by decide)
      | object members' =>
          simp only [write, writeMembers_eq, List.cons_append, List.append_assoc,
            List.nil_append] at same
          obtain ⟨equal, rests⟩ := commaList_unique (by decide)
            (fun m member => decodes_writeMember enc (ih m member)) (starts_writeMember enc)
            (List.cons.inj same).2
          exact ⟨by rw [equal], rests⟩

theorem write_injective {v w : Value ν τ} (same : write enc.encode v = write enc.encode w) :
    v = w :=
  (decodes_write enc v w [] [] delimited_nil delimited_nil (by rw [same])).1

end Values

/-! ## Members -/

def Value.asArray : Value ν τ → Option (List (Value ν τ))
  | .array items => some items
  | .scalar _ | .object _ => none

def Value.asStr : Value ν τ → Option τ
  | .scalar (.string text) => some text
  | .scalar _ | .array _ | .object _ => none

theorem Value.asStr_eq_some {v : Value ν τ} {text : τ} (isStr : v.asStr = some text) :
    v = .scalar (.string text) := by
  cases v with
  | scalar s => cases s <;> cases isStr; rfl
  | array | object => cases isStr

section Members

variable [DecidableEq τ] {α : Type} {key : τ}

/-- The value with a key, of the first of its members. -/
def Value.member (key : τ) : Value ν τ → Option (Value ν τ)
  | .object members => members.lookup key
  | .scalar _ | .array _ => none

def modifyFirst (key : τ) (f : α → α) : List (τ × α) → List (τ × α)
  | [] => []
  | m :: rest => if m.1 = key then (m.1, f m.2) :: rest else m :: modifyFirst key f rest

/-- Changes what a member has, if there is one. -/
def Value.modifyMember (key : τ) (f : Value ν τ → Value ν τ) : Value ν τ → Value ν τ
  | .object members => .object (modifyFirst key f members)
  | .scalar s => .scalar s
  | .array items => .array items

theorem lookup_cons_of_ne {m : τ × α} {rest : List (τ × α)} (other : m.1 ≠ key) :
    (m :: rest).lookup key = rest.lookup key := by
  have differs : (key == m.1) = false := beq_false_of_ne other.symm
  rw [List.lookup_cons, differs]

theorem keys_modifyFirst (f : α → α) (members : List (τ × α)) :
    (modifyFirst key f members).map Prod.fst = members.map Prod.fst := by
  induction members with
  | nil => rfl
  | cons m rest ih =>
      rw [modifyFirst]
      split
      · rfl
      · rw [List.map_cons, ih, List.map_cons]

theorem lookup_modifyFirst (f : α → α) (members : List (τ × α)) :
    (modifyFirst key f members).lookup key = (members.lookup key).map f := by
  induction members with
  | nil => rfl
  | cons m rest ih =>
      rw [modifyFirst]
      split
      · rename_i same
        rw [← same, List.lookup_cons_self, List.lookup_cons_self, Option.map_some]
      · rename_i other
        rw [lookup_cons_of_ne other, lookup_cons_of_ne other, ih]

theorem modifyFirst_modifyFirst (f g : α → α) (members : List (τ × α)) :
    modifyFirst key f (modifyFirst key g members) = modifyFirst key (f ∘ g) members := by
  induction members with
  | nil => rfl
  | cons m rest ih =>
      rw [modifyFirst, modifyFirst]
      split
      · rename_i same
        rw [modifyFirst, if_pos same, Function.comp_apply]
      · rename_i other
        rw [modifyFirst, if_neg other, ih]

theorem forall_modifyFirst {P : α → Prop} {f : α → α} (keeps : ∀ a, P a → P (f a))
    {members : List (τ × α)} (all : ∀ m ∈ members, P m.2) :
    ∀ m ∈ modifyFirst key f members, P m.2 := by
  induction members with
  | nil => exact all
  | cons m rest ih =>
      obtain ⟨first, later⟩ := List.forall_mem_cons.mp all
      rw [modifyFirst]
      split
      · exact List.forall_mem_cons.mpr ⟨keeps m.2 first, later⟩
      · exact List.forall_mem_cons.mpr ⟨first, ih later⟩

theorem Value.member_modifyMember (f : Value ν τ → Value ν τ) (v : Value ν τ) :
    (v.modifyMember key f).member key = (v.member key).map f := by
  cases v with
  | object members => exact lookup_modifyFirst f members
  | scalar s => rfl
  | array items => rfl

theorem Value.modifyMember_modifyMember (f g : Value ν τ → Value ν τ) (v : Value ν τ) :
    (v.modifyMember key g).modifyMember key f = v.modifyMember key (f ∘ g) := by
  cases v with
  | object members => exact congrArg Value.object (modifyFirst_modifyFirst f g members)
  | scalar s => rfl
  | array items => rfl

theorem modifyFirst_eq_self {f : α → α} {members : List (τ × α)}
    (same : ∀ a, members.lookup key = some a → f a = a) : modifyFirst key f members = members := by
  induction members with
  | nil => rfl
  | cons m rest ih =>
      rw [modifyFirst]
      split
      · rename_i isKey
        rw [same m.2 (by rw [← isKey, List.lookup_cons_self])]
      · rename_i other
        rw [lookup_cons_of_ne other] at same
        rw [ih same]

theorem Value.modifyMember_eq_self {f : Value ν τ → Value ν τ} {v : Value ν τ}
    (same : ∀ w, v.member key = some w → f w = w) : v.modifyMember key f = v := by
  cases v with
  | object members => exact congrArg Value.object (modifyFirst_eq_self same)
  | scalar s => rfl
  | array items => rfl

/-- Every object has its keys in order, each once. -/
inductive Value.Sorted [LT τ] : Value ν τ → Prop
  | scalar (s : Scalar ν τ) : Sorted (.scalar s)
  | array {items : List (Value ν τ)} : (∀ v ∈ items, Sorted v) → Sorted (.array items)
  | object {members : List (τ × Value ν τ)} : (members.map Prod.fst).Pairwise (· < ·) →
      (∀ m ∈ members, Sorted m.2) → Sorted (.object members)

theorem Value.Sorted.modifyMember [LT τ] {f : Value ν τ → Value ν τ}
    (keeps : ∀ v, v.Sorted → (f v).Sorted) {v : Value ν τ} (sorted : v.Sorted) :
    (v.modifyMember key f).Sorted := by
  cases sorted with
  | scalar s => exact .scalar s
  | array items => exact .array items
  | object keys values =>
      apply Value.Sorted.object
      · rw [keys_modifyFirst]
        exact keys
      · exact forall_modifyFirst keeps values

end Members

/-! ## Canonical values -/

/-- Every object has each key once. -/
inductive Value.Distinct : Value ν τ → Prop
  | scalar (s : Scalar ν τ) : Distinct (.scalar s)
  | array {items : List (Value ν τ)} : (∀ v ∈ items, Distinct v) → Distinct (.array items)
  | object {members : List (τ × Value ν τ)} : (members.map Prod.fst).Nodup →
      (∀ m ∈ members, Distinct m.2) → Distinct (.object members)

/-- The second value is the first with the members of some of its objects, at any depth,
in another order. -/
inductive Value.Reordered : Value ν τ → Value ν τ → Prop
  | refl (v : Value ν τ) : Reordered v v
  | trans {u v w : Value ν τ} : Reordered u v → Reordered v w → Reordered u w
  | members {ms ns : List (τ × Value ν τ)} : ms.Perm ns → Reordered (.object ms) (.object ns)
  | inArray {v w : Value ν τ} (before after : List (Value ν τ)) : Reordered v w →
      Reordered (.array (before ++ v :: after)) (.array (before ++ w :: after))
  | inObject {v w : Value ν τ} (key : τ) (before after : List (τ × Value ν τ)) : Reordered v w →
      Reordered (.object (before ++ (key, v) :: after)) (.object (before ++ (key, w) :: after))

theorem Value.Reordered.symm {v w : Value ν τ} (reordered : v.Reordered w) : w.Reordered v := by
  induction reordered with
  | refl v => exact .refl v
  | trans _ _ first second => exact .trans second first
  | members permuted => exact .members permuted.symm
  | inArray before after _ ih => exact .inArray before after ih
  | inObject key before after _ ih => exact .inObject key before after ih

section Canonical

variable [LinearOrder τ]

/-- The order members are sorted by. -/
def ByKey {α : Type} (m n : τ × α) : Prop := m.1 ≤ n.1

instance instDecidableByKey {α : Type} : DecidableRel (ByKey (τ := τ) (α := α)) := fun m n =>
  inferInstanceAs (Decidable (m.1 ≤ n.1))

instance instTotalByKey {α : Type} : Std.Total (ByKey (τ := τ) (α := α)) where
  total m n := le_total m.1 n.1

instance instTransByKey {α : Type} : IsTrans (τ × α) ByKey where
  trans _ _ _ := le_trans

mutual

/-- The value with the members of every object in the order of their keys. -/
def Value.canonical : Value ν τ → Value ν τ
  | .scalar s => .scalar s
  | .array items => .array (canonicalItems items)
  | .object members => .object ((canonicalMembers members).insertionSort ByKey)

def canonicalItems : List (Value ν τ) → List (Value ν τ)
  | [] => []
  | v :: rest => v.canonical :: canonicalItems rest

def canonicalMembers : List (τ × Value ν τ) → List (τ × Value ν τ)
  | [] => []
  | (key, v) :: rest => (key, v.canonical) :: canonicalMembers rest

end

theorem canonicalItems_eq (items : List (Value ν τ)) :
    canonicalItems items = items.map Value.canonical := by
  induction items with
  | nil => rfl
  | cons v rest ih => rw [canonicalItems, ih, List.map_cons]

theorem canonicalMembers_eq (members : List (τ × Value ν τ)) :
    canonicalMembers members = members.map (fun m => (m.1, m.2.canonical)) := by
  induction members with
  | nil => rfl
  | cons m rest ih =>
      rw [canonicalMembers, ih, List.map_cons]

namespace Value

variable {v w : Value ν τ}

theorem Reordered.items {items : List (Value ν τ)} (each : ∀ v ∈ items, v.Reordered v.canonical)
    (before : List (Value ν τ)) :
    Reordered (.array (before ++ items)) (.array (before ++ items.map canonical)) := by
  induction items generalizing before with
  | nil => exact .refl _
  | cons v rest ih =>
      obtain ⟨first, later⟩ := List.forall_mem_cons.mp each
      apply Reordered.trans (.inArray before rest first)
      simpa using ih later (before ++ [v.canonical])

theorem Reordered.memberValues {members : List (τ × Value ν τ)}
    (each : ∀ m ∈ members, m.2.Reordered m.2.canonical) (before : List (τ × Value ν τ)) :
    Reordered (.object (before ++ members))
      (.object (before ++ members.map (fun m => (m.1, m.2.canonical)))) := by
  induction members generalizing before with
  | nil => exact .refl _
  | cons m rest ih =>
      obtain ⟨first, later⟩ := List.forall_mem_cons.mp each
      apply Reordered.trans (.inObject m.1 before rest first)
      simpa using ih later (before ++ [(m.1, m.2.canonical)])

theorem reordered_canonical (v : Value ν τ) : v.Reordered v.canonical := by
  induction v with
  | scalar s => exact .refl _
  | array items ih =>
      rw [canonical, canonicalItems_eq]
      exact Reordered.items ih []
  | object members ih =>
      rw [canonical, canonicalMembers_eq]
      apply Reordered.trans (Reordered.memberValues ih [])
      exact .members (List.perm_insertionSort ..).symm

/-- Sorting forgets the order of members with different keys. -/
theorem sort_eq {α : Type} {ms ns : List (τ × α)} (permuted : ms.Perm ns)
    (distinct : (ms.map Prod.fst).Nodup) : ms.insertionSort ByKey = ns.insertionSort ByKey := by
  have sorted : (ms.insertionSort ByKey).Perm (ns.insertionSort ByKey) :=
    ((List.perm_insertionSort _ ms).trans permuted).trans (List.perm_insertionSort _ ns).symm
  apply sorted.eq_of_pairwise _ (List.pairwise_insertionSort ..) (List.pairwise_insertionSort ..)
  intro m n isM isN below above
  rw [List.mem_insertionSort] at isM isN
  exact List.inj_on_of_nodup_map distinct isM (permuted.mem_iff.mpr isN) (le_antisymm below above)

theorem Reordered.canonical_eq (reordered : v.Reordered w) (distinct : v.Distinct) :
    w.Distinct ∧ v.canonical = w.canonical := by
  induction reordered with
  | refl v => exact ⟨distinct, rfl⟩
  | trans _ _ first second =>
      obtain ⟨middle, same⟩ := first distinct
      obtain ⟨last, same'⟩ := second middle
      exact ⟨last, same.trans same'⟩
  | @members ms ns permuted =>
      cases distinct with
      | object keys values =>
          refine ⟨.object ((permuted.map Prod.fst).nodup_iff.mp keys) ?_, ?_⟩
          · exact fun m member => values m (permuted.mem_iff.mpr member)
          · rw [canonical, canonical, canonicalMembers_eq, canonicalMembers_eq]
            rw [sort_eq (permuted.map _)]
            rwa [List.map_map]
  | inArray before after _ ih =>
      cases distinct with
      | array values =>
          simp only [List.forall_mem_append, List.forall_mem_cons] at values
          obtain ⟨first, here, last⟩ := values
          obtain ⟨distinct, same⟩ := ih here
          constructor
          · apply Distinct.array
            simp only [List.forall_mem_append, List.forall_mem_cons]
            exact ⟨first, distinct, last⟩
          · simp only [canonical, canonicalItems_eq, List.map_append, List.map_cons, same]
  | inObject key before after _ ih =>
      cases distinct with
      | object keys values =>
          simp only [List.forall_mem_append, List.forall_mem_cons] at values
          obtain ⟨first, here, last⟩ := values
          obtain ⟨distinct, same⟩ := ih here
          constructor
          · apply Distinct.object
            · simpa using keys
            · simp only [List.forall_mem_append, List.forall_mem_cons]
              exact ⟨first, distinct, last⟩
          · simp only [canonical, canonicalMembers_eq, List.map_append, List.map_cons, same]

/-- Values have one canonical value if they are equal up to the order of members. -/
theorem canonical_eq_iff (distinct : v.Distinct) : v.canonical = w.canonical ↔ v.Reordered w := by
  constructor
  · intro same
    have back := w.reordered_canonical.symm
    rw [← same] at back
    exact .trans v.reordered_canonical back
  · exact fun reordered => (reordered.canonical_eq distinct).2

end Value

end Canonical

/-! ## An encoder -/

def escapeByte (c : UInt8) : List UInt8 :=
  if c = quote ∨ c = backslash then [backslash, c] else [c]

theorem escaped_flatMap (bytes : List UInt8) : Escaped (bytes.flatMap escapeByte) := by
  induction bytes with
  | nil => exact .nil
  | cons c rest ih =>
      rw [List.flatMap_cons, escapeByte]
      split
      · exact .escape ih
      · rename_i plain
        exact .plain (fun isQuote => plain (.inl isQuote))
          (fun isEscape => plain (.inr isEscape)) ih

theorem flatMap_escapeByte_injective {bytes bytes' : List UInt8}
    (same : bytes.flatMap escapeByte = bytes'.flatMap escapeByte) : bytes = bytes' := by
  have nonempty (c : UInt8) (rest : List UInt8) : [] ≠ escapeByte c ++ rest := by
    rw [escapeByte]
    split <;> simp
  induction bytes generalizing bytes' with
  | nil =>
      cases bytes' with
      | nil => rfl
      | cons c rest => exact absurd same (nonempty c _)
  | cons c rest ih =>
      cases bytes' with
      | nil => exact absurd same.symm (nonempty c _)
      | cons d rest' =>
          simp only [List.flatMap_cons, escapeByte] at same
          have both : c = d ∧ rest.flatMap escapeByte = rest'.flatMap escapeByte := by
            split at same <;> split at same <;> grind
          rw [both.1, ih both.2]

/-- Writes literals by their first letter and knows one number. -/
def sampleEncode : Scalar Unit String → List UInt8
  | .null => [0x6E]
  | .bool true => [0x74]
  | .bool false => [0x66]
  | .number () => [0x30]
  | .string text => quote :: (text.toUTF8.data.toList.flatMap escapeByte ++ [quote])

/-- The scalars that are not strings. -/
def sampleOthers : List (Scalar Unit String) := [.null, .bool true, .bool false, .number ()]

theorem mem_sampleOthers {s : Scalar Unit String} (other : s.isString = false) :
    s ∈ sampleOthers := by
  cases s with
  | string text => cases other
  | bool value => cases value <;> decide
  | null => decide
  | number value => exact List.mem_of_getElem? (i := 3) rfl

def sampleEncoder : Encoder Unit String where
  encode := sampleEncode
  string_injective s t same := by
    simp only [sampleEncode, List.cons.injEq, true_and, List.append_cancel_right_eq] at same
    have bytes := flatMap_escapeByte_injective same
    exact String.toByteArray_inj.mp (ByteArray.ext (Array.toList_inj.mp bytes))
  string_quoted s := ⟨_, rfl, escaped_flatMap _⟩
  other_injective s t other other' := by
    have every :
        ∀ s ∈ sampleOthers, ∀ t ∈ sampleOthers, sampleEncode s = sampleEncode t → s = t := by
      decide
    exact every s (mem_sampleOthers other) t (mem_sampleOthers other')
  other_nonempty s other := by
    have every : ∀ s ∈ sampleOthers, sampleEncode s ≠ [] := by decide
    exact every s (mem_sampleOthers other)
  other_plain s other := by
    have every : ∀ s ∈ sampleOthers, (sampleEncode s).all (· ∉ structural) := by decide
    intro c written
    exact of_decide_eq_true (List.all_eq_true.mp (every s (mem_sampleOthers other)) c written)

end JsonText
