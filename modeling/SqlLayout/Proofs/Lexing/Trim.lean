import Mathlib.Data.List.TakeWhile
import SqlLayout.Lexing.Sweep

/-! Trimming: what blanks around a text come to. -/

namespace SqlLayout

/-- Whether a text is made of blanks alone. -/
def Text.Blank (text : Text) : Prop :=
  ∀ c ∈ text, isBlank c = true

namespace Text

/-- A blank in front of a text is trimmed. -/
theorem trim_cons {c : Char} (blank : isBlank c = true) (text : Text) :
    trim (c :: text) = trim text := by
  simp [trim, trimStart, blank]

/-- Blanks in front of a text are trimmed. -/
theorem trim_blank_append {front : Text} (blank : Blank front) (text : Text) :
    trim (front ++ text) = trim text := by
  -- Each blank of the front is dropped on its own.
  induction front with
  | nil => rfl
  | cons c front ih =>
    obtain ⟨first, rest⟩ := List.forall_mem_cons.mp blank
    rw [List.cons_append, trim_cons first, ih rest]

/-- Blanks behind a text are trimmed. -/
theorem trim_append_blank (text : Text) {back : Text} (blank : Blank back) :
    trim (text ++ back) = trim text := by
  have ending : ∀ text : Text, trimEnd (text ++ back) = trimEnd text := by
    intro text
    unfold trimEnd dropEnd
    rw [List.reverse_append, List.dropWhile_append_of_pos]
    intro c member
    exact blank c (List.mem_reverse.mp member)
  unfold trim trimStart
  -- either the text is all blank, and the rest goes with it, or the front is trimmed as before
  rw [List.dropWhile_append]
  split
  · rename_i bare
    rw [List.isEmpty_iff.mp bare, List.dropWhile_eq_nil_iff.mpr blank]
  · exact ending _

/-- A text is what trimming leaves of it, with blanks around. -/
theorem exists_trim (text : Text) :
    ∃ front back, Blank front ∧ Blank back ∧ text = front ++ trim text ++ back := by
  -- The trim at the start drops the blanks before, the one at the end those behind.
  refine ⟨text.takeWhile isBlank, ((text.dropWhile isBlank).reverse.takeWhile isBlank).reverse,
    ?_, ?_, ?_⟩
  · intro c member
    exact List.mem_takeWhile_imp member
  · intro c member
    exact List.mem_takeWhile_imp (List.mem_reverse.mp member)
  · unfold trim trimStart trimEnd dropEnd
    rw [List.append_assoc, ← List.reverse_append, List.takeWhile_append_dropWhile,
      List.reverse_reverse, List.takeWhile_append_dropWhile]

/-- What trimming leaves begins and ends with no blank, so trimming it again changes nothing. -/
theorem trim_trim (text : Text) : trim (trim text) = trim text := by
  -- Put between the blanks that were taken away, what is left is trimmed to itself again.
  obtain ⟨front, back, blank, blank', split⟩ := exists_trim text
  have same := congrArg trim split
  rw [List.append_assoc, trim_blank_append blank, trim_append_blank _ blank'] at same
  exact same.symm

/-- A text of blanks alone is trimmed to nothing. -/
theorem trim_eq_nil_iff {text : Text} : trim text = [] ↔ Blank text := by
  constructor
  · -- what the trim takes away on both sides is blank
    intro bare
    obtain ⟨front, back, blank, blank', split⟩ := exists_trim text
    rw [bare, List.append_nil] at split
    rw [split]
    exact List.forall_mem_append.mpr ⟨blank, blank'⟩
  · intro blank
    have none := trim_blank_append blank []
    rwa [List.append_nil] at none

/-- A text that begins and ends with no blank is left as it is. -/
theorem trim_eq_self {text : Text} (first : ∀ c ∈ text.head?, isBlank c = false)
    (last : ∀ c ∈ text.getLast?, isBlank c = false) : trim text = text := by
  -- Trimming stops at once on either side, as no blank stands there.
  have front : ∀ {text : Text}, (∀ c ∈ text.head?, isBlank c = false) →
      text.dropWhile isBlank = text := by
    intro text first
    cases text with
    | nil => rfl
    | cons c text => rw [List.dropWhile_cons, first c rfl, if_neg nofun]
  unfold trim trimStart trimEnd dropEnd
  rw [front first, front, List.reverse_reverse]
  -- At the end it is the reversed text whose first character counts.
  intro c back
  rw [List.head?_reverse] at back
  exact last c back

/-- The characters of a text that are no blanks. -/
def ink (text : Text) : Text :=
  -- They keep their order.
  text.filter fun c => !isBlank c

/-- The ink of two texts is that of the first and then that of the second. -/
@[simp] theorem ink_append (front back : Text) : (front ++ back).ink = front.ink ++ back.ink :=
  -- The ink is a filter, and filters go over both parts.
  List.filter_append front back

/-- Blanks have no ink. -/
theorem ink_of_blank {text : Text} (blank : Blank text) : text.ink = [] := by
  -- Every character is one of those that are left out.
  refine List.filter_eq_nil_iff.mpr ?_
  intro c member
  simp [blank c member]

/-- Trimming a text takes none of its ink. -/
theorem ink_trim (text : Text) : (trim text).ink = text.ink := by
  -- What is trimmed at either end are blanks.
  obtain ⟨front, back, blank, blank', split⟩ := exists_trim text
  have whole := congrArg ink split
  rwa [ink_append, ink_append, ink_of_blank blank, ink_of_blank blank', List.append_nil,
    List.nil_append, eq_comm] at whole

end Text

/-- A blank in front of a text leaves the fragment it comes to. -/
theorem fragment_cons {c : Char} (blank : isBlank c = true) (text : Text) :
    fragment (c :: text) = fragment text := by
  -- A fragment is a trimmed text, and trimming drops the blank.
  rw [fragment, Text.trim_cons blank, ← fragment]

/-- Blanks behind a text leave the fragment it comes to. -/
theorem fragment_append (text : Text) {back : Text} (blank : Text.Blank back) :
    fragment (text ++ back) = fragment text := by
  -- Trimming drops blanks behind a text as well.
  rw [fragment, Text.trim_append_blank text blank, ← fragment]

/-- A text of blanks alone comes to no fragment. -/
theorem fragment_blank {text : Text} (blank : Text.Blank text) : fragment text = [] := by
  -- Nothing is left of blanks, and an empty fragment is no piece.
  rw [fragment, if_pos (Text.trim_eq_nil_iff.mpr blank)]

/-- The characters of names are printable ASCII characters other than the blank. -/
theorem isNameChar_range {c : Char} (name : isNameChar c = true) :
    33 ≤ c.toNat ∧ c.toNat ≤ 122 := by
  -- a letter or a digit lies in the ASCII range; the five signs are looked up
  unfold isNameChar Char.isAlphanum Char.isAlpha Char.isUpper Char.isLower Char.isDigit at name
  simp only [Bool.or_eq_true, Bool.and_eq_true, decide_eq_true_eq, beq_iff_eq, ge_iff_le,
    UInt32.le_iff_toNat_le] at name
  rcases name with (((((letter | rfl) | rfl) | rfl) | rfl) | rfl) | rfl
  · have same : c.toNat = c.val.toNat := rfl
    simp at letter
    omega
  all_goals decide

/-- A blank is no character of a name. -/
theorem isNameChar_of_isBlank {c : Char} (blank : isBlank c = true) : isNameChar c = false := by
  -- Name characters lie in ranges of codes that no blank lies in.
  by_contra name
  have range := isNameChar_range (by simpa using name)
  simp only [isBlank, Bool.or_eq_true, Bool.and_eq_true, decide_eq_true_eq, beq_iff_eq] at blank
  omega

end SqlLayout
