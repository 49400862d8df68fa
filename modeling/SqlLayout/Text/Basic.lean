/-! Text as a list of characters, and cutting it by words and by byte offsets. -/

namespace SqlLayout

/--
Text, as the list of its characters.

Every rule of lexing and layout speaks of single characters, so this is the form they are stated in.
-/
abbrev Text := List Char

namespace Text

/-- What holds of all characters of a text can be decided by looking at each of them. -/
instance (priority := 2000) decidableForallMem (p : Char → Prop) [DecidablePred p] (text : Text) :
    Decidable (∀ c ∈ text, p c) :=
  -- Going through all characters there are would not come to an end in time.
  List.decidableBAll p text

/-- What is left of a text behind a word that it begins with. -/
def after? : (word text : Text) → Option Text
  -- Nothing is left to compare, so the whole text follows.
  | [], text => some text
  | _ :: _, [] => none
  | c :: word, d :: text => if c = d then after? word text else none

/-- A word is found at the front exactly of the texts that it is put in front of. -/
theorem after?_eq_some {word text rest : Text} :
    after? word text = some rest ↔ text = word ++ rest := by
  -- Both sides compare one character of the word at a time.
  fun_induction after? word text <;> simp_all [eq_comm]

/-- The number of bytes a text takes in UTF-8. -/
def byteLength : Text → Nat
  | [] => 0
  -- A character takes from one to four bytes.
  | c :: rest => c.utf8Size + byteLength rest

/--
A text cut in two behind a number of bytes.

There is no such cut when it would fall inside a character or behind the end of the text.
-/
def splitBytes? : (bytes : Nat) → (text : Text) → Option (Text × Text)
  | 0, text => some ([], text)
  | _ + 1, [] => none
  | bytes + 1, c :: rest =>
    -- A character that takes more bytes than are left straddles the cut.
    if c.utf8Size ≤ bytes + 1 then
      (splitBytes? (bytes + 1 - c.utf8Size) rest).map fun (front, back) => (c :: front, back)
    else none

/-- The two halves of a cut put together are the text that was cut. -/
theorem splitBytes?_append {bytes : Nat} {text front back : Text}
    (cut : splitBytes? bytes text = some (front, back)) : front ++ back = text := by
  -- Each step moves one character to the front half.
  fun_induction splitBytes? bytes text generalizing front back with
  | case1 text => simp_all
  | case2 => simp at cut
  | case3 bytes c rest fits ih =>
    obtain ⟨⟨front', back'⟩, inner, same⟩ := Option.map_eq_some_iff.mp cut
    simp only [Prod.mk.injEq] at same
    obtain ⟨rfl, rfl⟩ := same
    simp [ih inner]
  | case4 => simp at cut

end Text

end SqlLayout
