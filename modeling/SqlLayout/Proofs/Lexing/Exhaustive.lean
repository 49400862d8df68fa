import Mathlib.Data.List.Basic
import SqlLayout.Proofs.Lexing.Lexeme

/-!
Exhaustion: no sweep leaves a match of its own pattern behind.

The edges of a fragment delimit words, so it has to be seen that cutting a text makes no new word.
-/

namespace SqlLayout

namespace Pattern

/--
Whether a pattern matches somewhere in a text.

A word has a character on either side of it that is part of no name, and no part of the match.
-/
def MatchesIn : Pattern → Text → Prop
  | words alternatives _, text => ∃ front left word right back,
      text = (front ++ [left]) ++ (word ++ right :: back) ∧ word ∈ alternatives ∧
        isNameChar left = false ∧ isNameChar right = false
  | symbols alternatives _, text => ∃ front sign back,
      text = front ++ (sign ++ back) ∧ sign ∈ alternatives
  -- A single name character is a run already.
  | nameRun, text => ∃ c ∈ text, isNameChar c = true

/-- A text that a sweep leaves alone: trimmed, not empty, and without a match. -/
structure Spent (pattern : Pattern) (text : Text) : Prop where
  /-- The pattern is not met anywhere. -/
  absent : seek pattern.here? true text = none
  /-- There are no blanks around the text. -/
  trimmed : text.trim = text
  /-- There is some text. -/
  solid : text ≠ []

/-- A word is met where one may begin, one of the alternatives stands and it ends. -/
theorem isSome_here?_words {alternatives : List Text} {solid : [] ∉ alternatives} {boundary : Bool}
    {text : Text} : ((words alternatives solid).here? boundary text).isSome = true ↔
      boundary = true ∧ ∃ word after, word ∈ alternatives ∧ text = word ++ after ∧
        endsWord after = true := by
  -- A match gives its word, and a word that stands there is a match, of it or of one before it.
  constructor
  · intro met
    obtain ⟨⟨word, after⟩, found⟩ := Option.isSome_iff_exists.mp met
    obtain ⟨begins, member, split, ends⟩ := here?_words found
    exact ⟨begins, word, after, member, split, ends⟩
  · rintro ⟨rfl, word, after, member, rfl, ends⟩
    rw [here?, if_pos rfl, List.findSome?_isSome_iff]
    refine ⟨word, member, ?_⟩
    rw [Text.after?_eq_some.mpr rfl, Option.bind_some, if_pos ends]
    rfl

/-- A sign is met where one of the alternatives stands. -/
theorem isSome_here?_symbols {alternatives : List Text} {solid : [] ∉ alternatives}
    {boundary : Bool} {text : Text} :
    ((symbols alternatives solid).here? boundary text).isSome = true ↔
      ∃ sign after, sign ∈ alternatives ∧ text = sign ++ after := by
  -- A match gives its sign, and a sign that stands there is a match, of it or of one before it.
  constructor
  · intro met
    obtain ⟨⟨sign, after⟩, found⟩ := Option.isSome_iff_exists.mp met
    exact ⟨sign, after, here?_symbols found⟩
  · rintro ⟨sign, after, member, rfl⟩
    rw [here?, List.findSome?_isSome_iff]
    refine ⟨sign, member, ?_⟩
    rw [Text.after?_eq_some.mpr rfl]
    rfl

/-- A name is met where a name character stands. -/
theorem isSome_here?_nameRun {boundary : Bool} {text : Text} :
    (nameRun.here? boundary text).isSome = true ↔ endsWord text = false := by
  -- One name character is enough, so that the first one decides.
  cases text with
  | nil => simp [here?, endsWord]
  | cons c rest => cases name : isNameChar c <;> simp [here?, endsWord, name]

/--
What is met in front of a match is met in the whole text too.

A word that ends where the match begins is the one case to exclude: behind it no other word begins.
-/
theorem isSome_here?_append {pattern : Pattern} (spelled : pattern.wellSpelled = true)
    {boundary : Bool} {text back : Text}
    (here : (pattern.here? boundary text).isSome = true)
    (behind : (pattern.here? (wordEdge boundary text) back).isSome = true) :
    (pattern.here? boundary (text ++ back)).isSome = true := by
  -- a symbol or a name is met whatever follows; a word must also be ended by it
  cases pattern with
  | words alternatives solid =>
    obtain ⟨begins, word, after, member, rfl, ends⟩ := isSome_here?_words.mp here
    refine isSome_here?_words.mpr ⟨begins, word, after ++ back, member, List.append_assoc .., ?_⟩
    cases after with
    | cons c after => exact ends
    | nil =>
      simp only [wellSpelled, List.all_eq_true, Bool.and_eq_true] at spelled
      -- a word that reaches the end needs no name to follow it, and a match behind says none does
      have edge := (isSome_here?_words.mp behind).1
      rw [List.append_nil, wordEdge_of_getLast? (spelled word member).1.2] at edge
      cases edge
  | symbols alternatives solid =>
    obtain ⟨sign, after, member, rfl⟩ := isSome_here?_symbols.mp here
    exact isSome_here?_symbols.mpr ⟨sign, after ++ back, member, List.append_assoc ..⟩
  | nameRun =>
    rw [isSome_here?_nameRun] at here ⊢
    cases text with
    | nil => cases here
    | cons c text => exact here

/-- No match is met in the text in front of the first one. -/
theorem seek_before {pattern : Pattern} (spelled : pattern.wellSpelled = true) {boundary : Bool}
    {text before word after : Text}
    (met : seek pattern.here? boundary text = some (before, word, after)) :
    seek pattern.here? boundary before = none := by
  obtain ⟨here, rfl, _, found, none⟩ := seek_eq_some.mp met
  rw [seek_eq_none]
  -- an earlier match inside `before` would have been found instead
  intro first second split filled
  by_contra some
  have later := isSome_here?_append spelled (Option.isSome_iff_ne_none.mpr some)
    (by rw [← wordEdge_append, ← split, found]; rfl)
  rw [none first second split filled] at later
  cases later

/-- Blanks in front of a text can be dropped without a new match. -/
theorem seek_of_blank_append {pattern : Pattern} {front text : Text} (blank : Text.Blank front)
    (absent : seek pattern.here? true (front ++ text) = none) :
    seek pattern.here? true text = none := by
  rw [seek_eq_none] at absent ⊢
  intro before here split filled
  -- behind a blank a word may begin, as it may at the start
  have edge : wordEdge true front = true := by
    cases front with
    | nil => rfl
    | cons c front =>
      refine wordEdge_of_signs (List.cons_ne_nil c front) fun d member => ?_
      exact isNameChar_of_isBlank (blank d member)
  have none := absent (front ++ before) here (by rw [split, List.append_assoc]) filled
  rwa [wordEdge_append, edge] at none

/-- Something is met in a text when it is met at some place in it. -/
theorem isSome_seek {α : Type} {front : Bool → Text → Option α} {boundary : Bool} {text : Text} :
    (seek front boundary text).isSome = true ↔ ∃ before here, text = before ++ here ∧ here ≠ [] ∧
      (front (wordEdge boundary before) here).isSome = true := by
  -- The search fails exactly when nothing is met at any place.
  rw [Option.isSome_iff_ne_none, Ne, seek_eq_none]
  simp only [not_forall, Option.isSome_iff_ne_none, exists_prop, Ne]

/-- The parts of a text with a blank around it are parts of the text, with the blanks outside. -/
theorem exists_of_padded {text front middle back : Text}
    (split : ' ' :: (text ++ [' ']) = front ++ (middle ++ back)) (begins : front ≠ [])
    (ends : back ≠ []) : ∃ before after, front = ' ' :: before ∧ back = after ++ [' '] ∧
      text = before ++ (middle ++ after) := by
  -- the padding is the first and the last character, so the middle lies within the text
  obtain ⟨c, before, rfl⟩ := List.exists_cons_of_ne_nil begins
  obtain ⟨after, d, rfl⟩ := (List.eq_nil_or_concat' back).resolve_left ends
  rw [List.cons_append, ← List.append_assoc middle, ← List.append_assoc] at split
  obtain ⟨rfl, inner⟩ := List.cons.inj split
  obtain ⟨rfl, last⟩ := List.append_inj' inner rfl
  cases last
  exact ⟨before, after, rfl, rfl, rfl⟩

/-- Behind a text with a blank in front a word may begin unless its last character is of a name. -/
theorem wordEdge_padded {before front : Text} {left : Char}
    (same : ' ' :: before = front ++ [left]) : wordEdge true before = !isNameChar left := by
  -- The character to the left is the last one before the place, or the blank that was put there.
  have edge := congrArg (wordEdge true) same
  rwa [wordEdge_append, wordEdge_cons, wordEdge_cons] at edge

/-- A text with a blank behind it ends a word unless its first character is of a name. -/
theorem endsWord_padded {after back : Text} {right : Char} (same : after ++ [' '] = right :: back) :
    endsWord after = !isNameChar right := by
  -- The character to the right is the first one behind the place, or the blank that was put there.
  cases after with
  | nil =>
    cases same
    rfl
  | cons c after =>
    cases same
    rfl

/-- In a text with a blank around it a word matches exactly if it is met in the text. -/
theorem words_matchesIn_padded {alternatives : List Text} (solid : [] ∉ alternatives)
    {text : Text} : (words alternatives solid).MatchesIn (' ' :: (text ++ [' '])) ↔
      (seek (words alternatives solid).here? true text).isSome = true := by
  -- A word matches between two characters that are no name characters, or at an end of the text.
  simp only [isSome_seek, isSome_here?_words]
  constructor
  · rintro ⟨front, left, word, right, back, split, member, sets, ends⟩
    obtain ⟨before, after, first, last, rfl⟩ := exists_of_padded split
      (List.append_ne_nil_of_right_ne_nil front (List.cons_ne_nil left []))
      (List.cons_ne_nil right back)
    -- no word is empty, and one blank of padding on each side is what ends and begins it
    have filled : word ≠ [] := fun bare => solid (bare ▸ member)
    refine ⟨before, word ++ after, rfl, by simp [filled], ?_, word, after, member, rfl, ?_⟩
    · rw [wordEdge_padded first.symm, sets]
      rfl
    · rw [endsWord_padded last.symm, ends]
      rfl
  · rintro ⟨before, here, rfl, _, begins, word, after, member, rfl, ends⟩
    obtain ⟨front, left, first⟩ := (List.eq_nil_or_concat' (' ' :: before)).resolve_left
      (List.cons_ne_nil ' ' before)
    obtain ⟨right, back, last⟩ := List.exists_cons_of_ne_nil (show after ++ [' '] ≠ [] by simp)
    rw [wordEdge_padded first] at begins
    rw [endsWord_padded last] at ends
    refine ⟨front, left, word, right, back, ?_, member, by simpa using begins, by simpa using ends⟩
    rw [← first, ← last]
    simp

/-- In a text with a blank around it a sign matches exactly if it is met in the text. -/
theorem symbols_matchesIn_padded {alternatives : List Text} (solid : [] ∉ alternatives)
    (spelled : (symbols alternatives solid).wellSpelled = true) {text : Text} :
    (symbols alternatives solid).MatchesIn (' ' :: (text ++ [' '])) ↔
      (seek (symbols alternatives solid).here? true text).isSome = true := by
  -- A sign matches wherever it stands.
  simp only [isSome_seek, isSome_here?_symbols]
  constructor
  · rintro ⟨front, sign, back, split, member⟩
    have filled : sign ≠ [] := fun bare => solid (bare ▸ member)
    -- A sign neither begins nor ends with a blank, so that it lies within the text.
    obtain ⟨opens, closes⟩ := not_blank spelled member
    have begins : front ≠ [] := by
      rintro rfl
      obtain ⟨c, rest, rfl⟩ := List.exists_cons_of_ne_nil filled
      cases (List.cons.inj split).1
      exact absurd (opens ' ' rfl) (by decide)
    have ends : back ≠ [] := by
      rintro rfl
      obtain ⟨rest, c, rfl⟩ := (List.eq_nil_or_concat' sign).resolve_left filled
      rw [List.append_nil, ← List.append_assoc, ← List.cons_append] at split
      cases (List.append_inj' split rfl).2
      exact absurd (closes ' ' (by simp)) (by decide)
    obtain ⟨before, after, rfl, rfl, rfl⟩ := exists_of_padded split begins ends
    exact ⟨before, sign ++ after, rfl, by simp [filled], sign, after, member, rfl⟩
  · rintro ⟨before, here, rfl, _, sign, after, member, rfl⟩
    exact ⟨' ' :: before, sign, after ++ [' '], by simp, member⟩

/-- In a text with a blank around it a name matches exactly if it is met in the text. -/
theorem nameRun_matchesIn_padded {text : Text} :
    nameRun.MatchesIn (' ' :: (text ++ [' '])) ↔
      (seek nameRun.here? true text).isSome = true := by
  simp only [isSome_seek, isSome_here?_nameRun]
  constructor
  · rintro ⟨c, member, name⟩
    -- the character found is in the text, for the blanks around it are no name
    have inside : c ∈ text := by
      rcases List.mem_cons.mp member with rfl | later
      · cases name
      · refine (List.mem_append.mp later).resolve_right fun last => ?_
        cases List.mem_singleton.mp last
        cases name
    obtain ⟨before, after, rfl⟩ := List.append_of_mem inside
    exact ⟨before, c :: after, rfl, List.cons_ne_nil c after, by simp [endsWord, name]⟩
  · rintro ⟨before, here, rfl, filled, ends⟩
    obtain ⟨c, rest, rfl⟩ := List.exists_cons_of_ne_nil filled
    exact ⟨c, by simp, by simpa [endsWord] using ends⟩

/-- In a text with a blank around it a pattern matches exactly if it is met in the text. -/
theorem matchesIn_padded {pattern : Pattern} (spelled : pattern.wellSpelled = true) {text : Text} :
    pattern.MatchesIn (' ' :: (text ++ [' '])) ↔
      (seek pattern.here? true text).isSome = true := by
  -- Each form of pattern looks at the two characters around a match in its own way.
  cases pattern with
  | words alternatives solid => exact words_matchesIn_padded solid
  | symbols alternatives solid => exact symbols_matchesIn_padded solid spelled
  | nameRun => exact nameRun_matchesIn_padded

end Pattern

namespace Sweep

variable {sweep : Sweep} (spelled : sweep.pattern.wellSpelled = true)
include spelled

/-- The fragment of a text without a match is spent. -/
theorem spent_of_mem_fragment {text : Text} (absent : seek sweep.pattern.here? true text = none)
    {piece : Piece} (member : piece ∈ fragment text) : sweep.pattern.Spent piece.text := by
  unfold fragment at member
  split at member
  · cases member
  · rename_i solid
    cases List.mem_singleton.mp member
    refine ⟨?_, Text.trim_trim text, solid⟩
    -- What is trimmed away are blanks, in front of which and behind which words are set off anyway.
    obtain ⟨front, back, blank, blank', parts⟩ := Text.exists_trim text
    rw [parts, seek_append (Pattern.tidy spelled) _ blank', Option.map_eq_none_iff] at absent
    exact Pattern.seek_of_blank_append blank absent

/-- The raw pieces that a text is cut into are spent. -/
theorem spent_of_mem_split (known : sweep.kind ≠ .raw) {text : Text} {piece : Piece}
    (member : piece ∈ sweep.split true text) (raw : piece.kind = .raw) :
    sweep.pattern.Spent piece.text := by
  -- on the length of the text: what lies behind a match is shorter
  induction length : text.length using Nat.strongRecOn generalizing text with
  | ind _ ih =>
    subst length
    rw [split_eq] at member
    rcases met : seek sweep.pattern.here? true text with _ | ⟨before, word, after⟩
    · rw [met] at member
      exact spent_of_mem_fragment spelled met member
    · rw [met] at member
      rcases List.mem_append.mp member with early | later
      · exact spent_of_mem_fragment spelled (Pattern.seek_before spelled met) early
      · rcases List.mem_cons.mp later with rfl | behind
        · exact absurd raw known
        · obtain ⟨here, rfl, _, found, _⟩ := seek_eq_some.mp met
          obtain ⟨solid, rfl⟩ := Pattern.here?_append found
          rw [split_behind (Pattern.tidy spelled) found] at behind
          have taken := List.length_pos_iff.mpr solid
          exact ih after.length (by simp only [List.length_append]; omega) behind rfl

omit spelled in
/-- A text that is spent is cut nowhere. -/
theorem split_of_spent {text : Text} (spent : sweep.pattern.Spent text) :
    sweep.split true text = [⟨.raw, text⟩] := by
  -- With no match the text is one fragment, which is trimmed and not empty.
  rw [split_eq, spent.absent]
  simp only [fragment, spent.trimmed, if_neg spent.solid]

omit spelled in
/-- A sweep changes nothing when all raw pieces are spent. -/
theorem apply_of_spent {pieces : List Piece}
    (spent : ∀ piece ∈ pieces, piece.kind = .raw → sweep.pattern.Spent piece.text) :
    sweep.apply pieces = pieces := by
  -- A spent piece is cut into itself, and a known one is not cut.
  induction pieces with
  | nil => rfl
  | cons piece pieces ih =>
    obtain ⟨first, rest⟩ := List.forall_mem_cons.mp spent
    rw [apply, List.flatMap_cons, ← apply, ih rest]
    split
    · rename_i raw
      rw [split_of_spent (first raw), ← raw]
      rfl
    · rfl

/-- All raw pieces that a sweep leaves are spent. -/
theorem spent_of_mem_apply (known : sweep.kind ≠ .raw) {pieces : List Piece} {piece : Piece}
    (member : piece ∈ sweep.apply pieces) (raw : piece.kind = .raw) :
    sweep.pattern.Spent piece.text := by
  -- A raw piece can only come from cutting one, as the kind of the sweep is not raw.
  obtain ⟨origin, _, cut⟩ := List.mem_flatMap.mp member
  split at cut
  · exact spent_of_mem_split spelled known cut raw
  · rename_i other
    rw [List.mem_singleton.mp cut] at raw
    exact absurd raw other

end Sweep

/--
Every sweep is exhaustive, whatever the raw texts are.

Once it has been made, no raw piece with a blank around it holds a match of its pattern, although
pieces were cut and trimmed, and making it again changes nothing.
-/
theorem apply_exhausts {sweep : Sweep} (among : sweep ∈ sweeps) (pieces : List Piece) :
    sweep.apply (sweep.apply pieces) = sweep.apply pieces ∧
      ∀ piece ∈ sweep.apply pieces, piece.kind = .raw →
        ¬ sweep.pattern.MatchesIn (' ' :: (piece.text ++ [' '])) := by
  have spelled := wellSpelled_sweeps among
  have kinds : ∀ sweep ∈ sweeps, sweep.kind ≠ .raw := by decide
  have spent : ∀ piece ∈ sweep.apply pieces, piece.kind = .raw →
      sweep.pattern.Spent piece.text := fun piece member raw =>
    -- a raw piece that is left was cut to hold no match, or was no match to begin with
    Sweep.spent_of_mem_apply spelled (kinds sweep among) member raw
  refine ⟨Sweep.apply_of_spent spent, fun piece member raw => ?_⟩
  rw [Pattern.matchesIn_padded spelled, (spent piece member raw).absent]
  nofun

/-- Set operators are found in a raw text that is not normal, and are not found again. -/
theorem apply_exhausts_union :
    let sweep : Sweep := ⟨.words ["UNION ALL".toList, "INTERSECT".toList, "MINUS".toList,
      "UNION".toList], .unionToken⟩
    let found : List Piece := [⟨.raw, "A".toList⟩, ⟨.unionToken, "UNION".toList⟩,
      ⟨.unionToken, "UNION".toList⟩, ⟨.raw, "ALL-".toList⟩, ⟨.unionToken, "MINUS".toList⟩,
      ⟨.raw, ",UNIONS".toList⟩, ⟨.text, "' UNION '".toList⟩]
    sweep ∈ sweeps ∧ sweep.apply [⟨.raw, " A UNION UNION  ALL-MINUS ,UNIONS".toList⟩,
      ⟨.text, "' UNION '".toList⟩] = found ∧ sweep.apply found = found ∧
      ¬ sweep.pattern.MatchesIn " ALL- ".toList := by
  -- The sweep is computed; that it stops there is the general law.
  intro sweep found
  have among : sweep ∈ sweeps := .head _
  have made : sweep.apply [⟨.raw, " A UNION UNION  ALL-MINUS ,UNIONS".toList⟩,
      ⟨.text, "' UNION '".toList⟩] = found := by
    decide +kernel
  obtain ⟨again, none⟩ := apply_exhausts among [⟨.raw, " A UNION UNION  ALL-MINUS ,UNIONS".toList⟩,
    ⟨.text, "' UNION '".toList⟩]
  rw [made] at again none
  exact ⟨among, made, again, none ⟨.raw, "ALL-".toList⟩ (by simp [found]) rfl⟩

end SqlLayout
