import SqlLayout.Proofs.Lexing.LineBreaks

/-! What tokens hold: a word without blanks that stands in a token stands in the text. -/

namespace SqlLayout

/-- A word that stands in two texts put together begins in the first, or stands in the second. -/
theorem exists_begin {word front back : Text} (within : word <:+: front ++ back) :
    (∃ before here, front = before ++ here ∧ word <+: here ++ back) ∨ word <:+: back := by
  -- the word begins at some character of the front, or behind all of them
  induction front with
  | nil => exact .inr within
  | cons c front ih =>
    rcases List.infix_cons_iff.mp within with here | later
    · exact .inl ⟨[], c :: front, rfl, here⟩
    · refine (ih later).imp_left ?_
      rintro ⟨before, here, split, begins⟩
      exact ⟨c :: before, here, by rw [split]; rfl, begins⟩

/-- A word without a blank does not reach over one. -/
theorem isPrefix_of_blank {word front back : Text} (solid : ' ' ∉ word)
    (begins : word <+: front ++ ' ' :: back) : word <+: front := by
  have upTo : front ++ [' '] <+: front ++ ' ' :: back := ⟨back, by simp⟩
  -- a word that reached past the blank would hold it
  rcases List.prefix_or_prefix_of_prefix begins upTo with short | long
  · refine (List.prefix_concat_iff.mp short).resolve_left ?_
    rintro rfl
    exact solid (by simp)
  · exact absurd (long.subset (by simp)) solid

section Squeeze

variable {gap : Char → Bool} {word : Text} (solid : ' ' ∉ word)

include solid

/-- A word without a blank begins in front of gaps where it began before they were drawn together. -/
theorem isPrefix_of_squeeze {front text : Text}
    (begins : word <+: front ++ (text.squeeze gap).upper) : word <+: front ++ text.upper := by
  induction text generalizing front with
  | nil => exact begins
  | cons c rest ih =>
    -- up to the first gap both texts are the same, and no word goes past it
    rcases here : gap c with _ | _
    · rw [Text.squeeze, squeezeFrom_cons here] at begins
      have deeper : word <+: (front ++ upperChar c) ++ (Text.squeeze gap rest).upper := by
        rw [List.append_assoc]
        exact begins
      have later := ih deeper
      rw [List.append_assoc] at later
      exact later
    · have upper : (Text.squeeze gap (c :: rest)).upper =
          ' ' :: (Text.squeezeFrom gap true rest).upper := by
        rw [Text.squeeze, Text.squeezeFrom, here, if_pos rfl, if_neg Bool.false_ne_true]
        rfl
      rw [upper] at begins
      exact List.prefix_append_of_prefix (isPrefix_of_blank solid begins)

/-- A word without a blank stands in a text where it stands once gaps are drawn together. -/
theorem isInfix_of_squeezeFrom {inside : Bool} {text : Text}
    (within : word <:+: (Text.squeezeFrom gap inside text).upper) : word <:+: text.upper := by
  -- Squeezing only drops gaps, and the word is held between two of them.
  induction text generalizing inside with
  | nil => exact within
  | cons c rest ih =>
    have upper : Text.upper (c :: rest) = upperChar c ++ Text.upper rest := rfl
    rw [upper]
    rcases here : gap c with _ | _
    · -- The word begins with this character, or else behind it.
      rw [squeezeFrom_cons here] at within
      have split : word <:+: upperChar c ++ (Text.squeeze gap rest).upper := within
      rcases exists_begin split with ⟨before, first, parts, begins⟩ | later
      · rw [parts, List.append_assoc]
        exact List.infix_append_of_infix_right (isPrefix_of_squeeze solid begins).isInfix
      · exact List.infix_append_of_infix_right (ih later)
    · refine List.infix_append_of_infix_right ?_
      cases inside with
      | true =>
        rw [Text.squeezeFrom, here, if_pos rfl, if_pos rfl] at within
        exact ih within
      | false =>
        rw [Text.squeezeFrom, here, if_pos rfl, if_neg Bool.false_ne_true] at within
        have split : word <:+: ' ' :: (Text.squeezeFrom gap true rest).upper := within
        rcases List.infix_cons_iff.mp split with begins | later
        · rw [List.prefix_nil.mp (@isPrefix_of_blank word [] _ solid begins)]
          exact List.nil_infix
        · exact ih later

end Squeeze

/-- The pieces of a text make up the text. -/
theorem flatMap_scan (text : Text) : (scan text).flatMap Piece.text = text := by
  -- Literals are cut off as they stand, and every other character is kept.
  fun_induction scan text with
  | case1 => rfl
  | case2 c rest piece after found ih =>
    rw [List.flatMap_cons, ih]
    exact literal?_append found
  | case3 c rest plain ih => rw [flatMap_pushRaw, ih]

/-- What one pass finds in a text stands in it. -/
theorem isInfix_of_mem_onePass {boundary : Bool} {text : Text} {piece : Piece}
    (member : piece ∈ onePass sweeps boundary text) (known : piece.kind ≠ .raw) :
    piece.text <:+: text := by
  -- the piece met first stands in the text, and any other in what stands behind it
  fun_induction onePass sweeps boundary text with
  | case1 boundary text absent => exact absurd (kind_of_mem_fragment member) known
  | case2 boundary text before first after met ih =>
    obtain ⟨here, rfl, _, found, _⟩ := seek_eq_some.mp met
    obtain ⟨_, rfl⟩ := frontPiece?_append found
    refine List.infix_append_of_infix_right ?_
    rcases List.mem_append.mp member with early | later
    · exact absurd (kind_of_mem_fragment early) known
    · rcases List.mem_cons.mp later with rfl | behind
      · exact List.infix_append_left
      · exact List.infix_append_of_infix_right (ih behind)

/-- A text that stands in another one stands there in upper case too. -/
theorem isInfix_upper {word text : Text} (within : word <:+: text) : word.upper <:+: text.upper := by
  -- Every character is put in upper case on its own, whatever stands around it.
  obtain ⟨front, back, rfl⟩ := within
  rw [upper_append, upper_append]
  exact ⟨Text.upper front, Text.upper back, rfl⟩

/--
A capital word without blanks that stands in a piece of a text stands in the text, in some case.

The piece is no comment, as comments are also made for what is no piece of the text.
-/
theorem isInfix_of_mem_flaggedPieces {word text : Text} {piece : Piece} (solid : ' ' ∉ word)
    (capital : word.upper = word) (member : piece ∈ flaggedPieces text)
    (known : piece.kind ≠ .comment) (within : word <:+: piece.text) : word <:+: text.upper := by
  -- It is enough to find the word in one span of the scan, as each is a part of the text.
  suffices held : ∃ span ∈ scan (text.squeeze isLineBreak), word <:+: span.text.upper by
    obtain ⟨span, among, inner⟩ := held
    have part : span.text <:+: text.squeeze isLineBreak := by
      rw [← flatMap_scan (text.squeeze isLineBreak)]
      exact List.infix_of_mem_flatten (List.mem_map_of_mem among)
    exact isInfix_of_squeezeFrom solid (inner.trans (isInfix_upper part))
  rw [flaggedPieces_eq] at member
  obtain ⟨⟨kind, span⟩, among, found⟩ := List.mem_flatMap.mp member
  refine ⟨_, among, ?_⟩
  by_cases raw : kind = .raw
  · subst raw
    rw [flaggedPiece_of_raw] at found
    obtain ⟨cut, own, flagged⟩ := List.mem_flatMap.mp found
    -- What is left over becomes a comment, so that the piece was cut as it is.
    rcases mem_flagLeftover.mp flagged with ⟨other, rfl⟩ | ⟨_, _, rfl⟩
    · exact isInfix_of_squeezeFrom solid (within.trans (isInfix_of_mem_onePass own other))
    · exact absurd rfl known
  · rw [flaggedPiece_of_known raw] at found
    cases List.mem_singleton.mp found
    rw [← capital]
    exact isInfix_upper within

end SqlLayout
