import SqlLayout.Proofs.Lexing.Respell

/-! Gaps drawn together: no literal span and no word begins or ends anywhere else for it. -/

namespace SqlLayout

/-- Every character is upper-cased to at least one. -/
theorem upperChar_ne_nil (c : Char) : upperChar c ≠ [] := by
  unfold upperChar
  split
  · exact nofun
  · split
    · -- The table of expansions has no empty entry.
      rename_i codes found
      obtain ⟨front, back, split, _⟩ := List.lookup_eq_some_iff.mp found
      simpa using (isCapital_tables.1 (c.toNat, codes) (by simp [split])).1
    · split
      · exact nofun
      · exact nofun

/-- Blanks have no upper case. -/
theorem upperChar_blank {c : Char} (blank : isBlank c = true) : upperChar c = [c] := by
  -- the blanks are finitely many, and their codes are checked one by one
  have all : ∀ code ∈ [0x09, 0x0A, 0x0B, 0x0C, 0x0D, 0x20, 0x85, 0xA0, 0x1680, 0x2000, 0x2001,
      0x2002, 0x2003, 0x2004, 0x2005, 0x2006, 0x2007, 0x2008, 0x2009, 0x200A, 0x2028, 0x2029,
      0x202F, 0x205F, 0x3000], upperChar (Char.ofNat code) = [Char.ofNat code] := by
    decide +kernel
  have here := all c.toNat (by
    simp only [isBlank, Bool.or_eq_true, Bool.and_eq_true, decide_eq_true_eq, beq_iff_eq] at blank
    simp only [List.mem_cons, List.not_mem_nil, or_false]
    omega)
  rwa [Char.ofNat_toNat] at here

/-- A text that is not empty is upper-cased to one that is not. -/
theorem upper_ne_nil {text : Text} (solid : text ≠ []) : text.upper ≠ [] := by
  -- The first character alone comes to something.
  obtain ⟨c, rest, rfl⟩ := List.exists_cons_of_ne_nil solid
  exact fun bare => upperChar_ne_nil c (List.append_eq_nil_iff.mp bare).1

/-- A text without the quote is read on over. -/
theorem quotedEnd?_passed {quote : Char} {front : Text} (plain : quote ∉ front) (text : Text) :
    quotedEnd? quote (front ++ text) =
      (quotedEnd? quote text).map fun (span, after) => (front ++ span, after) := by
  -- The span does not end at a character other than its quote, and takes it in.
  induction front with
  | nil => simp
  | cons c front ih =>
    obtain ⟨other, rest⟩ := not_or.mp (mt List.mem_cons.mpr plain)
    rw [List.cons_append, quotedEnd?.eq_def]
    simp [Ne.symm other, ih rest, Function.comp_def]

/-- A word is not at the front of a text that begins with another character. -/
theorem after?_of_head {c : Char} {word text : Text} (other : text.head? ≠ some c) :
    Text.after? (c :: word) text = none := by
  -- The first characters differ.
  cases text with
  | nil => rfl
  | cons d text =>
    have apart : c ≠ d := by simpa [eq_comm] using other
    rw [Text.after?, if_neg apart]

section Gap

variable {gap : Char → Bool}

/-- A character that is no gap begins a text that is squeezed behind it. -/
theorem squeezeFrom_cons {inside : Bool} {c : Char} {rest : Text} (solid : gap c = false) :
    Text.squeezeFrom gap inside (c :: rest) = c :: rest.squeeze gap := by
  simp [Text.squeezeFrom, Text.squeeze, solid]

/-- The first character of a text is squeezed by itself, and tells how the rest goes on. -/
theorem squeezeFrom_step (inside : Bool) (c : Char) (rest : Text) :
    Text.squeezeFrom gap inside (c :: rest) =
      Text.squeezeFrom gap inside [c] ++ Text.squeezeFrom gap (gap c) rest :=
  -- Squeezing goes over both parts, told for the second whether the first ended in a gap.
  squeezeFrom_append inside [c] rest

/-- A reading that goes on behind a character does so behind what squeezing leaves of it. -/
theorem map_squeezeFrom_step (inside : Bool) (c : Char) (found : Option (Text × Text)) :
    ((found.map fun (span, after) => (Text.squeezeFrom gap (gap c) span, after.squeeze gap)).map
      fun (span, after) => (Text.squeezeFrom gap inside [c] ++ span, after)) =
    (found.map fun (span, after) => (c :: span, after)).map fun (span, after) =>
      (Text.squeezeFrom gap inside span, after.squeeze gap) := by
  -- A character put in front before or after squeezing comes to the same.
  cases found with
  | none => rfl
  | some found => simp [squeezeFrom_step inside c found.1]

variable (blank : ∀ c, gap c = true → isBlank c = true)

include blank

/-- What is no blank is no gap. -/
theorem gap_of_solid {c : Char} (solid : isBlank c = false) : gap c = false := by
  -- Every gap is a blank, so that what is no blank is no gap.
  refine Bool.eq_false_iff.mpr fun here => ?_
  rw [blank c here] at solid
  cases solid

/-- Of a single character squeezing leaves a blank at most, or else the character. -/
theorem mem_squeezeFrom_single {inside : Bool} {c d : Char}
    (member : d ∈ Text.squeezeFrom gap inside [c]) : d = c ∨ isBlank c = true ∧ d = ' ' := by
  -- A gap leaves a space or nothing, and any other character stays.
  rcases here : gap c with _ | _
  · rw [squeezeFrom_cons here] at member
    exact .inl (List.mem_singleton.mp member)
  · rcases mem_squeezeFrom member with same | ⟨among, other⟩
    · exact .inr ⟨blank c here, same⟩
    · rw [List.mem_singleton.mp among, here] at other
      cases other

/-- The first character of a squeezed text is that of the text, if it is no blank. -/
theorem head?_squeeze {text : Text} {c : Char} (solid : isBlank c = false) :
    (text.squeeze gap).head? = some c ↔ text.head? = some c := by
  -- A character that is kept stays first, and a gap leaves a blank or nothing.
  cases text with
  | nil => exact Iff.rfl
  | cons d rest =>
    rcases here : gap d with _ | _
    · rw [Text.squeeze, squeezeFrom_cons here]
      exact Iff.rfl
    · -- The blank that a gap leaves is no more the character than the gap was.
      have first : (Text.squeeze gap (d :: rest)).head? = some ' ' := by
        simp [Text.squeeze, Text.squeezeFrom, here]
      rw [first, List.head?_cons, Option.some.injEq, Option.some.injEq]
      refine iff_of_false ?_ ?_
      · rintro rfl
        cases solid
      · rintro rfl
        rw [blank d here] at solid
        cases solid

/-- A quoted span ends where it did. -/
theorem quotedEnd?_squeezeFrom {quote : Char} (solid : isBlank quote = false) (inside : Bool)
    (text : Text) :
    quotedEnd? quote (Text.squeezeFrom gap inside text) =
      (quotedEnd? quote text).map fun (span, after) =>
        (Text.squeezeFrom gap inside span, after.squeeze gap) := by
  -- The two texts are read side by side, character by character.
  have kept : ∀ {inside : Bool} {rest : Text}, Text.squeezeFrom gap inside (quote :: rest) =
      quote :: rest.squeeze gap := squeezeFrom_cons (gap_of_solid blank solid)
  fun_induction quotedEnd? quote text generalizing inside with
  | case1 => rfl
  | case2 =>
    rw [kept]
    simp [quotedEnd?, kept, show Text.squeeze gap [] = [] from rfl]
  | case3 rest ih =>
    -- Both quotes are kept, and the reading goes on behind them.
    have behind := ih false
    rw [kept, Text.squeeze, kept, quotedEnd?, if_pos rfl, if_pos rfl, Text.squeeze, behind,
      Option.map_map, Option.map_map]
    congr 1
    funext found
    simp [kept, Text.squeeze]
  | case4 d rest apart =>
    -- The quote is single still, whatever the gap behind it becomes.
    have single : (Text.squeeze gap (d :: rest)).head? ≠ some quote := by
      rw [Ne, head?_squeeze blank solid]
      simpa using apart
    have ends := @quotedEnd?_again quote (quote :: d :: rest) [quote] (d :: rest) _
      (by simp [quotedEnd?, apart]) single
    simp only [kept, Option.map_some]
    exact ends
  | case5 c rest apart ih =>
    have plain : quote ∉ Text.squeezeFrom gap inside [c] := by
      intro member
      rcases mem_squeezeFrom_single blank member with same | ⟨_, same⟩
      · exact apart same.symm
      · rw [same] at solid
        cases solid
    rw [squeezeFrom_step, quotedEnd?_passed plain, ih, map_squeezeFrom_step]

/-- A word without blanks stands at the front of a squeezed text where it stood before. -/
theorem after?_squeeze {word : Text} (solid : ∀ c ∈ word, isBlank c = false) (text : Text) :
    Text.after? word (text.squeeze gap) = (Text.after? word text).map (Text.squeeze gap) := by
  -- on the word: a squeezed text begins as the text does, wherever that is no gap
  induction word generalizing text with
  | nil => rfl
  | cons c word ih =>
    obtain ⟨here, others⟩ := List.forall_mem_cons.mp solid
    by_cases first : text.head? = some c
    · obtain ⟨rest, rfl⟩ := List.head?_eq_some_iff.mp first
      rw [Text.squeeze, squeezeFrom_cons (gap_of_solid blank here), Text.after?, Text.after?,
        if_pos rfl, if_pos rfl, ih others]
    · rw [after?_of_head first, after?_of_head (mt (head?_squeeze blank here).mp first)]
      rfl

/-- A span ends with its closing word where it did. -/
theorem closedBy?_squeezeFrom {close : Text} (filled : close ≠ [])
    (solid : ∀ c ∈ close, isBlank c = false) (inside : Bool) (text : Text) :
    closedBy? close (Text.squeezeFrom gap inside text) =
      (closedBy? close text).map fun (span, after) =>
        (Text.squeezeFrom gap inside span, after.squeeze gap) := by
  -- The closing word begins at no blank.
  have nowhere : ∀ {c : Char} {rest : Text}, isBlank c = true →
      Text.after? close (c :: rest) = none := by
    intro c rest gapped
    obtain ⟨d, close, rfl⟩ := List.exists_cons_of_ne_nil filled
    refine after?_of_head ?_
    rintro ⟨⟩
    rw [solid c (.head close)] at gapped
    cases gapped
  induction text generalizing inside with
  | nil => rfl
  | cons c rest ih =>
    have step := @map_squeezeFrom_step gap inside c (closedBy? close rest)
    rcases here : gap c with _ | _
    · -- The closing word begins here in both texts, or in neither.
      have front := after?_squeeze blank solid (c :: rest)
      rw [Text.squeeze, squeezeFrom_cons here] at front
      rw [here, ← ih, squeezeFrom_cons here] at step
      rw [squeezeFrom_cons here, closedBy?, closedBy?, front]
      rcases Text.after? close (c :: rest) with _ | after
      · exact step
      · have word : Text.squeezeFrom gap inside close = close :=
          squeezeFrom_of_solid fun c member => gap_of_solid blank (solid c member)
        simp [word]
    · rw [here, ← ih] at step
      rw [closedBy?, nowhere (blank c here)]
      refine Eq.trans ?_ step
      cases inside with
      | true => simp [Text.squeezeFrom, here]
      | false =>
        rw [Text.squeezeFrom, here, if_pos rfl, if_neg Bool.false_ne_true, closedBy?, nowhere rfl]
        simp [Text.squeezeFrom, here]

/-- A piece with its gaps drawn together. -/
def Piece.squeeze (gap : Char → Bool) (piece : Piece) : Piece :=
  { piece with text := piece.text.squeeze gap }

/-- A span with an opening word in front of it is squeezed behind that word. -/
theorem opened_squeeze {kind : Kind} (opening : Text) (solid : ∀ c ∈ opening, isBlank c = false)
    (filled : opening ≠ []) (found : Option (Text × Text)) :
    opened kind opening (found.map fun (span, after) => (span.squeeze gap, after.squeeze gap)) =
      (opened kind opening found).map fun (piece, after) =>
        (piece.squeeze gap, after.squeeze gap) := by
  cases found with
  | none => rfl
  | some found =>
    -- the opening has no gap, so the squeezing starts afresh behind it
    have kept : ∀ c ∈ opening, gap c = false := fun c member => gap_of_solid blank (solid c member)
    have last : opening.getLast?.elim false gap = false := by
      rw [List.getLast?_eq_some_getLast filled]
      exact kept _ (List.getLast_mem filled)
    have front : (opening ++ found.1).squeeze gap = opening ++ found.1.squeeze gap := by
      rw [Text.squeeze, squeezeFrom_append, squeezeFrom_of_solid kept, last]
      rfl
    simp [opened, Piece.squeeze, front]

/-- A literal span begins in a squeezed text where it began before. -/
theorem literal?_squeeze (c : Char) (rest : Text) :
    literal? (c :: rest.squeeze gap) = (literal? (c :: rest)).map fun (piece, after) =>
      (piece.squeeze gap, after.squeeze gap) := by
  -- Each opening word is tried on both sides.
  by_cases quote : c = '\''
  · subst quote
    have span := quotedEnd?_squeezeFrom blank (by rfl : isBlank '\'' = false) false rest
    exact (congrArg (opened .text ['\'']) span).trans
      (opened_squeeze blank ['\''] (by decide) (List.cons_ne_nil _ _) _)
  by_cases double : c = '"'
  · subst double
    have span := quotedEnd?_squeezeFrom blank (by rfl : isBlank '"' = false) false rest
    exact (congrArg (opened .name ['"']) span).trans
      (opened_squeeze blank ['"'] (by decide) (List.cons_ne_nil _ _) _)
  by_cases brace : c = '\x7b'
  · subst brace
    have span := closedBy?_squeezeFrom blank (List.cons_ne_nil '\x7d' []) (by decide) false rest
    exact (congrArg (opened .comment ['\x7b']) span).trans
      (opened_squeeze blank ['\x7b'] (by decide) (List.cons_ne_nil _ _) _)
  have plain : c ∉ ['\'', '"', '\x7b'] := by simp [quote, double, brace]
  by_cases star : c = '/' ∧ rest.head? = some '*'
  · obtain ⟨rfl, front⟩ := star
    obtain ⟨rest, rfl⟩ := List.head?_eq_some_iff.mp front
    have span := closedBy?_squeezeFrom blank (List.cons_ne_nil '*' ['/']) (by decide) false rest
    rw [Text.squeeze, squeezeFrom_cons (gap_of_solid blank rfl)]
    exact (congrArg (opened .comment ['/', '*']) span).trans
      (opened_squeeze blank ['/', '*'] (by decide) (List.cons_ne_nil _ _) _)
  · -- No opening word stands here, and squeezing brings none.
    have single : c = '/' → rest.head? ≠ some '*' := fun slash front => star ⟨slash, front⟩
    rw [literal?_of_plain plain single, literal?_of_plain plain fun slash =>
      mt (head?_squeeze blank rfl).mp (single slash)]
    rfl

/-- A word may begin behind a squeezed text where one might before, whatever the case. -/
theorem wordEdge_squeezeFrom {boundary inside : Bool} (run : inside = true → boundary = true)
    (text : Text) :
    wordEdge boundary (Text.squeezeFrom gap inside text).upper = wordEdge boundary text.upper := by
  -- A gap gives way to a blank or to nothing behind another one, and the edge is free either way.
  induction text generalizing boundary inside with
  | nil => rfl
  | cons c rest ih =>
    have upper : Text.upper (c :: rest) = upperChar c ++ Text.upper rest := rfl
    rcases here : gap c with _ | _
    · have front : (Text.squeezeFrom gap inside (c :: rest)).upper =
          upperChar c ++ (Text.squeezeFrom gap false rest).upper := by
        rw [squeezeFrom_cons here]
        rfl
      rw [front, upper, wordEdge_append, wordEdge_append]
      exact ih nofun
    · -- Behind a blank a word may begin, and that is what stands in front of the rest.
      have blanks := blank c here
      rw [upper, upperChar_blank blanks, List.singleton_append, wordEdge_cons,
        isNameChar_of_isBlank blanks]
      cases inside with
      | true =>
        rw [Text.squeezeFrom, here, if_pos rfl, if_pos rfl, run rfl]
        exact ih fun _ => rfl
      | false =>
        rw [Text.squeezeFrom, here, if_pos rfl, if_neg Bool.false_ne_true]
        exact ih fun _ => rfl

/-- A word may begin behind a squeezed text where one may begin behind the text. -/
theorem wordEdge_squeeze (text : Text) :
    wordEdge true (text.squeeze gap).upper = wordEdge true text.upper :=
  -- A text begins outside of every gap.
  wordEdge_squeezeFrom blank (fun _ => rfl) text

/-- A squeezed text begins with no name character where the text began with none. -/
theorem endsWord_squeeze (text : Text) :
    endsWord (text.squeeze gap).upper = endsWord text.upper := by
  -- The first character decides, in upper case as it would be read.
  cases text with
  | nil => rfl
  | cons c rest =>
    -- a character that is kept stays first; a gap gives way to a blank, and neither is a name
    rcases here : gap c with _ | _
    · obtain ⟨d, others, split⟩ := List.exists_cons_of_ne_nil (upperChar_ne_nil c)
      rw [Text.squeeze, squeezeFrom_cons here]
      show endsWord (upperChar c ++ _) = endsWord (upperChar c ++ _)
      rw [split]
      rfl
    · have blanks := blank c here
      have ends : endsWord (Text.upper (c :: rest)) = true := by
        show endsWord (upperChar c ++ Text.upper rest) = true
        simp [upperChar_blank blanks, endsWord, isNameChar_of_isBlank blanks]
      rw [ends, Text.squeeze, Text.squeezeFrom, here, if_pos rfl, if_neg Bool.false_ne_true]
      rfl

end Gap

end SqlLayout
