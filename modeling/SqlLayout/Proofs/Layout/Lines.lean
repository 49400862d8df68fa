import SqlLayout.Proofs.Layout.Margin
import SqlLayout.Proofs.Layout.Stance

/-!
Lines: what a writer has put down when instructions have led it to a stance.

Each line that is closed begins at a margin and ends with a word, and so does the one that is open
as soon as there is a word on it.
-/

namespace SqlLayout

/-- Whether a line has a number of blanks in front, and then words up to its end. -/
def Text.StandsAt (columns : Nat) (line : Text) : Prop :=
  ∃ words : Text, words.Tidy ∧ line = List.replicate columns ' ' ++ words

/-- Lines of words that begin at margins, the first one in the first column. -/
structure Neat (width : Nat) (lines : List Text) : Prop where
  /-- Each line begins at a margin. -/
  aligned : ∀ line ∈ lines, ∃ level, line.StandsAt (level * width)
  /-- The first line has nothing in front. -/
  first : ∀ line ∈ lines.head?, line.StandsAt 0

/-- No lines at all are neat. -/
theorem neat_nil (width : Nat) : Neat width [] :=
  -- There are no lines.
  ⟨nofun, nofun⟩

/-- One more line of words at a margin keeps lines neat. -/
theorem Neat.concat {width level : Nat} {lines : List Text} {words : Text} (neat : Neat width lines)
    (tidy : words.Tidy) (first : lines = [] → level = 0) :
    Neat width (lines ++ [List.replicate (level * width) ' ' ++ words]) := by
  refine ⟨List.forall_mem_append.mpr ⟨neat.aligned, ?_⟩, ?_⟩
  · exact List.forall_mem_singleton.mpr ⟨level, words, tidy, rfl⟩
  · -- Only where there was no line before is the new one the first.
    cases lines with
    | nil =>
      rintro line ⟨⟩
      rw [first rfl, Nat.zero_mul]
      exact ⟨words, tidy, rfl⟩
    | cons line lines => exact neat.first

/-- Words behind words make words, whatever blanks stand between them. -/
theorem Text.Tidy.append {front back : Text} (tidy : front.Tidy) (tidy' : back.Tidy) (count : Nat) :
    (front ++ List.replicate count ' ' ++ back).Tidy := by
  obtain ⟨⟨c, first, solid⟩, _, line⟩ := tidy
  obtain ⟨_, ⟨d, last, solid'⟩, line'⟩ := tidy'
  -- The first character is that of the front, and the last one that of the back.
  refine ⟨⟨c, ?_, solid⟩, ⟨d, ?_, solid'⟩, ?_⟩
  · rw [List.append_assoc, List.head?_append, Option.mem_def.mp first]
    rfl
  · rw [List.getLast?_append, Option.mem_def.mp last]
    rfl
  · simp [line, line']

namespace Writer

/-- What a writer has put down: closed lines, and one that has words on it, or blanks alone. -/
structure Holds (writer : Writer) (above : List Text) (level : Nat) (words : Text) (count : Nat) :
    Prop where
  /-- The text is made of the closed lines, and of the blanks and the words behind them. -/
  text : writer.out.reverse = above.flatMap (· ++ ['\n']) ++
    (List.replicate (level * writer.width) ' ' ++ (words ++ List.replicate count ' '))
  /-- The closed lines are neat. -/
  neat : Neat writer.width above
  /-- Only behind words there are more blanks than up to the margin. -/
  own : words.Tidy ∨ words = [] ∧ count = 0
  /-- The column is that behind the last blank. -/
  column : writer.column = level * writer.width + words.length + count
  /-- The first line begins in the first column. -/
  first : above = [] → level = 0

/-- A writer that has written nothing holds nothing. -/
theorem holds_start (width : Nat) : ({ width } : Writer).Holds [] 0 [] 0 :=
  -- No line is finished, and the one begun is empty and at the margin zero.
  ⟨by simp, neat_nil width, .inr ⟨rfl, rfl⟩, by simp, fun _ => rfl⟩

variable {writer : Writer} {above : List Text} {level count : Nat} {words : Text}

/-- A word goes behind the blanks on the line. -/
theorem Holds.write (holds : writer.Holds above level words count) {text : Text}
    (tidy : text.Tidy) :
    (writer.write text).Holds above level (words ++ List.replicate count ' ' ++ text) 0 := by
  -- The blanks at the end of the line are now between two words.
  refine ⟨?_, holds.neat, .inl ?_, ?_, holds.first⟩
  · show (text.reverse ++ writer.out).reverse = _
    rw [List.reverse_append, List.reverse_reverse, holds.text]
    simp [Writer.write]
  · rcases holds.own with tidy' | ⟨rfl, rfl⟩
    · exact tidy'.append tidy count
    · exact tidy
  · show writer.column + text.length = _
    rw [holds.column]
    simp [Writer.write]
    omega

/-- Blanks go behind words. -/
theorem Holds.blanks (holds : writer.Holds above level words count) (filled : words ≠ [])
    (more : Nat) :
    (writer.write (List.replicate more ' ')).Holds above level words (count + more) := by
  -- Blanks behind words do not change which words these are.
  refine ⟨?_, holds.neat, .inl (holds.own.resolve_right fun bare => filled bare.1), ?_,
    holds.first⟩
  · show ((List.replicate more ' ').reverse ++ writer.out).reverse = _
    rw [List.reverse_append, List.reverse_reverse, holds.text]
    simp [Writer.write]
  · show writer.column + (List.replicate more ' ').length = _
    rw [holds.column, List.length_replicate]
    simp [Writer.write]
    omega

/-- Without the blanks at its end a text ends with its last other character. -/
theorem dropWhile_of_reverse {out text : Text} (count : Nat)
    (split : out.reverse = text ++ List.replicate count ' ') (last : ∀ c ∈ text.getLast?, c ≠ ' ') :
    out.dropWhile (· == ' ') = text.reverse := by
  -- Seen from its end the text begins with the blanks.
  have whole : out = List.replicate count ' ' ++ text.reverse := by
    rw [← List.reverse_reverse out, split, List.reverse_append, List.reverse_replicate]
  rw [whole, List.dropWhile_append_of_pos (by simp)]
  rcases List.eq_nil_or_concat' text with rfl | ⟨front, c, rfl⟩
  · rfl
  · have other : (c == ' ') = false := beq_eq_false_iff_ne.mpr (last c (by simp))
    simp [other]

/-- A new line behind words closes the line they are on. -/
theorem Holds.newline (holds : writer.Holds above level words count) (tidy : words.Tidy) :
    writer.newline.Holds (above ++ [List.replicate (level * writer.width) ' ' ++ words])
      writer.level [] 0 := by
  -- The blanks behind the words are dropped, and the words end the line.
  obtain ⟨c, last, solid⟩ := tidy.ends
  obtain ⟨front, split⟩ := List.getLast?_eq_some_iff.mp last
  have kept : writer.out.dropWhile (· == ' ') = (above.flatMap (· ++ ['\n']) ++
      (List.replicate (level * writer.width) ' ' ++ words)).reverse := by
    refine dropWhile_of_reverse count ?_ ?_
    · simpa using holds.text
    · rw [split]
      intro d back
      simp only [← List.append_assoc, List.getLast?_concat, Option.mem_some_iff] at back
      rintro rfl
      rw [back] at solid
      cases solid
  have broken : breakLine (writer.out.dropWhile (· == ' ')) =
      '\n' :: writer.out.dropWhile (· == ' ') := by
    rcases breakLine_cases (writer.out.dropWhile (· == ' ')) with ⟨_, line⟩ | ⟨_, broken⟩
    · -- The line ends with a word, and so with no line break.
      rw [kept, split] at line
      have same : c = '\n' := line c (by simp)
      rw [same] at solid
      cases solid
    · exact broken
  refine ⟨?_, holds.neat.concat tidy holds.first, .inr ⟨rfl, rfl⟩, ?_, by simp⟩
  · rw [out_newline, broken, kept]
    simp [margin, Writer.newline, padTo, Writer.write]
  · simp [margin, Writer.newline, padTo, Writer.write]

/-- A new line where there are blanks alone takes the place of the old one. -/
theorem Holds.newline_bare (holds : writer.Holds above level [] 0)
    (first : above = [] → writer.level = 0) : writer.newline.Holds above writer.level [] 0 := by
  -- Nothing but blanks stands behind the last line break, and all of them go.
  have kept : writer.out.dropWhile (· == ' ') = (above.flatMap (· ++ ['\n'])).reverse := by
    refine dropWhile_of_reverse (level * writer.width) ?_ ?_
    · simpa using holds.text
    · rcases List.eq_nil_or_concat' above with rfl | ⟨front, line, rfl⟩
      · exact nofun
      · simp
  -- As the text ends with a line break, or is empty, none is added.
  have same : breakLine (writer.out.dropWhile (· == ' ')) = writer.out.dropWhile (· == ' ') := by
    rw [kept]
    rcases List.eq_nil_or_concat' above with rfl | ⟨front, line, rfl⟩
    · rfl
    · simp [breakLine]
  refine ⟨?_, holds.neat, .inr ⟨rfl, rfl⟩, ?_, first⟩
  · rw [out_newline, same, kept]
    simp [margin, Writer.newline, padTo, Writer.write]
  · simp [margin, Writer.newline, padTo, Writer.write]

/-- The text begins with a word, if anything has been written at all. -/
theorem Holds.begins (holds : writer.Holds above level words count) :
    ∀ c ∈ writer.out.reverse.head?, isBlank c = false := by
  -- Either the first line is finished, or it is the one that the writer is on.
  rw [holds.text]
  -- The first character is that of the first line, which has no blank in front.
  have first : ∀ {line : Text}, line.StandsAt 0 → ∀ rest : Text,
      ∀ c ∈ (line ++ rest).head?, isBlank c = false := by
    rintro line ⟨words, tidy, rfl⟩ rest c front
    obtain ⟨d, begins, solid⟩ := tidy.begins
    rw [List.head?_append, Option.mem_def.mp begins] at front
    cases front
    exact solid
  cases above with
  | nil =>
    rw [holds.first rfl, Nat.zero_mul]
    rcases holds.own with tidy | ⟨rfl, rfl⟩
    · exact first ⟨words, tidy, rfl⟩ (List.replicate count ' ')
    · exact nofun
  | cons line above =>
    rw [List.flatMap_cons, List.append_assoc, List.append_assoc]
    exact first (holds.neat.first line rfl) _

/-- Where a writer stands, and that what it holds is as it has to be there. -/
structure Stands (writer : Writer) (stance : Stance) : Prop where
  /-- The margin is where it has to be. -/
  level : writer.level = stance.level
  /-- There is a word on the line unless it may be fresh, and the margin has not moved before. -/
  page : ∃ above level words count, writer.Holds above level words count ∧
    (stance.fresh = false → words ≠ []) ∧ (above = [] → words = [] → stance.level = 0)

/-- A writer that has written nothing stands at the first margin. -/
theorem stands_start (width : Nat) : ({ width } : Writer).Stands ⟨0, true⟩ :=
  -- The only line is the empty first one.
  ⟨rfl, [], 0, [], 0, holds_start width, nofun, fun _ _ => rfl⟩

variable {margin : Nat} {fresh : Bool}

/-- A line with a word on it will do wherever a line may be fresh. -/
theorem Stands.loosen (stands : writer.Stands ⟨margin, fresh⟩) : writer.Stands ⟨margin, true⟩ := by
  -- A fresh line is one of the two cases that are allowed then.
  obtain ⟨same, above, level, words, count, holds, _, first⟩ := stands
  exact ⟨same, above, level, words, count, holds, nofun, first⟩

/-- Behind a word there is a word on the line. -/
theorem Stands.write (stands : writer.Stands ⟨margin, fresh⟩) {text : Text} (tidy : text.Tidy) :
    (writer.write text).Stands ⟨margin, false⟩ := by
  obtain ⟨same, above, level, words, count, holds, _, _⟩ := stands
  -- There is a word on the line now.
  have filled : words ++ List.replicate count ' ' ++ text ≠ [] := by
    obtain ⟨c, member, _⟩ := tidy.ends
    simp [List.ne_nil_of_mem (List.mem_of_getLast? member)]
  exact ⟨same, above, level, _, 0, holds.write tidy, fun _ => filled,
    fun _ bare => absurd bare filled⟩

/-- Blanks behind a word leave it on the line. -/
theorem Stands.blanks (stands : writer.Stands ⟨margin, false⟩) (count : Nat) :
    (writer.write (List.replicate count ' ')).Stands ⟨margin, false⟩ := by
  obtain ⟨same, above, level, words, before, holds, filled, first⟩ := stands
  -- A word was there already, and the blanks come behind it.
  have some := filled rfl
  exact ⟨same, above, level, words, before + count, holds.blanks some count, filled,
    fun _ bare => absurd bare some⟩

/-- Moving the margin to the right puts blanks behind a word. -/
theorem Stands.indent (stands : writer.Stands ⟨margin, false⟩) :
    writer.indent.Stands ⟨margin + 1, false⟩ := by
  -- Moving the margin leaves the text alone, which has a word on its line.
  have deeper : { writer with level := writer.level + 1 }.Stands ⟨margin + 1, false⟩ := by
    obtain ⟨same, above, level, words, count, holds, filled, _⟩ := stands
    have some := filled rfl
    exact ⟨congrArg (· + 1) same, above, level, words, count,
      ⟨holds.text, holds.neat, holds.own, holds.column, holds.first⟩, filled,
      fun _ bare => absurd bare some⟩
  unfold Writer.indent
  simp only
  split
  · exact deeper.blanks _
  · exact deeper.blanks 1

/-- Moving the margin to the left writes nothing. -/
theorem Stands.dedent (stands : writer.Stands ⟨margin + 1, fresh⟩) :
    writer.dedent.Stands ⟨margin, fresh⟩ := by
  obtain ⟨same, above, level, words, count, holds, filled, first⟩ := stands
  -- The margin goes back to where it was, which is not the front edge.
  have back : writer.level - 1 = margin := by
    rw [same]
    rfl
  exact ⟨back, above, level, words, count,
    ⟨holds.text, holds.neat, holds.own, holds.column, holds.first⟩, filled,
    fun none bare => absurd (first none bare) (Nat.succ_ne_zero margin)⟩

/-- A new line may be fresh. -/
theorem Stands.newline (stands : writer.Stands ⟨margin, fresh⟩) :
    writer.newline.Stands ⟨margin, true⟩ := by
  obtain ⟨same, above, level, words, count, holds, _, first⟩ := stands
  rcases holds.own with tidy | ⟨rfl, rfl⟩
  · exact ⟨same, _, _, [], 0, holds.newline tidy, nofun, by simp⟩
  · -- The first line is begun anew only before the margin has moved.
    have bare := holds.newline_bare fun none => same.trans (first none rfl)
    exact ⟨same, above, _, [], 0, bare, nofun, fun none _ => first none rfl⟩

/-- A line that is begun may be fresh, whether it is a new one or not. -/
theorem Stands.startLine (stands : writer.Stands ⟨margin, fresh⟩) :
    writer.startLine.Stands ⟨margin, true⟩ := by
  -- The line is broken, or it was at its margin all along.
  unfold Writer.startLine
  split
  · exact stands.newline
  · exact stands.loosen

/-- Instructions take a writer to the stance they lead to. -/
theorem Stands.runAll {stance target : Stance} {ops : List LayoutOp}
    (leads : stance.Leads ops target) (stands : writer.Stands stance) :
    (writer.runAll ops).Stands target := by
  -- One rule of the writer for each instruction that leads on.
  induction leads generalizing writer with
  | done => exact stands
  | word tidy _ ih => exact ih (stands.write tidy)
  | blank _ ih => exact ih (stands.blanks 1)
  | indent _ ih => exact ih stands.indent
  | dedent _ ih => exact ih stands.dedent
  | newline _ ih => exact ih stands.newline
  | startLine _ ih => exact ih stands.startLine
  | loosen _ ih => exact ih stands.loosen

/-- Lines that are closed by breaks and one behind them are lines with breaks between them. -/
theorem flatMap_append_eq_intercalate (above : List Text) (line : Text) :
    above.flatMap (· ++ ['\n']) ++ line = ['\n'].intercalate (above ++ [line]) := by
  -- There is a line break behind every line but the last.
  induction above with
  | nil => simp
  | cons first above ih =>
    rw [List.cons_append, List.intercalate_cons_of_ne_nil (by simp), ← ih]
    simp

/-- What is written in the end are neat lines, if the last of them has a word on it. -/
theorem Stands.neat (stands : writer.Stands ⟨margin, false⟩) :
    Neat writer.width (writer.finish.splitOn '\n') := by
  -- Finishing drops the blanks at the end, and splitting gives the lines that the writer holds.
  obtain ⟨_, above, level, words, count, holds, filled, _⟩ := stands
  have tidy := holds.own.resolve_right fun bare => filled rfl bare.1
  have lines := holds.neat.concat tidy holds.first
  -- Only the blanks behind the last word are left out.
  have text : writer.finish = ['\n'].intercalate
      (above ++ [List.replicate (level * writer.width) ' ' ++ words]) := by
    have whole : writer.out.reverse = above.flatMap (· ++ ['\n']) ++
        (List.replicate (level * writer.width) ' ' ++ words) ++ List.replicate count ' ' := by
      rw [holds.text, List.append_assoc, List.append_assoc]
    have begins := holds.begins
    rw [whole] at begins
    obtain ⟨d, last, solid⟩ := tidy.ends
    rw [Writer.finish, whole, Text.trim_append_blank _ (blank_replicate count), Text.trim_eq_self,
      flatMap_append_eq_intercalate]
    · intro c front
      exact begins c (by rw [List.head?_append, Option.mem_def.mp front]; rfl)
    · intro c back
      rw [← List.append_assoc, List.getLast?_append, Option.mem_def.mp last] at back
      cases back
      exact solid
  rw [text, List.splitOn_intercalate]
  · exact lines
  · intro line member
    obtain ⟨level, words, tidy, rfl⟩ := lines.aligned line member
    simp [tidy.unbroken]
  · simp

end Writer

end SqlLayout
