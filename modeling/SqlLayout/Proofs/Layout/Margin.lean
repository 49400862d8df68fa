import SqlLayout.Layout.Writer
import SqlLayout.Proofs.Lexing.Trim

/-!
Margins: what a writer keeps whatever it is told to do.

Its line always reaches the margin, and a line that reaches no further ends in a blank.
-/

namespace SqlLayout

/-- A broken line ends in a line break, unless nothing was written yet. -/
theorem breakLine_cases (out : Text) :
    (Writer.breakLine out = out ∧ ∀ c ∈ out.head?, c = '\n') ∨
      (out ≠ [] ∧ Writer.breakLine out = '\n' :: out) := by
  unfold Writer.breakLine
  -- The writer adds nothing to an empty text, nor to one whose last line is closed.
  split
  · exact .inl ⟨rfl, nofun⟩
  · exact .inl ⟨rfl, by simp⟩
  · rename_i filled _
    exact .inr ⟨filled, rfl⟩

/-- A run of blanks is blank. -/
theorem blank_replicate (count : Nat) : Text.Blank (List.replicate count ' ') := by
  -- All of the characters are the same blank.
  intro c member
  rw [(List.mem_replicate.mp member).2]
  rfl

/-- A broken text ends in nothing but a line break, so what marks one marks the end. -/
theorem head?_breakLine (mark : Char → Prop) (line : mark '\n') (out : Text) :
    ∀ c ∈ (Writer.breakLine out).head?, mark c := by
  intro c front
  -- Either the break was there already, or it is the one that was added.
  rcases breakLine_cases out with ⟨same, broken⟩ | ⟨_, broken⟩
  · rw [same] at front
    rwa [broken c front]
  · rw [broken] at front
    cases front
    exact line

namespace Writer

/-- A new line is the old text without the blanks at its end, broken, and the margin behind it. -/
theorem out_newline (writer : Writer) :
    writer.newline.out.reverse =
      (breakLine (writer.out.dropWhile (· == ' '))).reverse ++
        List.replicate writer.margin ' ' := by
  -- The text is kept the other way round, and the padding goes in front of it.
  show (_ ++ _ : Text).reverse = _
  rw [List.reverse_append, List.reverse_reverse]
  rfl

/--
A new line keeps all that was written but for blanks at its end, and puts blanks behind it.

There is at least one, unless what is kept ends in a blank or is empty.
-/
theorem exists_kept (writer : Writer) :
    ∃ kept gap gap', writer.out.reverse = kept ++ gap ∧ Text.Blank gap ∧
      writer.newline.out.reverse = kept ++ gap' ∧ Text.Blank gap' ∧
      (gap' ≠ [] ∨ ∀ c ∈ kept.getLast?, isBlank c = true) := by
  -- What a new line drops are blanks, and what it puts in their place are blanks too.
  have split : writer.out.takeWhile (· == ' ') ++ writer.out.dropWhile (· == ' ') = writer.out :=
    List.takeWhile_append_dropWhile
  have dropped : Text.Blank (writer.out.takeWhile (· == ' ')).reverse := by
    intro c member
    have space := List.mem_takeWhile_imp (List.mem_reverse.mp member)
    rw [beq_iff_eq.mp space]
    rfl
  have old : writer.out.reverse =
      (writer.out.dropWhile (· == ' ')).reverse ++ (writer.out.takeWhile (· == ' ')).reverse := by
    rw [← List.reverse_append, split]
  rcases breakLine_cases (writer.out.dropWhile (· == ' ')) with ⟨same, line⟩ | ⟨_, broken⟩
  · -- The line that is kept is broken already, or there is none.
    refine ⟨_, _, List.replicate writer.margin ' ', old, dropped, ?_, blank_replicate _, .inr ?_⟩
    · rw [out_newline, same]
    · intro c last
      rw [List.getLast?_reverse] at last
      rw [line c last]
      rfl
  · refine ⟨_, _, '\n' :: List.replicate writer.margin ' ', old, dropped, ?_, ?_, .inl nofun⟩
    · rw [out_newline, broken, List.reverse_cons, List.append_assoc]
      rfl
    · exact List.forall_mem_cons.mpr ⟨rfl, blank_replicate _⟩

/-- What marks blanks marks the end of a filled line, if any are put there or it did before. -/
theorem head?_padTo (mark : Char → Prop) (blank : mark ' ') {writer : Writer} {column : Nat}
    (ends : writer.column < column ∨ ∀ c ∈ writer.out.head?, mark c) :
    ∀ c ∈ (writer.padTo column).out.head?, mark c := by
  intro c front
  change c ∈ ((List.replicate (column - writer.column) ' ').reverse ++ writer.out).head? at front
  rw [List.reverse_replicate] at front
  -- Without room for a blank the text in front is the one that ends as it did.
  rcases count : column - writer.column with _ | more
  · rw [count] at front
    exact ends.resolve_left (by omega) c front
  · rw [count] at front
    cases front
    exact blank

/-- Whether a line reaches the margin, and ends in a blank unless it reaches further. -/
structure Upright (writer : Writer) : Prop where
  /-- The line reaches up to the margin. -/
  reached : writer.margin ≤ writer.column
  /-- A line that reaches no further ends in a blank, if anything has been written at all. -/
  fresh : writer.column = writer.margin → ∀ c ∈ writer.out.head?, isBlank c = true

/-- A writer that has written nothing is upright. -/
theorem upright_start (width : Nat) : ({ width } : Writer).Upright :=
  -- The margin is zero, and nothing has been written.
  ⟨by simp [margin], fun _ => nofun⟩

/-- Writing text takes a line further, or leaves it as it is. -/
theorem Upright.write {writer : Writer} (upright : writer.Upright) (text : Text) :
    (writer.write text).Upright := by
  have reached := upright.reached
  -- Only a character moves the column, and then past the margin.
  cases text with
  | nil => exact upright
  | cons c text =>
    refine ⟨?_, ?_⟩
    · show writer.margin ≤ writer.column + (text.length + 1)
      omega
    · show writer.column + (text.length + 1) = writer.margin → _
      omega

/-- Filling a line up to the margin makes it upright, if it ends in a blank or is filled at all. -/
theorem upright_padTo {writer : Writer}
    (ends : writer.column < writer.margin ∨ ∀ c ∈ writer.out.head?, isBlank c = true) :
    (writer.padTo writer.margin).Upright := by
  -- The line is filled exactly up to the margin, and that with blanks.
  refine ⟨?_, fun _ => ?_⟩
  · show writer.margin ≤ writer.column + (List.replicate _ ' ').length
    rw [List.length_replicate]
    omega
  · exact head?_padTo (isBlank · = true) rfl ends

/-- Moving the margin to the right keeps a writer upright. -/
theorem upright_indent (writer : Writer) : writer.indent.Upright := by
  unfold indent
  simp only
  split
  · rename_i short
    exact upright_padTo (.inl short)
  · -- The blank takes the line past the margin.
    rename_i long
    have further : { writer with level := writer.level + 1 }.margin < writer.column + 1 :=
      Nat.lt_succ_of_le (Nat.le_of_not_lt long)
    exact ⟨Nat.le_of_lt further, fun same => absurd same (Nat.ne_of_gt further)⟩

/-- A new line is upright. -/
theorem upright_newline (writer : Writer) : writer.newline.Upright :=
  -- A line is padded up to its margin behind a break.
  upright_padTo (.inr (head?_breakLine (isBlank · = true) rfl _))

/-- A line that is begun only when it is needed is upright if the one before was. -/
theorem Upright.startLine {writer : Writer} (upright : writer.Upright) :
    writer.startLine.Upright := by
  unfold Writer.startLine
  -- A new line begins at the margin, and a line that is used stays as it was.
  split
  · exact upright_newline writer
  · exact upright

/-- Moving the margin to the left keeps a writer upright. -/
theorem Upright.dedent {writer : Writer} (upright : writer.Upright) : writer.dedent.Upright := by
  have reached := upright.reached
  have nearer : writer.dedent.margin + (if writer.level = 0 then 0 else writer.width) =
      writer.margin := by
    unfold margin Writer.dedent
    cases writer.level with
    | zero => rfl
    | succ level => simp [Nat.succ_mul]
  refine ⟨?_, fun same => upright.fresh ?_⟩
  · show _ ≤ writer.column
    omega
  · -- The old margin was between the new one and the end of the line.
    change writer.column = _ at same
    omega

/-- Every instruction keeps a writer upright, whatever text is written. -/
theorem Upright.run {writer : Writer} (upright : writer.Upright) (op : LayoutOp) :
    (writer.run op).Upright := by
  -- One lemma for each instruction.
  cases op with
  | write text => exact upright.write text
  | indent => exact upright_indent writer
  | dedent => exact upright.dedent
  | newline => exact upright_newline writer
  | startLine => exact upright.startLine

/-- Instructions in order keep a writer upright. -/
theorem Upright.runAll {writer : Writer} (upright : writer.Upright) (ops : List LayoutOp) :
    (writer.runAll ops).Upright := by
  -- Each instruction leaves an upright writer upright.
  induction ops generalizing writer with
  | nil => exact upright
  | cons op ops ih => exact ih (upright.run op)

/-- No instruction changes the width. -/
theorem width_run (writer : Writer) (op : LayoutOp) : (writer.run op).width = writer.width := by
  -- Only two instructions look at the line before they change it.
  cases op with
  | indent =>
    show writer.indent.width = writer.width
    unfold Writer.indent
    simp only
    split
    · rfl
    · rfl
  | startLine =>
    show writer.startLine.width = writer.width
    unfold Writer.startLine
    split
    · rfl
    · rfl
  | _ => rfl

/-- No instructions in order change the width. -/
theorem width_runAll (writer : Writer) (ops : List LayoutOp) :
    (writer.runAll ops).width = writer.width := by
  -- No instruction changes the width.
  induction ops generalizing writer with
  | nil => rfl
  | cons op ops ih => exact (ih (writer.run op)).trans (width_run writer op)

end Writer

end SqlLayout
