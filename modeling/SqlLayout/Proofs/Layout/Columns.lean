import SqlLayout.Proofs.Layout.Aligned

/-!
Columns: what a writer keeps of its column and of the end of its text, whatever it is told to do.

The column is counted apart from the text, and a new line takes blanks of the text back.
-/

namespace SqlLayout

namespace Text

/-- Text without a line break moves the column on by its length. -/
theorem column_append_unbroken (front : Text) {line : Text} (unbroken : '\n' ∉ line) :
    column (front ++ line) = column front + line.length := by
  -- The line is passed from its end, and the count goes on in front of it.
  have all : ∀ c ∈ line.reverse, (c != '\n') = true := by
    intro c member
    refine bne_iff_ne.mpr ?_
    rintro rfl
    exact unbroken (List.mem_reverse.mp member)
  rw [column, column, List.reverse_append, List.takeWhile_append_of_pos all, List.length_append,
    List.length_reverse, Nat.add_comm]

/-- Whether no line break in a text stands behind a blank or behind another line break. -/
def Tight (text : Text) : Prop :=
  text.IsChain fun c next => next = '\n' → c ≠ ' ' ∧ c ≠ '\n'

/-- Text without a line break can be put behind any other. -/
theorem Tight.append_unbroken {front line : Text} (tight : front.Tight) (unbroken : '\n' ∉ line) :
    (front ++ line).Tight := by
  -- A line break has to stand in the front, where breaks are as they should be.
  have apart : ∀ c ∈ line, c ≠ '\n' := by
    rintro c member rfl
    exact unbroken member
  refine List.isChain_append.mpr ⟨tight, List.Pairwise.isChain ?_, ?_⟩
  · exact List.pairwise_of_forall_mem_list fun _ _ next member same =>
      absurd same (apart next member)
  · intro c _ next front same
    exact absurd same (apart next (List.mem_of_head? front))

/-- The front of a text is as tight as the text. -/
theorem Tight.prefix {front text : Text} (tight : text.Tight) (before : front <+: text) :
    front.Tight :=
  -- Neighbours in the front are neighbours in the text.
  List.IsChain.infix tight before.isInfix

end Text

namespace Writer

/--
Whether the next word touches no other.

Nothing has been written, or the last character written is a blank or a line break.
-/
def Open (writer : Writer) : Prop :=
  -- The last character written stands in front.
  ∀ c ∈ writer.out.head?, c = ' ' ∨ c = '\n'

/-- A writer that has written nothing is open. -/
theorem open_start (width : Nat) : ({ width } : Writer).Open := by
  -- Nothing has been written yet.
  intro c front
  cases front

/-- Moving the margin to the right puts a blank behind the text. -/
theorem open_indent (writer : Writer) : writer.indent.Open := by
  unfold indent
  simp only
  -- Either way the last thing written is a blank.
  split
  · rename_i short
    exact head?_padTo _ (.inl rfl) (.inl short)
  · intro c front
    cases front
    exact .inl rfl

/-- A new line is open. -/
theorem open_newline (writer : Writer) : writer.newline.Open :=
  -- A line is padded behind a break, or stays open at the front of the text.
  head?_padTo _ (.inl rfl) (.inr (head?_breakLine _ (.inr rfl) _))

/-- Every instruction leaves a line open that reaches no further than the margin. -/
theorem Upright.open_run {writer : Writer} (upright : writer.Upright)
    (opened : writer.column = writer.margin → writer.Open) (op : LayoutOp) :
    (writer.run op).column = (writer.run op).margin → (writer.run op).Open := by
  -- Only what is written can end the line at the margin, and no text does.
  have reached := upright.reached
  cases op with
  | write text =>
    cases text with
    | nil => exact opened
    | cons c text =>
      -- The text takes the line past the margin.
      intro same
      change writer.column + (text.length + 1) = writer.margin at same
      omega
  | indent => exact fun _ => open_indent writer
  | dedent =>
    intro same
    have nearer : writer.dedent.margin ≤ writer.margin :=
      Nat.mul_le_mul_right writer.width (Nat.sub_le writer.level 1)
    change writer.column = writer.dedent.margin at same
    exact opened (by omega)
  | newline => exact fun _ => open_newline writer
  | startLine =>
    show writer.startLine.column = writer.startLine.margin → writer.startLine.Open
    unfold Writer.startLine
    split
    · exact fun _ => open_newline writer
    · exact opened

/-- A writer that counts the column of its text, and breaks no line twice nor behind a blank. -/
structure Counts (writer : Writer) : Prop where
  /-- The column is that of the text. -/
  column : writer.column = Text.column writer.out.reverse
  /-- Lines are broken behind words only. -/
  tight : Text.Tight writer.out.reverse

/-- A writer that has written nothing counts the column of its text. -/
theorem counts_start (width : Nat) : ({ width } : Writer).Counts :=
  -- No character is counted, and none has been written.
  ⟨rfl, List.isChain_nil⟩

/-- Writing text without a line break, a writer goes on counting. -/
theorem Counts.write {writer : Writer} (counts : writer.Counts) {text : Text}
    (unbroken : '\n' ∉ text) : (writer.write text).Counts := by
  -- The text is added behind all that is there.
  have behind : (writer.write text).out.reverse = writer.out.reverse ++ text := by
    simp [Writer.write]
  refine ⟨?_, ?_⟩
  · rw [behind, Text.column_append_unbroken _ unbroken, ← counts.column]
    rfl
  · rw [behind]
    exact counts.tight.append_unbroken unbroken

/-- Filling its line with blanks, a writer goes on counting. -/
theorem Counts.padTo {writer : Writer} (counts : writer.Counts) (column : Nat) :
    (writer.padTo column).Counts :=
  -- Padding is made of blanks, and a line break is none of them.
  counts.write fun member => by cases (List.mem_replicate.mp member).2

/-- Breaking a line that ends with no blank keeps a text tight and leaves it in the first column. -/
theorem tight_breakLine {out : Text} (tight : Text.Tight out.reverse)
    (solid : ∀ c ∈ out.head?, c ≠ ' ') :
    Text.Tight (breakLine out).reverse ∧ Text.column (breakLine out).reverse = 0 := by
  -- One break is put behind the line, unless there is one already or nothing was written.
  have first : ∀ {out : Text}, Text.column ('\n' :: out).reverse = 0 := by
    simp [Text.column]
  unfold breakLine
  split
  · exact ⟨tight, rfl⟩
  · exact ⟨tight, first⟩
  · rename_i _ ended
    refine ⟨?_, first⟩
    rw [List.reverse_cons]
    refine List.isChain_append.mpr ⟨tight, List.isChain_singleton _, ?_⟩
    intro c last next _ _
    rw [List.getLast?_reverse] at last
    -- The line is not broken yet, as there would be no other break.
    refine ⟨solid c last, ?_⟩
    rintro rfl
    obtain ⟨rest, rfl⟩ := List.head?_eq_some_iff.mp last
    exact ended rest rfl

/-- On a new line a writer counts anew. -/
theorem Counts.newline {writer : Writer} (counts : writer.Counts) : writer.newline.Counts := by
  -- What is kept are the words up to the last of them, with no blank behind.
  let kept := writer.out.dropWhile (· == ' ')
  have tight : Text.Tight kept.reverse :=
    counts.tight.prefix (List.reverse_prefix.mpr (List.dropWhile_suffix _))
  have solid : ∀ c ∈ kept.head?, c ≠ ' ' := by
    intro c front
    have stop := List.head?_dropWhile_not (· == ' ') writer.out
    rw [show (writer.out.dropWhile (· == ' ')).head? = some c from front] at stop
    simpa using stop
  obtain ⟨broken, first⟩ := tight_breakLine tight solid
  have counts : ({ writer with out := breakLine kept, column := 0 } : Writer).Counts :=
    ⟨first.symm, broken⟩
  exact counts.padTo _

/-- Moving its margin to the right, a writer goes on counting. -/
theorem Counts.indent {writer : Writer} (counts : writer.Counts) : writer.indent.Counts := by
  -- The margin is no part of what is counted.
  have deeper : ({ writer with level := writer.level + 1 } : Writer).Counts :=
    ⟨counts.column, counts.tight⟩
  unfold Writer.indent
  simp only
  split
  · exact deeper.padTo _
  · exact deeper.write (by simp)

/-- Carrying out an instruction that writes no line break, a writer goes on counting. -/
theorem Counts.run {writer : Writer} (counts : writer.Counts) {op : LayoutOp}
    (unbroken : ∀ text, op = .write text → '\n' ∉ text) : (writer.run op).Counts := by
  -- A line break comes from a new line only, as no text brings one.
  cases op with
  | write text => exact counts.write (unbroken text rfl)
  | indent => exact counts.indent
  | dedent => exact ⟨counts.column, counts.tight⟩
  | newline => exact counts.newline
  | startLine =>
    show writer.startLine.Counts
    unfold Writer.startLine
    split
    · exact counts.newline
    · exact counts

/-- Carrying out instructions that write no line break, a writer goes on counting. -/
theorem Counts.runAll {writer : Writer} (counts : writer.Counts) {ops : List LayoutOp}
    (unbroken : ∀ text, .write text ∈ ops → '\n' ∉ text) : (writer.runAll ops).Counts := by
  induction ops generalizing writer with
  | nil => exact counts
  -- Every later text is written among the later instructions.
  | cons op ops ih =>
    refine ih (counts.run fun text same => ?_) fun text member => unbroken text (.tail op member)
    exact unbroken text (same ▸ .head ops)

/-- All instructions leave a line open that reaches no further than the margin. -/
theorem Upright.open_runAll {writer : Writer} (upright : writer.Upright)
    (opened : writer.column = writer.margin → writer.Open) (ops : List LayoutOp) :
    (writer.runAll ops).column = (writer.runAll ops).margin → (writer.runAll ops).Open := by
  -- An upright writer stays upright, and each instruction leaves it open at its margin.
  induction ops generalizing writer with
  | nil => exact opened
  | cons op ops ih => exact ih (upright.run op) (upright.open_run opened op)

/--
What a writer keeps whatever it is told to do, for every width and all instructions in any order.

Its line reaches up to the margin, and is open when it reaches no further, so that a line that is
begun touches no word.
While no text with a line break is written, the column is that of the text, and no line break stands
behind a blank or another line break.
-/
theorem runAll_keeps (width : Nat) (ops : List LayoutOp) :
    let writer := ({ width } : Writer).runAll ops
    writer.level * width ≤ writer.column ∧
      (writer.column = writer.level * width → writer.Open) ∧ writer.startLine.Open ∧
      ((∀ text, .write text ∈ ops → '\n' ∉ text) →
        writer.column = Text.column writer.out.reverse ∧ Text.Tight writer.out.reverse) := by
  -- Each of the invariants holds from the start and is kept by every instruction.
  intro writer
  -- All that is kept holds of a writer that has written nothing.
  have start := upright_start width
  have margin : writer.margin = writer.level * width := by
    rw [Writer.margin, width_runAll]
  have upright : writer.Upright := start.runAll ops
  have opened : writer.column = writer.margin → writer.Open :=
    start.open_runAll (fun _ => open_start width) ops
  refine ⟨margin ▸ upright.reached, margin ▸ opened, ?_, fun unbroken => ?_⟩
  · -- Beginning a line leads to the margin, and there the writer is open.
    exact upright.open_run opened .startLine upright.column_startLine
  · have counts : writer.Counts := (counts_start width).runAll unbroken
    exact ⟨counts.column, counts.tight⟩

/-- Two clauses and the margin of a third line keep all of it. -/
theorem runAll_keeps_clauses :
    let ops : List LayoutOp := [.write "SELECT".toList, .indent, .write ['A'], .dedent, .newline,
      .newline, .startLine, .write "FROM".toList, .indent, .newline]
    let writer := ({ width := 2 } : Writer).runAll ops
    writer.out.reverse = "SELECT A\nFROM\n  ".toList ∧ writer.column = writer.level * 2 ∧
      (∀ text, .write text ∈ ops → '\n' ∉ text) ∧ writer.Open ∧
      writer.column = Text.column writer.out.reverse ∧ Text.Tight writer.out.reverse := by
  -- What was written is computed; the invariants are the general law.
  intro ops writer
  have margin : writer.column = writer.level * 2 := by decide
  have unbroken : ∀ text, .write text ∈ ops → '\n' ∉ text := by
    simp [ops]
  obtain ⟨_, opened, _, counts⟩ := runAll_keeps 2 ops
  exact ⟨by decide, margin, unbroken, opened margin, counts unbroken⟩

/-- Behind a text with a line break in it the column counted is not that of the text. -/
example :
    let writer := ({ width := 2 } : Writer).runAll [.write "A\nB".toList]
    writer.column = 3 ∧ Text.column writer.out.reverse = 1 := by
  decide

end Writer

end SqlLayout
