import SqlLayout.Proofs.Layout.Clean
import SqlLayout.Proofs.Layout.Places

/-! Alignment: the first word of every clause stands at the margin, however deep the clause is. -/

namespace SqlLayout

namespace Text

/-- The column behind a text: the number of characters behind its last line break. -/
def column (text : Text) : Nat :=
  (text.reverse.takeWhile (· != '\n')).length

/-- Behind a line break the column is the number of characters, if there is no other. -/
theorem column_append {front line : Text} (unbroken : '\n' ∉ line)
    (closed : ∀ c ∈ front.getLast?, c = '\n') : column (front ++ line) = line.length := by
  -- read backwards, the last line is passed whole and the line break before it stops the count
  have all : ∀ c ∈ line.reverse, (c != '\n') = true := by
    intro c member
    refine bne_iff_ne.mpr ?_
    rintro rfl
    exact unbroken (List.mem_reverse.mp member)
  have none : front.reverse.takeWhile (· != '\n') = [] := by
    rcases List.eq_nil_or_concat' front with rfl | ⟨front, c, rfl⟩
    · rfl
    · have same : c = '\n' := closed c (by simp)
      simp [same]
  rw [column, List.reverse_append, List.takeWhile_append_of_pos all, none, List.append_nil,
    List.length_reverse]

/-- What is dropped in front of the end of a text leaves an end that is not dropped itself. -/
theorem suffix_dropWhile {dropped : Char → Bool} {kept text : Text}
    (solid : ∀ c ∈ kept.head?, dropped c = false) (suffix : kept <:+ text) :
    kept <:+ text.dropWhile dropped := by
  obtain ⟨more, rfl⟩ := suffix
  -- nothing of `kept` is dropped, for its first character is not
  rw [List.dropWhile_append]
  split
  · cases kept with
    | nil => exact List.nil_suffix
    | cons c kept => simp [solid c rfl]
  · exact List.suffix_append _ kept

/-- Trimming takes nothing of a text that begins and ends with no blank, whatever is behind it. -/
theorem exists_trim_append {text : Text} (begins : ∀ c ∈ text.head?, isBlank c = false)
    (ends : ∃ c ∈ text.getLast?, isBlank c = false) (more : Text) :
    ∃ back, trim (text ++ more) = text ++ back := by
  -- The text is ink at both of its ends, and trimming stops at ink.
  obtain ⟨c, last, solid⟩ := ends
  -- nothing is trimmed in front, where the text is ink
  have start : trimStart (text ++ more) = text ++ more := by
    cases text with
    | nil => cases last
    | cons d rest =>
      have first : ¬isBlank d = true := by simp [begins d rfl]
      rw [trimStart, List.cons_append, List.dropWhile_cons_of_neg first]
  -- and backwards the trimming stops at the last ink of the text, if not before
  have stop : ∀ d ∈ text.reverse.head?, isBlank d = false := by
    intro d back
    rw [List.head?_reverse] at back
    cases last.symm.trans back
    exact solid
  have behind : text.reverse <:+ (text ++ more).reverse := ⟨more.reverse, List.reverse_append.symm⟩
  obtain ⟨back, split⟩ := suffix_dropWhile stop behind
  refine ⟨back.reverse, ?_⟩
  rw [trim, start, trimEnd, dropEnd, ← split, List.reverse_append, List.reverse_reverse]

end Text

namespace Writer

/-- Text that ends with no blank is never taken back. -/
theorem suffix_run {writer : Writer} {kept : Text} (solid : ∀ c ∈ kept.head?, c ≠ ' ')
    (suffix : kept <:+ writer.out) (op : LayoutOp) : kept <:+ (writer.run op).out := by
  -- What is written goes in front, as the last character of the text stands in front.
  have written : ∀ {writer : Writer} (text : Text), kept <:+ writer.out →
      kept <:+ (writer.write text).out :=
    fun text before => before.trans (List.suffix_append _ _)
  have line : kept <:+ writer.newline.out := by
    have dropped : kept <:+ writer.out.dropWhile (· == ' ') :=
      Text.suffix_dropWhile (fun c front => beq_eq_false_iff_ne.mpr (solid c front)) suffix
    refine written _ (dropped.trans ?_)
    rcases breakLine_cases (writer.out.dropWhile (· == ' ')) with ⟨same, _⟩ | ⟨_, broken⟩
    · rewrite [same]
      exact List.suffix_refl _
    · rw [broken]
      exact List.suffix_cons _ _
  cases op with
  | write text => exact written text suffix
  | dedent => exact suffix
  | newline => exact line
  | indent =>
    show kept <:+ writer.indent.out
    unfold Writer.indent
    simp only
    split
    · exact written _ suffix
    · exact written _ suffix
  | startLine =>
    show kept <:+ writer.startLine.out
    unfold Writer.startLine
    split
    · exact line
    · exact suffix

/-- Instructions in order take back no text that ends with no blank. -/
theorem suffix_runAll {writer : Writer} {kept : Text} (solid : ∀ c ∈ kept.head?, c ≠ ' ')
    (suffix : kept <:+ writer.out) (ops : List LayoutOp) : kept <:+ (writer.runAll ops).out := by
  -- No instruction takes the text back.
  induction ops generalizing writer with
  | nil => exact suffix
  | cons op ops ih => exact ih (suffix_run solid suffix op)

/-- A line that is begun ends at the margin. -/
theorem Upright.column_startLine {writer : Writer} (upright : writer.Upright) :
    writer.startLine.column = writer.startLine.margin := by
  have reached := upright.reached
  -- a fresh line is padded to the margin; with nothing on the line yet, that is where it stands
  unfold Writer.startLine
  split
  · simp [Writer.newline, padTo, Writer.write, margin]
  · omega

/-- The column that a writer counts is that of its text. -/
theorem Stands.column {writer : Writer} {stance : Stance} (stands : writer.Stands stance) :
    Text.column writer.out.reverse = writer.column := by
  -- the lines above end in a line break and the line under way holds none
  obtain ⟨_, above, level, words, count, holds, _, _⟩ := stands
  rw [holds.text, Text.column_append, holds.column]
  · simp [Nat.add_assoc]
  · rcases holds.own with tidy | ⟨rfl, rfl⟩
    · simp [tidy.unbroken]
    · simp
  · rcases List.eq_nil_or_concat' above with rfl | ⟨above, line, rfl⟩
    · exact nofun
    · simp

/-- A line that is begun ends in the column of the margin. -/
theorem Stands.column_startLine {writer : Writer} {level : Nat} {fresh : Bool}
    (stands : writer.Stands ⟨level, fresh⟩) (upright : writer.Upright) :
    Text.column writer.startLine.out.reverse = writer.width * level := by
  -- The line begins at the margin, which is the level times the width.
  have begun := stands.startLine
  rw [begun.column, upright.column_startLine, margin, begun.level,
    show writer.startLine.width = writer.width from width_run writer .startLine, Nat.mul_comm]

/-- A word stands in the text behind all that was written before it, whatever comes after. -/
theorem Stands.exists_finish {writer : Writer} {level : Nat} {fresh : Bool}
    (stands : writer.Stands ⟨level, fresh⟩) {word : Text} (tidy : word.Tidy)
    (ops : List LayoutOp) :
    ∃ back, ((writer.write word).runAll ops).finish = writer.out.reverse ++ word ++ back := by
  -- what is written so far begins and ends in ink, so the last trim reaches none of it
  have text : (writer.write word).out.reverse = writer.out.reverse ++ word := by
    simp [Writer.write]
  have begins : ∀ c ∈ (writer.out.reverse ++ word).head?, isBlank c = false := by
    obtain ⟨_, above, level, words, count, holds, _, _⟩ := stands.write tidy
    rw [← text]
    exact holds.begins
  obtain ⟨c, last, solid⟩ := tidy.ends
  have ends : (writer.out.reverse ++ word).getLast? = some c := by
    rw [List.getLast?_append, Option.mem_def.mp last]
    rfl
  have stop : ∀ d ∈ (writer.write word).out.head?, d ≠ ' ' := by
    intro d front
    rw [← List.getLast?_reverse, text, ends] at front
    cases front
    rintro rfl
    cases solid
  -- and the rest of the run only writes behind it
  obtain ⟨more, split⟩ := suffix_runAll stop List.suffix_rfl ops
  rw [finish, ← split, List.reverse_append, text]
  exact Text.exists_trim_append begins ⟨c, ends, solid⟩ more.reverse

end Writer

/-- The first word of a clause: the first comment of its keyword, or else the keyword. -/
def Token.leadWord? (clause : Token) : Option Text :=
  clause.children.head?.bind fun keyword => keyword.words.head?

/-- A token is put down from its first word on. -/
theorem Token.exists_verbatim (token : Token) :
    ∃ word words ops, token.words = word :: words ∧ token.verbatim = .write word :: ops := by
  -- The first word is the first comment, or the text itself where there is none.
  unfold Token.words Token.verbatim
  cases token.comments with
  | nil => exact ⟨token.text, [], [], rfl, rfl⟩
  | cons comment comments => exact ⟨comment, _, _, rfl, rfl⟩

/-- A clause of a sound tree begins a line, and then puts down its first word. -/
theorem Token.Sound.exists_leadWord {clause : Token} (sound : clause.Sound)
    (kind : clause.kind = .part) :
    ∃ word, clause.leadWord? = some word ∧ word.Tidy ∧
      ∀ multiline, ∃ ops, clause.layout multiline = .startLine :: .write word :: ops := by
  -- A clause is laid out as its keyword, in a line of its own, and then its list.
  have allowed := sound.here.children
  rw [kind] at allowed
  obtain ⟨keyword, list, children, lead⟩ := exists_clause allowed
  obtain ⟨word, words, ops, first, laid⟩ := keyword.exists_verbatim
  have inside : keyword.Sound := sound.child (by simp [children])
  have tidy : keyword.Tidy := by
    -- The keyword is a leaf.
    have bare := inside.here.isLexical_eq
    rw [lead] at bare
    obtain ⟨_, text, below, comments⟩ := keyword
    cases List.isEmpty_iff.mp bare.symm
    exact inside.tidy _ (List.mem_singleton_self _)
  refine ⟨word, ?_, tidy word (by simp [first]), fun multiline => ?_⟩
  · simp [leadWord?, children, first]
  · obtain ⟨_, text, below, comments⟩ := clause
    cases kind
    cases children
    exact ⟨_, congrArg (fun ops => LayoutOp.startLine :: ops ++ _ ++ _) laid⟩

/-- Residue is in front of no clause, so that a way to one leads through the statement itself. -/
theorem Token.place?_withResidue {root : Token} (kind : root.kind = .statement) {left : List Token}
    {way : List Nat} {place : Place} (reached : (root.withResidue left).place? way = some place)
    (clause : place.node.kind = .part) : root.place? way = some place := by
  -- The residue is one more child of the root, behind all those that it had.
  unfold withResidue at reached
  split at reached
  · rename_i text _
    cases way with
    | nil =>
      cases reached
      exact absurd (kind.symm.trans clause) nofun
    | cons number way =>
      obtain ⟨front, child, back, inner, children, length, below, rfl⟩ := place?_cons.mp reached
      change root.children ++ [.residue text] = _ at children
      rcases List.eq_nil_or_concat' back with rfl | ⟨back, last, rfl⟩
      · -- The last child is the residue, which has nothing below it.
        obtain ⟨_, single⟩ := List.append_inj' children rfl
        obtain ⟨rfl, _⟩ := List.cons.inj single
        cases way with
        | nil =>
          cases below
          cases clause
        | cons next way =>
          obtain ⟨_, _, _, _, none, _⟩ := place?_cons.mp below
          simp [residue, lexical] at none
      · have children : root.children ++ [.residue text] = (front ++ child :: back) ++ [last] := by
          simpa using children
        obtain ⟨split, _⟩ := List.append_inj' children rfl
        exact place?_cons.mpr ⟨front, child, back, inner, split, length, below, rfl⟩
  · exact reached

/--
Every clause begins at its margin.

Its first word, a comment of its keyword or else the keyword, stands behind the text of the leaves
in front of it, in a column of one width for each clause and each bracket above it.
-/
theorem part_aligned (sql : Text)
    (unbroken : ∀ marker ∈ (BindSyntax.generic.cut sql).markers, '\n' ∉ marker)
    (width : IndentWidth) {way : List Nat} {place : Place}
    (reached : (parse sql).place? way = some place) (clause : place.node.kind = .part) :
    ∃ front word back, format width (parse sql) = front ++ word ++ back ∧
      place.node.leadWord? = some word ∧ (∃ c ∈ word.head?, isBlank c = false) ∧
      Text.ink front = Text.ink (place.before.flatMap Token.written) ∧
      Text.column front = width.columns * place.depth := by
  -- The layout is cut in two in front of the clause, at the instruction that begins its line.
  obtain ⟨root, left, result, kind, either, _⟩ := parse_tidy unbroken
  rw [result] at reached
  have reached := Token.place?_withResidue kind reached clause
  have sound : root.Sound := by
    rcases either with rfl | sound
    · -- An empty statement has no clauses.
      cases way with
      | nil =>
        cases reached
        cases clause
      | cons number way =>
        obtain ⟨_, _, _, _, none, _⟩ := Token.place?_cons.mp reached
        simp [Token.node] at none
    · exact sound
  obtain ⟨multiline, frames⟩ := sound.frames reached clause true
  obtain ⟨front, behind, split, ink, leads⟩ := frames.append (residueOps left)
  obtain ⟨word, lead, tidy, begins⟩ := (sound.place reached).exists_leadWord clause
  obtain ⟨ops, laid⟩ := begins multiline
  rw [← layout_withResidue kind, ← result, laid] at split
  -- The writer in front of the clause stands at the margin of its depth.
  let writer := ({ width := width.columns } : Writer).runAll front
  have stands : writer.Stands ⟨place.depth, true⟩ := by
    have there := (Writer.stands_start width.columns).runAll (leads 0)
    rwa [Nat.zero_add] at there
  have same : writer.width = width.columns := Writer.width_runAll _ front
  have column := stands.column_startLine ((Writer.upright_start width.columns).runAll front)
  have put : writer.startLine.ink = Text.ink (place.before.flatMap Token.written) := by
    have before : writer.ink = [] ++ inkOf front := Writer.ink_runAll _ front
    have after : writer.startLine.ink = writer.ink ++ [] := Writer.ink_run writer .startLine
    rw [after, before, ink, List.nil_append, List.append_nil]
  obtain ⟨back, text⟩ := stands.startLine.exists_finish tidy (ops ++ behind)
  refine ⟨writer.startLine.out.reverse, word, back, ?_, lead, tidy.begins, put, ?_⟩
  · rw [← text, format, split, Writer.runAll, List.foldl_append]
    rfl
  · rw [column, same]

/-- There is such a clause, with a comment on its keyword, in a bracket in the list of another. -/
theorem part_aligned_nested :
    let sql := "select a from (select :b {why} from c)".toList
    let way := [0, 1, 1, 0, 0, 0, 0, 0, 1, 0, 1]
    ((parse sql).place? way).map (fun place =>
      (place.node.kind, place.node.leadWord?, place.depth)) =
        some (.part, some "{why}".toList, 2) ∧
    ∃ place, (parse sql).place? way = some place ∧
      ∃ front word back, format .default (parse sql) = front ++ word ++ back ∧
        place.node.leadWord? = some word ∧ (∃ c ∈ word.head?, isBlank c = false) ∧
        Text.ink front = Text.ink (place.before.flatMap Token.written) ∧
        Text.column front = 10 * place.depth := by
  -- The clause is found by its way down the tree; where it stands is the general law.
  intro sql way
  have there : ((parse sql).place? way).map (fun place =>
      (place.node.kind, place.node.leadWord?, place.depth)) =
        some (.part, some "{why}".toList, 2) := by decide +kernel
  obtain ⟨place, reached, same⟩ := Option.map_eq_some_iff.mp there
  exact ⟨there, place, reached,
    part_aligned sql (by decide +kernel) .default reached (congrArg Prod.fst same)⟩

end SqlLayout
