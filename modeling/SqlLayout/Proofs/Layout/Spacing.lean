import SqlLayout.Layout.Tree
import SqlLayout.Parse
import SqlLayout.Proofs.Layout.Margin
import SqlLayout.Proofs.Lexing.Normal

/-!
Spacing: the indent width decides how many blanks stand between two words, and nothing else.

A text is looked at with its runs of blanks drawn together and without blanks in front.
What an instruction makes of that does not depend on the width, as a writer that does not begin a
line where it is told to has put down a blank already.
-/

namespace SqlLayout

namespace Text

/-- A text with every run of blanks drawn together to one, and with none in front. -/
def gist (text : Text) : Text :=
  -- The front of a text counts as a run that is open.
  squeezeFrom isBlank true text

/-- Whether a text ends in a blank, or is empty. -/
def ajar (text : Text) : Bool :=
  text.getLast?.elim true isBlank

/-- A text ends in a blank, or is empty, if its last character is a blank whenever there is one. -/
theorem ajar_of_last {text : Text} (blank : ∀ c ∈ text.getLast?, isBlank c = true) :
    text.ajar = true := by
  unfold ajar
  -- A text without a last character is empty, and so is what may follow it.
  rcases last : text.getLast? with _ | c
  · rfl
  · exact blank c last

/-- A text with a blank at its end, if it had none and is not empty. -/
def spaced (text : Text) : Text :=
  if text.ajar then text else text ++ [' ']

/-- Behind a text the gist of it goes on with what is squeezed. -/
theorem gist_append (front back : Text) :
    gist (front ++ back) = gist front ++ squeezeFrom isBlank front.ajar back :=
  -- Squeezing goes on behind the front, inside a gap if the front ends in one.
  squeezeFrom_append true front back

/-- The gist of a text ends in a blank where the text does. -/
theorem ajar_gist (text : Text) : ajar (gist text) = ajar text := by
  induction text using List.reverseRecOn with
  | nil => rfl
  | append_singleton front c ih =>
    rw [gist_append]
    have last : ajar (front ++ [c]) = isBlank c := by simp [ajar]
    rw [last]
    rcases blank : isBlank c with _ | _
    · simp [squeezeFrom, blank, ajar]
    · cases open_ : ajar front with
      | true =>
        -- A blank that continues a run leaves nothing behind.
        rwa [squeezeFrom, if_pos blank, if_pos rfl, squeezeFrom, List.append_nil, ih]
      | false =>
        rw [squeezeFrom, if_pos blank, if_neg Bool.false_ne_true, squeezeFrom]
        simp [ajar, isBlank]

/-- Blanks behind a text put a blank behind its gist, unless there is one already. -/
theorem gist_append_blank {gap : Text} (blank : Blank gap) (front : Text)
    (some : gap ≠ [] ∨ front.ajar = true) : gist (front ++ gap) = spaced (gist front) := by
  rw [gist_append, squeezeFrom_of_gaps blank, spaced, ajar_gist]
  -- A gap adds a blank unless one stands at the end already.
  cases open_ : ajar front with
  | true => simp
  | false =>
    have filled : gap ≠ [] := some.resolve_right (by simp [open_])
    simp [filled]

/-- Behind a blank another one makes no difference. -/
theorem spaced_spaced (text : Text) : spaced (spaced text) = spaced text := by
  -- Once a blank is at the end, no second one is put there.
  have closed : ajar (spaced text) = true := by
    rw [spaced]
    split
    · assumption
    · simp [ajar, isBlank]
  rw [spaced, if_pos closed]

/-- A blank is put behind a text all the same when blanks stand there already. -/
theorem spaced_gist_append {gap : Text} (blank : Blank gap) (front : Text) :
    spaced (gist (front ++ gap)) = spaced (gist front) := by
  -- Blanks at the end come to one space, which is there already.
  by_cases filled : gap = []
  · rw [filled, List.append_nil]
  · rw [gist_append_blank blank front (.inl filled), spaced_spaced]

/-- Blanks in front of a text do not count. -/
theorem gist_blank_append {front : Text} (blank : Blank front) (text : Text) :
    gist (front ++ text) = gist text := by
  -- The blanks at the front are inside a gap from the start, and come to nothing.
  have open_ : front.ajar = true := ajar_of_last fun c last => blank c (List.mem_of_getLast? last)
  rw [gist_append, gist, squeezeFrom_of_gaps blank, open_]
  rfl

/-- A text without the blanks around it begins and ends with no blank. -/
theorem trim_edges (text : Text) :
    (∀ c ∈ (trim text).head?, isBlank c = false) ∧
      ∀ c ∈ (trim text).getLast?, isBlank c = false := by
  -- Trimming makes no text longer, and changes nothing when it is done again.
  have shorter : ∀ text : Text, (trim text).length ≤ text.length := by
    intro text
    obtain ⟨front, back, _, _, split⟩ := exists_trim text
    have lengths := congrArg List.length split
    simp only [List.length_append] at lengths
    omega
  constructor
  · intro c first
    obtain ⟨rest, split⟩ := List.head?_eq_some_iff.mp first
    refine Bool.eq_false_iff.mpr fun blank => ?_
    have same := trim_trim text
    have less := shorter rest
    rw [split, trim_cons blank] at same
    rw [same, List.length_cons] at less
    omega
  · intro c last
    obtain ⟨front, split⟩ := List.getLast?_eq_some_iff.mp last
    refine Bool.eq_false_iff.mpr fun blank => ?_
    have same := trim_trim text
    have less := shorter front
    rw [split, trim_append_blank front (List.forall_mem_singleton.mpr blank)] at same
    rw [same, List.length_append, List.length_singleton] at less
    omega

/-- What is left of a text without the blanks around it can be told from its gist. -/
theorem squeeze_trim (text : Text) : squeeze isBlank (trim text) = trim (gist text) := by
  -- A gist drops the blanks in front and leaves at most one behind.
  obtain ⟨front, back, blank, blank', split⟩ := exists_trim text
  obtain ⟨first, last⟩ := trim_edges text
  have squeezed : squeeze isBlank (trim text) = gist (trim text) := (squeezeFrom_of_head first).symm
  have kept : trim (gist (trim text)) = gist (trim text) := by
    refine trim_eq_self ((isChain_squeezeFrom true (trim text)).2 rfl) ?_
    -- The gist ends in a blank only where the text does.
    intro c back
    have same := ajar_gist (trim text)
    unfold ajar at same
    rw [back] at same
    rcases final : (trim text).getLast? with _ | d
    · rw [List.getLast?_eq_none_iff.mp final] at back
      cases back
    · rw [final] at same
      exact same.trans (last d final)
  have whole := gist_blank_append blank (trim text ++ back)
  rw [← List.append_assoc, ← split] at whole
  rw [squeezed, whole]
  by_cases filled : back = []
  · rw [filled, List.append_nil, kept]
  · rw [gist_append_blank blank' _ (.inl filled), spaced]
    split
    · exact kept.symm
    · rw [trim_append_blank _ (List.forall_mem_singleton.mpr rfl), kept]

end Text

/-- What an instruction makes of the gist of what has been written. -/
def LayoutOp.onGist (op : LayoutOp) (text : Text) : Text :=
  match op with
  | .write word => text ++ Text.squeezeFrom isBlank text.ajar word
  | .dedent => text
  -- All other instructions put down blanks.
  | _ => text.spaced

namespace Writer

/-- The gist of all that a writer has written. -/
def gist (writer : Writer) : Text :=
  -- The last character written stands in front.
  Text.gist writer.out.reverse

/-- A text ends in a blank when the last character that was written is one. -/
theorem ajar_reverse {out : Text} (blank : ∀ c ∈ out.head?, isBlank c = true) :
    Text.ajar out.reverse = true := by
  -- The last character written is the first one kept.
  refine Text.ajar_of_last ?_
  rwa [List.getLast?_reverse]

/-- Blanks that are written put a blank behind the gist. -/
theorem gist_write_blank {writer : Writer} {gap : Text} (blank : Text.Blank gap)
    (some : gap ≠ [] ∨ ∀ c ∈ writer.out.head?, isBlank c = true) :
    (writer.write gap).gist = writer.gist.spaced := by
  -- What is written stands at the end of the text.
  unfold gist write
  rw [List.reverse_append, List.reverse_reverse]
  exact Text.gist_append_blank blank _ (some.imp_right ajar_reverse)

/-- Moving the margin to the right puts a blank behind the gist. -/
theorem gist_indent (writer : Writer) : writer.indent.gist = writer.gist.spaced := by
  unfold indent
  simp only
  -- How far the margin is makes no difference, as there is at least one blank.
  split
  · rename_i short
    refine gist_write_blank (blank_replicate _) (.inl ?_)
    rw [Ne, List.replicate_eq_nil_iff]
    exact Nat.ne_of_gt (Nat.sub_pos_of_lt short)
  · exact gist_write_blank (blank_replicate 1) (.inl nofun)

/-- A new line puts a blank behind the gist, whatever blanks the old one loses. -/
theorem gist_newline (writer : Writer) : writer.newline.gist = writer.gist.spaced := by
  -- Before and behind the break the same text is kept, with blanks after it.
  obtain ⟨kept, gap, gap', old, blank, new, blank', some⟩ := exists_kept writer
  have open_ : gap' ≠ [] ∨ Text.ajar kept = true := some.imp_right Text.ajar_of_last
  rw [gist, gist, old, new, Text.gist_append_blank blank' kept open_, Text.spaced_gist_append blank]

/-- What an instruction makes of the gist does not depend on the width. -/
theorem Upright.gist_run {writer : Writer} (upright : writer.Upright) (op : LayoutOp) :
    (writer.run op).gist = op.onGist writer.gist := by
  -- A new line makes one space of whatever blanks it writes, and a text only adds itself.
  cases op with
  | write text =>
    show Text.gist (text.reverse ++ writer.out).reverse = _
    rw [List.reverse_append, List.reverse_reverse, Text.gist_append, ← Text.ajar_gist]
    rfl
  | dedent => rfl
  | indent => exact gist_indent writer
  | newline => exact gist_newline writer
  | startLine =>
    show writer.startLine.gist = writer.gist.spaced
    unfold Writer.startLine
    split
    · exact gist_newline writer
    · -- A line that is not begun is at the margin, and ends in a blank.
      rename_i short
      have reached := upright.reached
      have open_ := ajar_reverse (upright.fresh (by omega))
      rw [gist, Text.spaced, Text.ajar_gist, if_pos open_]

/-- What instructions in order make of the gist does not depend on the width. -/
theorem Upright.gist_runAll {writer : Writer} (upright : writer.Upright) (ops : List LayoutOp) :
    (writer.runAll ops).gist = ops.foldl (fun text op => op.onGist text) writer.gist := by
  -- That the writer stands upright is needed at every step, and kept by it.
  induction ops generalizing writer with
  | nil => rfl
  | cons op ops ih =>
    show ((writer.run op).runAll ops).gist = _
    rw [ih (upright.run op), upright.gist_run]
    rfl

end Writer

/-- With its runs of blanks drawn together, the layout of a tree is the same for all widths. -/
theorem squeeze_format_tree (root : Token) (narrow wide : IndentWidth) :
    (format narrow root).squeeze isBlank = (format wide root).squeeze isBlank := by
  -- Both widths come to the same text, which does not mention the width.
  have gist : ∀ width : IndentWidth, (format width root).squeeze isBlank =
      Text.trim ((root.layout true).foldl (fun text op => op.onGist text) []) := by
    intro width
    have run := (Writer.upright_start width.columns).gist_runAll (root.layout true)
    rw [format, Writer.finish, Text.squeeze_trim, ← Writer.gist, run]
    rfl
  rw [gist narrow, gist wide]

/--
The indent width changes white space only.

With every run of blanks drawn together to one, a formatted text is the same for all widths.
This holds for every text and every way to recognise markers.
-/
theorem squeeze_format (style : BindSyntax) (sql : Text) (narrow wide : IndentWidth) :
    (format narrow (style.parse sql).root).squeeze isBlank =
      (format wide (style.parse sql).root).squeeze isBlank :=
  -- What is special about parsed trees plays no part.
  squeeze_format_tree _ narrow wide

end SqlLayout
