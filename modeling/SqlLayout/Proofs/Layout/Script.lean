import SqlLayout.Proofs.Layout.Margin
import SqlLayout.Proofs.Lexing.Respell

/-! Scripts: the words that instructions put down, and the text a writer makes of them. -/

namespace SqlLayout

/-- The words that instructions put down, each with whether it is set off. -/
def script : (set : Bool) → List LayoutOp → List (Bool × Text)
  | _, [] => []
  | set, .write text :: ops =>
    if text = [' '] then script true ops else (set, text) :: script false ops
  | set, .dedent :: ops => script set ops
  | _, _ :: ops => script true ops

/-- Whether a word is set off behind instructions. -/
def setAfter : (set : Bool) → List LayoutOp → Bool
  | set, [] => set
  | _, .write text :: ops => setAfter (text == [' ']) ops
  | set, .dedent :: ops => setAfter set ops
  | _, _ :: ops => setAfter true ops

/-- Instructions one behind the other put down their words one behind the other. -/
theorem script_append (set : Bool) (front back : List LayoutOp) :
    script set (front ++ back) = script set front ++ script (setAfter set front) back := by
  -- What is set off depends on all in front, so the induction carries it along.
  induction front generalizing set with
  | nil => rfl
  | cons op front ih =>
    cases op with
    | write text =>
      rw [List.cons_append, script, script, setAfter]
      -- A blank counts as a gap, and any other text as a word.
      by_cases blank : text = [' ']
      · rw [if_pos blank, if_pos blank, ih, beq_iff_eq.mpr blank]
      · rw [if_neg blank, if_neg blank, ih, beq_eq_false_iff_ne.mpr blank]
        rfl
    | dedent => exact ih set
    | indent => exact ih true
    | newline => exact ih true
    | startLine => exact ih true

/-- Whether a word is set off depends on the instructions in front of it in order. -/
theorem setAfter_append (set : Bool) (front back : List LayoutOp) :
    setAfter set (front ++ back) = setAfter (setAfter set front) back := by
  induction front generalizing set with
  | nil => rfl
  -- Only a text that is no blank leaves the next word touching.
  | cons op front ih =>
    cases op with
    | write text => exact ih _
    | dedent => exact ih set
    | indent => exact ih true
    | newline => exact ih true
    | startLine => exact ih true

/-- Words of which the first is not set off from anything. -/
def unset : List (Bool × Text) → List (Bool × Text)
  | [] => []
  | (_, word) :: rest => (false, word) :: rest

/-- A text that leaves off right behind the last of its words. -/
def Opens (items : List (Bool × Text)) (body : Text) : Prop :=
  ∀ rest text, Written rest text → Written (items ++ rest) (body ++ text)

/-- One more word goes behind the blanks that set it off. -/
theorem Opens.word {items : List (Bool × Text)} {body pad word : Text} {set : Bool}
    (opens : Opens items body) (blank : Text.Blank pad) (spaced : set = true ↔ pad ≠ []) :
    Opens (items ++ [(set, word)]) (body ++ (pad ++ word)) := by
  -- The word is the next one to be written, behind blanks if it is set off.
  intro rest text written
  have more := opens ((set, word) :: rest) (pad ++ (word ++ text)) (.word blank spaced written)
  simpa using more

/--
A text, last character in front, that holds words and then blanks if the next word is set off.

What stands in front of the first word makes no difference.
-/
def Drafted (items : List (Bool × Text)) (set : Bool) (out : Text) : Prop :=
  ∃ front body pad, out.reverse = front ++ (body ++ pad) ∧ Text.Blank front ∧ Text.Blank pad ∧
    Opens (unset items) body ∧ (items = [] → body = [] ∧ pad = []) ∧
    (items ≠ [] → (set = true ↔ pad ≠ []) ∧ ∃ c ∈ body.getLast?, isBlank c = false)

/-- One word more on the line. -/
theorem Drafted.word {items : List (Bool × Text)} {set : Bool} {out word : Text}
    (drafted : Drafted items set out) (last : ∃ c ∈ word.getLast?, isBlank c = false) :
    Drafted (items ++ [(set, word)]) false (word.reverse ++ out) := by
  -- The line is blanks, then the words written so far, then the blanks behind them.
  obtain ⟨front, body, pad, split, blank, blank', opens, first, later⟩ := drafted
  -- Whatever is in front of it, the text ends as the word does.
  have ending : ∀ before : Text, ∃ c ∈ (before ++ word).getLast?, isBlank c = false := by
    obtain ⟨c, back, solid⟩ := last
    exact fun before => ⟨c, by simp [List.getLast?_append, show word.getLast? = some c from back],
      solid⟩
  cases items with
  -- The first word opens the text, with nothing but blanks in front.
  | nil =>
    obtain ⟨rfl, rfl⟩ := first rfl
    refine ⟨front, word, [], ?_, blank, nofun, ?_, nofun, fun _ => ⟨by simp, last⟩⟩
    · simpa using split
    · intro rest text written
      exact .word (List.forall_mem_nil _) (by simp) written
  | cons item items =>
    -- A later word is put behind the blanks that set it off, if it is.
    obtain ⟨spaced, _⟩ := later nofun
    refine ⟨front, body ++ (pad ++ word), [], ?_, blank, nofun, opens.word blank' spaced, nofun,
      fun _ => ⟨by simp, ?_⟩⟩
    · simp [split]
    · rw [← List.append_assoc]
      exact ending _

/-- Blanks behind the words set off the next one. -/
theorem Drafted.blanks {items : List (Bool × Text)} {set : Bool} {out gap : Text}
    (drafted : Drafted items set out) (blank : Text.Blank gap) (some : set = true ∨ gap ≠ []) :
    Drafted items true (gap.reverse ++ out) := by
  -- The blanks are put where the line ends, behind its words if it has any.
  obtain ⟨front, body, pad, split, before, behind, opens, first, later⟩ := drafted
  -- Without a word the gap joins the blanks at the front.
  cases items with
  | nil =>
    obtain ⟨rfl, rfl⟩ := first rfl
    refine ⟨front ++ gap, [], [], ?_, List.forall_mem_append.mpr ⟨before, blank⟩, nofun, opens,
      fun _ => ⟨rfl, rfl⟩, nofun⟩
    simp [split]
  | cons item items =>
    -- Behind a word the gap joins the blanks that trail.
    obtain ⟨spaced, last⟩ := later nofun
    refine ⟨front, body, pad ++ gap, ?_, before, List.forall_mem_append.mpr ⟨behind, blank⟩, opens,
      nofun, fun _ => ⟨?_, last⟩⟩
    · simp [split]
    · rcases some with rfl | filled
      · simp [spaced.mp rfl]
      · simp [filled]

/-- Behind a blank the next word is set off. -/
theorem Drafted.set {items : List (Bool × Text)} {set : Bool} {out : Text}
    (drafted : Drafted items set out) (blank : ∀ c ∈ out.head?, isBlank c = true) :
    Drafted items true out := by
  obtain ⟨front, body, pad, split, before, behind, opens, first, later⟩ := drafted
  refine ⟨front, body, pad, split, before, behind, opens, first, fun filled => ?_⟩
  obtain ⟨_, c, last, solid⟩ := later filled
  refine ⟨iff_of_true rfl fun bare => ?_, c, last, solid⟩
  -- Otherwise the text would end with the last word, which ends with no blank.
  have back : out.head? = some c := by
    rw [← List.getLast?_reverse, split, bare, List.append_nil, List.getLast?_append,
      show body.getLast? = some c from last]
    rfl
  rw [blank c back] at solid
  cases solid

/-- Dropping blanks at the end of a line touches no word. -/
theorem Drafted.drop {items : List (Bool × Text)} {set : Bool} {out : Text}
    (drafted : Drafted items set out) :
    ∃ set, Drafted items set (out.dropWhile (· == ' ')) := by
  -- The blanks trail behind the last word, or nothing but blanks has been written.
  obtain ⟨front, body, pad, split, before, behind, opens, first, later⟩ := drafted
  cases items with
  | nil =>
    obtain ⟨rfl, rfl⟩ := first rfl
    refine ⟨false, (out.dropWhile (· == ' ')).reverse, [], [], by simp, ?_, nofun, opens,
      fun _ => ⟨rfl, rfl⟩, nofun⟩
    intro c member
    refine before c ?_
    rw [List.append_nil, List.append_nil] at split
    rw [← split, List.mem_reverse]
    exact (List.dropWhile_sublist _).mem (List.mem_reverse.mp member)
  | cons item items =>
    obtain ⟨_, c, last, solid⟩ := later nofun
    have whole : out = pad.reverse ++ (body.reverse ++ front.reverse) := by
      rw [← List.reverse_append, ← List.reverse_append, List.append_assoc, ← split,
        List.reverse_reverse]
    -- The last word ends with no blank, so that only blanks behind it go.
    have stop : (body.reverse ++ front.reverse).dropWhile (· == ' ') =
        body.reverse ++ front.reverse := by
      obtain ⟨start, rfl⟩ := List.getLast?_eq_some_iff.mp last
      have other : (c == ' ') = false := by
        refine beq_eq_false_iff_ne.mpr ?_
        rintro rfl
        cases solid
      simp [other]
    have kept : out.dropWhile (· == ' ') =
        pad.reverse.dropWhile (· == ' ') ++ (body.reverse ++ front.reverse) := by
      rw [whole, List.dropWhile_append, stop]
      split
      · rename_i bare
        rw [List.isEmpty_iff.mp bare]
        rfl
      · rfl
    refine ⟨!(pad.reverse.dropWhile (· == ' ')).isEmpty, front, body,
      (pad.reverse.dropWhile (· == ' ')).reverse, by simp [kept], before, ?_, opens, nofun,
      fun _ => ⟨by simp, c, last, solid⟩⟩
    intro d member
    exact behind d (List.mem_reverse.mp
      ((List.dropWhile_sublist _).mem (List.mem_reverse.mp member)))

/-- On a new line the next word is set off. -/
theorem Drafted.newline {items : List (Bool × Text)} {set : Bool} {out : Text}
    (drafted : Drafted items set out) :
    Drafted items true (Writer.breakLine (out.dropWhile (· == ' '))) := by
  -- The blanks that the line loses are those that trail.
  obtain ⟨set', kept⟩ := drafted.drop
  -- A line break that was there already sets off the next word as well.
  rcases breakLine_cases (out.dropWhile (· == ' ')) with ⟨same, line⟩ | ⟨_, broken⟩
  · rw [same]
    refine kept.set fun c front => ?_
    rw [line c front]
    rfl
  · rw [broken]
    exact @Drafted.blanks items set' _ ['\n'] kept (by simp [Text.Blank, isBlank]) (.inr nofun)

/-- What a writer has written when it has put down words. -/
structure Writer.Drafts (writer : Writer) (items : List (Bool × Text)) (set : Bool) : Prop where
  /-- The margin moves by at least one column. -/
  wide : 1 ≤ writer.width
  /-- The line reaches up to the margin. -/
  reached : writer.margin ≤ writer.column
  /-- A line that reaches no further holds nothing but blanks. -/
  fresh : writer.column = writer.margin → ∀ c ∈ writer.out.head?, isBlank c = true
  /-- The text holds the words. -/
  drafted : Drafted items set writer.out

/-- Whether an instruction puts down a blank, or else no word that ends with one. -/
def LayoutOp.Solid : LayoutOp → Prop
  | .write text => text = [' '] ∨ ∃ c ∈ text.getLast?, isBlank c = false
  | _ => True

namespace Writer

/-- What a writer has drafted stands behind an upright margin. -/
theorem Drafts.upright {writer : Writer} {items : List (Bool × Text)} {set : Bool}
    (drafts : writer.Drafts items set) : writer.Upright :=
  -- Two of the conditions on a draft are just these.
  ⟨drafts.reached, drafts.fresh⟩

/-- An upright writer with a text that holds words has put them down. -/
theorem Upright.drafts {writer : Writer} {items : List (Bool × Text)} {set : Bool}
    (upright : writer.Upright) (wide : 1 ≤ writer.width) (drafted : Drafted items set writer.out) :
    writer.Drafts items set :=
  -- The other conditions on a draft are given.
  ⟨wide, upright.reached, upright.fresh, drafted⟩

/-- A writer that has moved its margin to the right, and put blanks behind its text. -/
theorem Drafts.indent {writer : Writer} {items : List (Bool × Text)} {set : Bool}
    (drafts : writer.Drafts items set) : writer.indent.Drafts items true := by
  refine (upright_indent writer).drafts (width_run writer .indent ▸ drafts.wide) ?_
  -- The line is filled up to the margin, or else takes a single blank.
  unfold Writer.indent
  simp only
  split
  · rename_i short
    refine drafts.drafted.blanks (blank_replicate _) (.inr ?_)
    rw [Ne, List.replicate_eq_nil_iff]
    exact Nat.ne_of_gt (Nat.sub_pos_of_lt short)
  · exact drafts.drafted.blanks (blank_replicate 1) (.inr nofun)

/-- A writer at the margin of a new line. -/
theorem Drafts.newline {writer : Writer} {items : List (Bool × Text)} {set : Bool}
    (drafts : writer.Drafts items set) : writer.newline.Drafts items true :=
  -- A new line is upright, and the blanks it ends with set off the next word.
  (upright_newline writer).drafts drafts.wide
    (drafts.drafted.newline.blanks (blank_replicate _) (.inl rfl))

/-- A writer at the margin of a line with nothing on it. -/
theorem Drafts.startLine {writer : Writer} {items : List (Bool × Text)} {set : Bool}
    (drafts : writer.Drafts items set) : writer.startLine.Drafts items true := by
  unfold Writer.startLine
  -- A line that is used as it is has nothing but blanks behind the margin.
  split
  · exact drafts.newline
  · rename_i short
    have reached := drafts.reached
    exact drafts.upright.drafts drafts.wide (drafts.drafted.set (drafts.fresh (by omega)))

/-- One instruction puts down its word, or sets off the next one. -/
theorem Drafts.step {writer : Writer} {items : List (Bool × Text)} {set : Bool}
    (drafts : writer.Drafts items set) {op : LayoutOp} (solid : op.Solid) :
    (writer.run op).Drafts (items ++ script set [op]) (setAfter set [op]) := by
  -- Each instruction writes a word or makes a gap.
  cases op with
  -- A blank that is written is a gap, and any other text a word.
  | write text =>
    have upright := drafts.upright.write text
    by_cases blank : text = [' ']
    · subst blank
      rw [show script set [.write [' ']] = [] from rfl, List.append_nil]
      exact upright.drafts drafts.wide (drafts.drafted.blanks (blank_replicate 1) (.inr nofun))
    · have word := upright.drafts drafts.wide (drafts.drafted.word (solid.resolve_left blank))
      rw [← beq_eq_false_iff_ne.mpr blank] at word
      simpa [script, setAfter, Writer.run, blank] using word
  | indent => simpa [script, setAfter, Writer.run] using drafts.indent
  | dedent =>
    have drafted : writer.dedent.Drafts items set :=
      drafts.upright.dedent.drafts drafts.wide drafts.drafted
    simpa [script, setAfter, Writer.run] using drafted
  | newline => simpa [script, setAfter, Writer.run] using drafts.newline
  | startLine => simpa [script, setAfter, Writer.run] using drafts.startLine

/-- Instructions put down their words in order. -/
theorem Drafts.run {writer : Writer} {items : List (Bool × Text)} {set : Bool}
    (drafts : writer.Drafts items set) {ops : List LayoutOp} (solid : ∀ op ∈ ops, op.Solid) :
    (writer.runAll ops).Drafts (items ++ script set ops) (setAfter set ops) := by
  induction ops generalizing writer items set with
  | nil => simpa [script, setAfter, Writer.runAll] using drafts
  | cons op ops ih =>
    -- The words of one instruction are those that the others are put behind.
    obtain ⟨first, rest⟩ := List.forall_mem_cons.mp solid
    have next := ih (drafts.step first) rest
    rwa [List.append_assoc, ← script_append, ← setAfter_append] at next

/-- All that instructions have put down is a text of their words, without blanks around it. -/
theorem written_finish {width : Nat} (wide : 1 ≤ width) {ops : List LayoutOp}
    (solid : ∀ op ∈ ops, op.Solid) (begins : ∀ item ∈ script false ops,
      item.2 ≠ [] ∧ ∀ c ∈ item.2.head?, isBlank c = false) :
    Written (unset (script false ops)) (({ width } : Writer).runAll ops).finish := by
  -- What was drafted has its gaps between words, once the blanks at both ends are gone.
  have start : ({ width } : Writer).Drafts [] false :=
    (upright_start width).drafts wide
      ⟨[], [], [], rfl, nofun, nofun, fun _ _ => id, fun _ => ⟨rfl, rfl⟩, nofun⟩
  obtain ⟨front, body, pad, split, blank, blank', opens, none, ends⟩ := (start.run solid).drafted
  rw [List.nil_append] at opens none ends
  have whole : Written (unset (script false ops)) body := by
    simpa using opens [] [] (.done (List.forall_mem_nil _))
  suffices same : Text.trim body = body by
    unfold finish
    rw [split, Text.trim_blank_append blank, Text.trim_append_blank _ blank', same]
    exact whole
  -- The text begins with the first word and ends with the last one.
  rcases made : script false ops with _ | ⟨⟨set, word⟩, rest⟩
  · rw [(none made).1]
    rfl
  · obtain ⟨_, c, last, solid⟩ := ends (by rw [made]; nofun)
    refine Text.trim_eq_self ?_ ?_
    · rw [made] at whole begins
      obtain ⟨filled, first⟩ := begins _ (.head rest)
      cases whole with
      | @word _ _ gap text _ _ spaced _ =>
        have bare : gap = [] := by simpa using spaced
        obtain ⟨d, others, same⟩ := List.exists_cons_of_ne_nil filled
        change word = d :: others at same
        subst bare same
        exact first
    · intro d back
      cases last.symm.trans back
      exact solid

end Writer

end SqlLayout
