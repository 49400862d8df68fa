import SqlLayout.Layout.Tree
import SqlLayout.Proofs.Layout.Script

/-! Laying out words: which words instructions put down, and that those left unspaced may touch. -/

namespace SqlLayout

/-- The words of a token: its comments and then its text. -/
def Token.words (token : Token) : List Text :=
  token.comments ++ [token.text]

/-- Two words in a row of which the second is set off, or may touch the first. -/
def StandsOff (item next : Bool × Text) : Prop :=
  next.1 = true ∨ ∀ c ∈ next.2.head?, mayTouch item.2 c = true

/-- Instructions that put down words in order, each set off or allowed to touch the one before. -/
structure Lays (ops : List LayoutOp) (words : List Text) : Prop where
  /-- The words are those that are put down. -/
  spoken : ∀ set, (script set ops).map Prod.snd = words
  /-- No word is put right behind another that it may not touch. -/
  apart : ∀ set, (script set ops).IsChain StandsOff

/-- Whether every word of a list may be followed at once by the first word of another. -/
def Touch (words next : List Text) : Prop :=
  ∀ word ∈ words.getLast?, ∀ first ∈ next.head?, ∀ c ∈ first.head?, mayTouch word c = true

/-- What may be followed by two lists of words may be followed by both. -/
theorem Touch.append {words front back : List Text} (touch : Touch words front)
    (touch' : Touch words back) : Touch words (front ++ back) := by
  -- What touches is the first word, and that is the front's if it has one.
  cases front with
  | nil => exact touch'
  | cons word front => exact touch

/-- The instructions that put down blanks, and no word. -/
def LayoutOp.isGap : LayoutOp → Bool
  | .write text => text == [' ']
  | .dedent => false
  | _ => true

/-- A blank is a gap. -/
theorem isGap_blank : ∀ op ∈ [LayoutOp.write [' ']], op.isGap = true := by
  simp [LayoutOp.isGap]

/-- Whether instructions begin with a gap, if there are any. -/
def SetsOff (ops : List LayoutOp) : Prop :=
  ∀ op ∈ ops.head?, op.isGap = true

/-- No instructions begin with anything but a gap. -/
theorem setsOff_nil : SetsOff [] := by
  simp [SetsOff]

/-- A gap sets off the word behind it. -/
theorem script_gap {op : LayoutOp} (gap : op.isGap = true) (set : Bool) (ops : List LayoutOp) :
    script set (op :: ops) = script true ops := by
  -- All gaps but the blank that is written set off whatever they are.
  cases op with
  | write text => rw [script, if_pos (beq_iff_eq.mp gap)]
  | dedent => cases gap
  | indent => rfl
  | newline => rfl
  | startLine => rfl

/-- Instructions that begin with a gap set off their first word. -/
theorem SetsOff.script {ops : List LayoutOp} (off : SetsOff ops) (set : Bool) :
    SqlLayout.script set ops = SqlLayout.script true ops := by
  -- A gap comes first, and behind it the word is set off either way.
  cases ops with
  | nil => rfl
  | cons op ops => rw [script_gap (off op rfl), script_gap (off op rfl)]

/-- Gaps in front of instructions set off their first word. -/
theorem setsOff_append {gaps : List LayoutOp} (all : ∀ op ∈ gaps, op.isGap = true)
    (filled : gaps ≠ []) (ops : List LayoutOp) : SetsOff (gaps ++ ops) := by
  -- The first instruction is one of the gaps.
  obtain ⟨op, rest, rfl⟩ := List.exists_cons_of_ne_nil filled
  rintro op ⟨⟩
  exact all op (.head rest)

/-- A first word that is set off has nothing in front of it that it touches. -/
theorem head?_script_true (ops : List LayoutOp) : ∀ item ∈ (script true ops).head?, item.1 = true := by
  induction ops with
  | nil => exact nofun
  | cons op ops ih =>
    cases op with
    -- A blank that is written leaves the next word set off, and any other text is that word.
    | write text =>
      rw [script]
      split
      · exact ih
      · rintro item ⟨⟩
        rfl
    | dedent => exact ih
    | indent => exact ih
    | newline => exact ih
    | startLine => exact ih

/-- No instructions put down no words. -/
theorem lays_nil : Lays [] [] :=
  -- There is nothing to set off, and no word.
  ⟨fun _ => rfl, fun _ => .nil⟩

/-- Gaps put down no word. -/
theorem Lays.gaps {ops gaps : List LayoutOp} {words : List Text} (lays : Lays ops words)
    (all : ∀ op ∈ gaps, op.isGap = true) : Lays (gaps ++ ops) words := by
  induction gaps with
  | nil => exact lays
  | cons op gaps ih =>
    obtain ⟨gap, rest⟩ := List.forall_mem_cons.mp all
    -- The first gap is dropped, whatever the instructions in front of it have left.
    have behind := ih rest
    refine ⟨fun set => ?_, fun set => ?_⟩
    · rw [List.cons_append, script_gap gap]
      exact behind.spoken true
    · rw [List.cons_append, script_gap gap]
      exact behind.apart true

/-- A single word is put down. -/
theorem lays_word {word : Text} (solid : word ≠ [' ']) : Lays [.write word] [word] := by
  -- A text that is no blank is a word, set off as it was found.
  have one : ∀ set, script set [.write word] = [(set, word)] := by
    intro set
    rw [script, if_neg solid]
    rfl
  refine ⟨fun set => ?_, fun set => ?_⟩
  · rw [one]
    rfl
  · rw [one]
    exact .singleton _

/-- Instructions one behind the other put down their words, if the second ones are set off. -/
theorem Lays.append {front back : List LayoutOp} {words next : List Text} (lays : Lays front words)
    (lays' : Lays back next) (off : SetsOff back ∨ Touch words next) :
    Lays (front ++ back) (words ++ next) := by
  refine ⟨fun set => ?_, fun set => ?_⟩
  · rw [script_append, List.map_append, lays.spoken, lays'.spoken]
  · rw [script_append, List.isChain_append]
    refine ⟨lays.apart set, lays'.apart _, ?_⟩
    -- Where the two meet, the second word is set off or allowed to touch the first.
    intro item last first head
    rcases off with off | touch
    · rw [off.script] at head
      exact .inl (head?_script_true back first head)
    · refine .inr (touch item.2 ?_ first.2 ?_)
      · rw [← lays.spoken set, List.getLast?_map, last]
        rfl
      · rw [← lays'.spoken (setAfter set front), List.head?_map, head]
        rfl

/-- Instructions with gaps between them put down their words. -/
theorem Lays.spaced {front gaps back : List LayoutOp} {words next : List Text}
    (lays : Lays front words) (all : ∀ op ∈ gaps, op.isGap = true) (filled : gaps ≠ [])
    (lays' : Lays back next) : Lays (front ++ (gaps ++ back)) (words ++ next) :=
  -- The gaps set off what comes behind them, so that nothing touches.
  lays.append (lays'.gaps all) (.inl (setsOff_append all filled back))

/-- Moving the margin to the left puts down no word. -/
theorem Lays.dedent {ops : List LayoutOp} {words : List Text} (lays : Lays ops words) :
    Lays (ops ++ [.dedent]) words := by
  refine ⟨fun set => ?_, fun set => ?_⟩
  · rw [script_append, List.map_append, lays.spoken]
    -- The margin moves without a word, and without setting off the next one.
    exact List.append_nil words
  · rw [script_append]
    exact (List.append_nil (script set ops)).symm ▸ lays.apart set

/-- Words one behind the other, with a blank behind each but the last. -/
theorem lays_verbatim {token : Token} (solid : ∀ word ∈ token.words, word ≠ [' ']) :
    Lays token.verbatim token.words := by
  unfold Token.verbatim Token.words at *
  -- The comments are general, as the blank behind each of them is for the induction.
  generalize token.comments = comments at solid
  induction comments with
  | nil => exact lays_word (solid _ (.head []))
  | cons comment comments ih =>
    obtain ⟨first, rest⟩ := List.forall_mem_cons.mp solid
    exact (lays_word first).spaced isGap_blank nofun (ih rest)

end SqlLayout
