import SqlLayout.Proofs.Lexing.Lexicon

/-! Lexemes: keywords, signs and names, and when what stands behind one leaves it as it is. -/

namespace SqlLayout

/-- Whether a piece is what one pass finds at the front of its own text. -/
def Piece.IsLexeme (piece : Piece) : Prop :=
  frontPiece? sweeps true piece.text = some (piece, [])

/-- All keywords and signs, in the order in which they are tried. -/
def lexicon : List Text :=
  sweeps.flatMap fun sweep => sweep.pattern.alternatives

/-- Whether no keyword or sign that begins with a word is met behind it. -/
def Free (word rest : Text) : Prop :=
  ∀ sweep ∈ sweeps, ∀ tail after, word ++ tail ∈ sweep.pattern.alternatives → tail ≠ [] →
    rest = tail ++ after → ¬ (sweep.pattern.isWordy = true → endsWord after = true)

/-- The words of the sweeps are well spelled. -/
theorem wellSpelled_sweeps {sweep : Sweep} (member : sweep ∈ sweeps) :
    sweep.pattern.wellSpelled = true := by
  -- The spelling of every pattern is computed.
  have all : sweeps.all (fun sweep => sweep.pattern.wellSpelled) = true := by decide +kernel
  exact List.all_eq_true.mp all sweep member

/-- What is found in a text is found with anything behind it that runs on from no word in it. -/
theorem frontPiece?_of_stop {boundary : Bool} {text back : Text} (solid : text ≠ [])
    (ends : wordEdge boundary text = false → endsWord back = true) (free : Free text back) :
    frontPiece? sweeps boundary (text ++ back) =
      (frontPiece? sweeps boundary text).map fun (piece, after) => (piece, after ++ back) := by
  unfold frontPiece?
  rw [List.map_findSome?]
  -- sweep by sweep, each meets the text as it would with nothing behind it
  refine findSome?_congr fun sweep member => ?_
  rw [Pattern.here?_of_stop solid (fun _ => ends) (wellSpelled_sweeps member)
    fun tail after => free sweep member tail after, Function.comp_apply, Option.map_map,
    Option.map_map]
  rfl

/-- A lexeme is found again in front of anything that does not run on from it. -/
theorem Piece.IsLexeme.again {piece : Piece} {back : Text} (lexeme : piece.IsLexeme)
    (ends : wordEdge true piece.text = false → endsWord back = true)
    (free : Free piece.text back) :
    frontPiece? sweeps true (piece.text ++ back) = some (piece, back) := by
  -- Nothing longer begins with the lexeme, so that what is behind it makes no difference.
  rw [frontPiece?_of_stop (frontPiece?_append lexeme).1 ends free, lexeme]
  rfl

/-- Whether a sweep matches no beginning of a keyword or sign that a later one looks for. -/
def Sweep.leaves (sweep : Sweep) (longer : Text) : Bool :=
  match sweep.pattern with
  | .nameRun => endsWord longer
  | pattern => pattern.alternatives.all fun word => !word.isPrefixOf longer

/-- Whether longer keywords and signs are tried before the shorter ones that they begin with. -/
def triesLonger : List Sweep → Bool
  | [] => true
  | sweep :: later =>
    later.all (fun other => other.pattern.alternatives.all sweep.leaves) &&
      decide (sweep.pattern.alternatives.Pairwise fun word longer => ¬ word <+: longer) &&
      triesLonger later

/-- The sweeps try longer keywords and signs first. -/
theorem triesLonger_sweeps : triesLonger sweeps = true := by
  -- The order of the patterns is computed.
  decide +kernel

/-- Where a word may begin, a pattern takes the first of its alternatives that ends as it has to. -/
theorem Pattern.here?_eq_findSome? {pattern : Pattern} (listed : pattern.alternatives ≠ [])
    (text : Text) :
    pattern.here? true text = pattern.alternatives.findSome? fun word =>
      (Text.after? word text).bind fun after =>
        if !pattern.isWordy || endsWord after then some (word, after) else none := by
  -- the choice between listed words is the same for both lists; a word also has to end
  cases pattern with
  | words alternatives _ => rfl
  | symbols alternatives _ =>
    refine findSome?_congr fun word _ => ?_
    rcases Text.after? word text with _ | after
    · rfl
    · rfl
  | nameRun => exact absurd rfl listed

/-- A pattern that finds a word has no longer alternative there that it tries before. -/
theorem Pattern.not_longer {pattern : Pattern} {word tail rest after : Text}
    (order : pattern.alternatives.Pairwise fun word longer => ¬ word <+: longer)
    (member : word ++ tail ∈ pattern.alternatives) (filled : tail ≠ [])
    (split : rest = tail ++ after) (ends : pattern.isWordy = true → endsWord after = true)
    (found : ∀ other back, pattern.here? true (word ++ rest) = some (other, back) → other = word) :
    False := by
  -- the longer word fits here too
  have fits : ((Text.after? (word ++ tail) (word ++ rest)).bind fun after =>
      if !pattern.isWordy || endsWord after then some (word ++ tail, after) else none) =
        some (word ++ tail, after) := by
    have whole : Text.after? (word ++ tail) (word ++ rest) = some after := by
      rw [Text.after?_eq_some, split, List.append_assoc]
    rcases wordy : pattern.isWordy with _ | _
    · simp [whole]
    · simp [whole, ends wordy]
  -- so the search does not fail, and what it finds is no later in the list than the longer word
  rcases met : pattern.here? true (word ++ rest) with _ | ⟨other, back⟩
  · rw [here?_eq_findSome? (List.ne_nil_of_mem member), List.findSome?_eq_none_iff] at met
    rw [met _ member] at fits
    cases fits
  · cases found other back met
    rw [here?_eq_findSome? (List.ne_nil_of_mem member), List.findSome?_eq_some_iff] at met
    obtain ⟨before, chosen, later, parts, taken, passed⟩ := met
    obtain ⟨_, _, same⟩ := Option.bind_eq_some_iff.mp taken
    have same : chosen = word := by
      split at same
      · cases same
        rfl
      · cases same
    subst same
    rw [parts, List.mem_append, List.mem_cons] at member
    rw [parts, List.pairwise_append, List.pairwise_cons] at order
    -- found before it, the longer word would have been taken; behind it, the order forbids it
    rcases member with early | same | late
    · rw [passed _ early] at fits
      cases fits
    · exact filled (List.append_right_eq_self.mp same)
    · exact order.2.1.1 _ late (List.prefix_append _ _)

/-- A match leaves no longer keyword or sign that a later sweep looks for. -/
theorem Sweep.prefix_of_leaves {sweep : Sweep} {boundary : Bool} {word tail rest : Text}
    (left : sweep.leaves (word ++ tail) = true)
    (found : sweep.pattern.here? boundary (word ++ rest) = some (word, rest)) : False := by
  -- The longer text would have been matched in place of the word.
  obtain ⟨pattern, kind⟩ := sweep
  -- a listed word that starts another is kept out by `leaves`; a run of names goes on
  cases pattern with
  | words alternatives _ =>
    simp only [leaves, List.all_eq_true, Bool.not_eq_true', ← Bool.not_eq_true,
      List.isPrefixOf_iff_prefix] at left
    exact left word (Pattern.here?_words found).2.1 (List.prefix_append _ _)
  | symbols alternatives _ =>
    simp only [leaves, List.all_eq_true, Bool.not_eq_true', ← Bool.not_eq_true,
      List.isPrefixOf_iff_prefix] at left
    exact left word (Pattern.here?_symbols found).1 (List.prefix_append _ _)
  | nameRun =>
    obtain ⟨solid, named, _⟩ := Pattern.here?_nameRun found
    obtain ⟨c, word, rfl⟩ := List.exists_cons_of_ne_nil solid
    simp only [List.all_cons, Bool.and_eq_true] at named
    simp [leaves, endsWord, named.1] at left

/-- A piece found at the front of a text is followed by nothing that makes it longer. -/
theorem free_of_frontPiece? {kind : Kind} {word rest : Text}
    (found : frontPiece? sweeps true (word ++ rest) = some (⟨kind, word⟩, rest)) :
    Free word rest := by
  -- The sweeps are gone through in order, up to the one that finds the piece.
  unfold Free
  have order := triesLonger_sweeps
  generalize sweeps = tried at found order
  intro sweep member tail after longer filled split ends
  -- The first sweep to match takes its longest alternative, and leaves none to a later one.
  induction tried with
  | nil => cases member
  | cons first later ih =>
    simp only [triesLonger, Bool.and_eq_true, List.all_eq_true, decide_eq_true_eq] at order
    rw [frontPiece?, List.findSome?_cons] at found
    rcases met : first.pattern.here? true (word ++ rest) with _ | ⟨other, back⟩
    · rw [met] at found
      rcases List.mem_cons.mp member with rfl | member
      · exact Pattern.not_longer order.1.2 longer filled split ends (by simp [met])
      · exact ih found order.2 member
    · rw [met] at found
      simp only [Option.map_some, Option.some.injEq, Prod.mk.injEq, Piece.mk.injEq] at found
      obtain ⟨⟨_, rfl⟩, rfl⟩ := found
      rcases List.mem_cons.mp member with rfl | member
      · refine Pattern.not_longer order.1.2 longer filled split ends ?_
        intro other back again
        rw [met] at again
        cases again
        rfl
      · exact Sweep.prefix_of_leaves (order.1.1 sweep member _ longer) met

/-- A match that ends like a word ends one. -/
theorem endsWord_of_frontPiece? {boundary : Bool} {text rest : Text} {piece : Piece}
    (found : frontPiece? sweeps boundary text = some (piece, rest))
    (edge : wordEdge true piece.text = false) : endsWord rest = true := by
  -- The sweep that found the piece has a tidy pattern.
  obtain ⟨sweep, member, _, here⟩ := frontPiece?_eq_some found
  exact (Pattern.tidy (wellSpelled_sweeps member)).ends here edge

/-- A piece that was found at the front of a text is a lexeme. -/
theorem isLexeme_of_frontPiece? {piece : Piece} {rest : Text}
    (found : frontPiece? sweeps true (piece.text ++ rest) = some (piece, rest)) :
    piece.IsLexeme := by
  -- what the front piece is does not depend on what follows it, so it is one on its own
  have alone := found
  rw [frontPiece?_of_stop (frontPiece?_append found).1 (endsWord_of_frontPiece? found)
    (free_of_frontPiece? found)] at alone
  obtain ⟨⟨other, after⟩, met, same⟩ := Option.map_eq_some_iff.mp alone
  simp only [Prod.mk.injEq] at same
  obtain ⟨rfl, same⟩ := same
  cases List.append_left_eq_self.mp same
  exact met

/-- The keywords and signs are the alternatives of the sweeps. -/
theorem mem_lexicon {word : Text} :
    word ∈ lexicon ↔ ∃ sweep ∈ sweeps, word ∈ sweep.pattern.alternatives :=
  -- The lexicon is put together from the patterns of all sweeps.
  List.mem_flatMap

/-- Words are made of name characters and inner blanks, and signs of neither. -/
theorem Pattern.spelling {pattern : Pattern} {word : Text} (spelled : pattern.wellSpelled = true)
    (member : word ∈ pattern.alternatives) :
    (pattern.isWordy = true ∧ word.head?.any isNameChar = true ∧
      word.getLast?.any isNameChar = true ∧ ∀ c ∈ word, isNameChar c = true ∨ c = ' ') ∨
    (pattern.isWordy = false ∧ ∀ c ∈ word, isNameChar c = false ∧ isBlank c = false) := by
  -- Both lists are checked for their spelling, and a run of name characters lists no words.
  cases pattern with
  | words alternatives _ =>
    simp only [wellSpelled, List.all_eq_true, Bool.and_eq_true, Bool.or_eq_true,
      beq_iff_eq] at spelled
    obtain ⟨⟨first, last⟩, all⟩ := spelled word member
    exact .inl ⟨rfl, first, last, all⟩
  | symbols alternatives _ =>
    simp only [wellSpelled, List.all_eq_true, Bool.and_eq_true, Bool.not_eq_true'] at spelled
    exact .inr ⟨rfl, spelled word member⟩
  | nameRun => cases member

/-- A lexeme is an alternative of a sweep of its kind, or else a run of name characters. -/
theorem Piece.IsLexeme.sweep {piece : Piece} (lexeme : piece.IsLexeme) :
    ∃ sweep ∈ sweeps, piece.kind = sweep.kind ∧ (piece.text ∈ sweep.pattern.alternatives ∨
      (sweep.pattern = .nameRun ∧ ∀ c ∈ piece.text, isNameChar c = true)) := by
  -- The sweep that finds the lexeme tells by its pattern what the text is.
  obtain ⟨⟨pattern, kind⟩, member, same, here⟩ := frontPiece?_eq_some lexeme
  refine ⟨⟨pattern, kind⟩, member, same, ?_⟩
  cases pattern with
  | words alternatives _ => exact .inl (Pattern.here?_words here).2.1
  | symbols alternatives _ => exact .inl (Pattern.here?_symbols here).1
  | nameRun => exact .inr ⟨rfl, List.all_eq_true.mp (Pattern.here?_nameRun here).2.1⟩

/-- A lexeme is listed, or it is made of name characters. -/
theorem Piece.IsLexeme.listed_or_named {piece : Piece} (lexeme : piece.IsLexeme) :
    piece.text ∈ lexicon ∨ ∀ c ∈ piece.text, isNameChar c = true := by
  -- A word of a list is in the lexicon, and a run is made of name characters.
  obtain ⟨sweep, member, _, among | ⟨_, named⟩⟩ := lexeme.sweep
  · exact .inl (mem_lexicon.mpr ⟨sweep, member, among⟩)
  · exact .inr named

/-- A lexeme is a word or a name, or else one of the signs. -/
theorem Piece.IsLexeme.word_or_sign {piece : Piece} (lexeme : piece.IsLexeme) :
    (piece.text.head?.any isNameChar = true ∧ wordEdge true piece.text = false ∧
      ∀ c ∈ piece.text, isNameChar c = true ∨ c = ' ') ∨
    (piece.text ∈ lexicon ∧ ∀ c ∈ piece.text, isNameChar c = false ∧ isBlank c = false) := by
  have solid := (frontPiece?_append lexeme).1
  -- a listed word is spelled as its pattern says; a name is spelled in name characters
  obtain ⟨sweep, member, _, among | ⟨_, named⟩⟩ := lexeme.sweep
  · rcases Pattern.spelling (wellSpelled_sweeps member) among with
      ⟨_, first, last, all⟩ | ⟨_, signs⟩
    · exact .inl ⟨first, wordEdge_of_getLast? last, all⟩
    · exact .inr ⟨mem_lexicon.mpr ⟨sweep, member, among⟩, signs⟩
  · obtain ⟨c, rest, split⟩ := List.exists_cons_of_ne_nil solid
    have first : isNameChar c = true := named c (by simp [split])
    exact .inl ⟨by simp [split, first], wordEdge_of_all solid named,
      fun c member => .inl (named c member)⟩

/-- Whether a word and the first word of what follows it are the beginning of a keyword. -/
def joins (word next : Text) : Bool :=
  lexicon.contains (word ++ ' ' :: next.takeWhile isNameChar)

/-- Whether a word may be followed by a character without a blank between them. -/
def mayTouch (word : Text) (c : Char) : Bool :=
  ['(', ')', ',', '/', '\x7b'].contains c || word == ['-'] || word == ['('] && c != '+'

/-- The words of a keyword join up to each of its blanks. -/
theorem joins_of_mem {word next : Text} (member : word ++ ' ' :: next ∈ lexicon)
    (solid : word ≠ []) : joins word next = true := by
  -- every way to cut an entry at a blank is checked once, over the whole lexicon
  have all : lexicon.all (fun longer => longer.cuts.all fun cut =>
      cut.2.head? != some ' ' || joins cut.1 cut.2.tail) = true := by decide +kernel
  have cut := List.all_eq_true.mp (List.all_eq_true.mp all _ member) _
    (Text.mem_cuts solid (List.cons_ne_nil ' ' next))
  simpa using cut

/-- A sign runs on into no character that may touch it. -/
theorem not_mem_of_mayTouch {word tail : Text} {c : Char} (sign : word ∈ lexicon)
    (touch : mayTouch word c = true) : word ++ c :: tail ∉ lexicon := by
  -- likewise for the cuts into an entry and what is left of a longer one
  have all : lexicon.all (fun longer => longer.cuts.all fun cut =>
      !lexicon.contains cut.1 || cut.2.head?.all fun c => !mayTouch cut.1 c) = true := by
    decide +kernel
  have solid : word ≠ [] := by
    rintro rfl
    exact absurd sign (by decide +kernel)
  intro member
  have cut := List.all_eq_true.mp (List.all_eq_true.mp all _ member) _
    (Text.mem_cuts solid (List.cons_ne_nil c tail))
  simp [sign, touch] at cut

/-- A word is not read on into the end of a text. -/
theorem free_nil (word : Text) : Free word [] := by
  -- No alternative could go on behind it.
  intro sweep _ tail after _ filled split
  exact absurd (List.append_eq_nil_iff.mp split.symm).1 filled

/-- Behind a blank a word is read on only into a word that it joins. -/
theorem free_blank {word rest : Text} (solid : word ≠ [])
    (lead : rest = [] ∨ ∃ next more, rest = next ++ more ∧ next ≠ [] ∧
      (wordEdge true next = false → endsWord more = true) ∧ joins word next = false) :
    Free word (' ' :: rest) := by
  -- What would go on behind the blank is a word of the lexicon with a blank in it.
  intro sweep member tail after longer filled split ends
  have spelled := wellSpelled_sweeps member
  obtain ⟨c, tail, rfl⟩ := List.exists_cons_of_ne_nil filled
  rw [List.cons_append, List.cons.injEq] at split
  obtain ⟨rfl, same⟩ := split
  have joined := joins_of_mem (mem_lexicon.mpr ⟨sweep, member, longer⟩) solid
  rcases Pattern.spelling spelled longer with ⟨wordy, _, last, _⟩ | ⟨_, signs⟩
  · rcases lead with bare | ⟨next, more, parts, solid', ends', apart⟩
    · -- No keyword ends in a blank.
      rw [bare] at same
      obtain ⟨rfl, rfl⟩ := List.append_eq_nil_iff.mp same.symm
      rw [List.getLast?_concat] at last
      cases last
    · have first := (@takeWhile_append_of_ends tail after fun _ => ends wordy).1
      have second := (@takeWhile_append_of_ends next more fun named =>
        ends' (wordEdge_of_all solid' named)).1
      rw [joins, ← first, ← same, parts, second, ← joins, apart] at joined
      cases joined
  · -- No sign has a blank in it.
    have plain := (signs ' ' (by simp)).2
    cases plain

/-- A word that is not read on into the words behind it does not join them. -/
theorem not_joins_of_free {word next more : Text} (free : Free word (' ' :: (next ++ more)))
    (solid : next ≠ []) (ends : wordEdge true next = false → endsWord more = true) :
    joins word next = false := by
  by_contra joined
  have longer : word ++ ' ' :: next.takeWhile isNameChar ∈ lexicon := by simpa [joins] using joined
  -- the longer entry would have been met instead of the word
  obtain ⟨sweep, member, longer⟩ := mem_lexicon.mp longer
  have parts := @takeWhile_append_of_ends next more fun named => ends (wordEdge_of_all solid named)
  refine free sweep member _ ((next ++ more).dropWhile isNameChar) longer nofun ?_ ?_
  · rw [List.cons_append, ← parts.1, List.takeWhile_append_dropWhile]
  · exact fun _ => endsWord_dropWhile (next ++ more)

/-- A lexeme is left as it is by a character that may touch it. -/
theorem Piece.IsLexeme.touch {piece : Piece} {c : Char} (lexeme : piece.IsLexeme)
    (touch : mayTouch piece.text c = true) (rest : Text) :
    Free piece.text (c :: rest) ∧
      (wordEdge true piece.text = false → endsWord (c :: rest) = true) := by
  -- Words and signs are touched by different characters.
  rcases lexeme.word_or_sign with ⟨first, edge, all⟩ | ⟨member, signs⟩
  · -- A word is touched by one of five signs, none of which stands in a keyword.
    have among : c ∈ ['(', ')', ',', '/', '\x7b'] := by
      simp only [mayTouch, Bool.or_eq_true, Bool.and_eq_true, beq_iff_eq,
        List.contains_iff_mem] at touch
      rcases touch with (among | same) | ⟨same, _⟩
      · exact among
      · rw [same] at first
        cases first
      · rw [same] at first
        cases first
    have other : isNameChar c = false ∧ c ≠ ' ' := by
      have all : ['(', ')', ',', '/', '\x7b'].all (fun c => !isNameChar c && c != ' ') = true := by
        decide
      simpa using List.all_eq_true.mp all c among
    refine ⟨?_, fun _ => by simp [endsWord, other.1]⟩
    intro sweep within tail after longer filled split _
    obtain ⟨d, tail, rfl⟩ := List.exists_cons_of_ne_nil filled
    obtain ⟨rfl, rfl⟩ := List.cons.inj split
    rcases Pattern.spelling (wellSpelled_sweeps within) longer with ⟨_, _, _, all⟩ | ⟨_, signs⟩
    · rcases all c (by simp) with name | blank
      · rw [other.1] at name
        cases name
      · exact other.2 blank
    · obtain ⟨e, rest, whole⟩ := List.exists_cons_of_ne_nil (frontPiece?_append lexeme).1
      rw [whole] at first signs
      have name : isNameChar e = true := first
      rw [(signs e (by simp)).1] at name
      cases name
  · refine ⟨?_, ?_⟩
    · intro sweep among tail after longer filled split _
      obtain ⟨d, tail, rfl⟩ := List.exists_cons_of_ne_nil filled
      obtain ⟨rfl, rfl⟩ := List.cons.inj split
      exact not_mem_of_mayTouch member touch (mem_lexicon.mpr ⟨sweep, among, longer⟩)
    · intro edge
      rw [wordEdge_of_signs (frontPiece?_append lexeme).1 fun c among => (signs c among).1] at edge
      cases edge

/-- Only a word joins, and only with a word. -/
theorem heads_of_joins {word next : Text} (joined : joins word next = true) :
    word.head?.any isNameChar = true ∧ next.head?.any isNameChar = true := by
  -- What two words join into is an entry of the lexicon.
  have longer : word ++ ' ' :: next.takeWhile isNameChar ∈ lexicon := by simpa [joins] using joined
  obtain ⟨sweep, member, longer⟩ := mem_lexicon.mp longer
  rcases Pattern.spelling (wellSpelled_sweeps member) longer with ⟨_, first, last, _⟩ | ⟨_, signs⟩
  · refine ⟨?_, ?_⟩
    · cases word with
      | nil => cases first
      -- an entry with a blank inside it is spelled as a word, so both its ends are names
      | cons c word => exact first
    · cases next with
      | nil =>
        rw [List.takeWhile_nil, List.getLast?_concat] at last
        cases last
      | cons c next =>
        by_contra other
        have other : isNameChar c = false := by simpa using other
        rw [List.takeWhile_cons, other, if_neg nofun, List.getLast?_concat] at last
        cases last
  · have plain := (signs ' ' (by simp)).2
    cases plain

/-- Keywords and signs are normal text, without line breaks. -/
theorem normal_of_listed {word : Text} (member : word ∈ lexicon) :
    word.squeeze isBlank = word ∧ word.upper = word ∧ ∀ c ∈ word, isLineBreak c = false := by
  -- The words of the lexicon are finitely many, and each is checked.
  have all : ∀ word ∈ lexicon, word.squeeze isBlank = word ∧ word.upper = word ∧
      ∀ c ∈ word, isLineBreak c = false := by decide +kernel
  exact all word member

/-- A lexeme begins and ends with no blank. -/
theorem Piece.IsLexeme.not_blank {piece : Piece} (lexeme : piece.IsLexeme) :
    (∀ c ∈ piece.text.head?, isBlank c = false) ∧
      ∀ c ∈ piece.text.getLast?, isBlank c = false := by
  -- Listed words are spelled without blanks at their ends, and runs without blanks.
  rcases lexeme.listed_or_named with listed | named
  · obtain ⟨sweep, member, among⟩ := mem_lexicon.mp listed
    exact Pattern.not_blank (wellSpelled_sweeps member) among
  · exact ⟨fun c front => isBlank_of_isNameChar (named c (List.mem_of_head? front)),
      fun c back => isBlank_of_isNameChar (named c (List.mem_of_getLast? back))⟩

-- a listed word has no blank at its edges, and a name has none anywhere
end SqlLayout
