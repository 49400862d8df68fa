import SqlLayout.Proofs.Lexing.LineBreaks

/-! Seams: a name that no keyword resembles parts a text in two, which are read by themselves. -/

namespace SqlLayout

/-- A run of name characters that is no keyword is a name. -/
theorem isLexeme_of_named {word : Text} (solid : word ≠ []) (named : ∀ c ∈ word, isNameChar c = true)
    (unlisted : word ∉ lexicon) : Piece.IsLexeme ⟨.name, word⟩ := by
  -- Something is read at the front, and it turns out to be all there is.
  rcases found : frontPiece? sweeps true word with _ | ⟨piece, after⟩
  · obtain ⟨c, rest, rfl⟩ := List.exists_cons_of_ne_nil solid
    exact absurd found (frontPiece?_of_name (named c (.head rest)))
  · obtain ⟨filled, split⟩ := frontPiece?_append found
    subst split
    have lexeme := isLexeme_of_frontPiece? found
    obtain ⟨front, back⟩ := List.forall_mem_append.mp named
    -- The whole run is read, as a word ends only where no name character stands.
    have bare : after = [] := by
      rcases lexeme.word_or_sign with ⟨_, edge, _⟩ | ⟨_, signs⟩
      · have ends := endsWord_of_frontPiece? found edge
        cases after with
        | nil => rfl
        | cons c after =>
          have name := back c (.head after)
          simp [endsWord, name] at ends
      · obtain ⟨c, rest, first⟩ := List.exists_cons_of_ne_nil filled
        have member : c ∈ piece.text := by simp [first]
        have name := front c member
        rw [(signs c member).1] at name
        cases name
    subst bare
    rw [List.append_nil] at unlisted ⊢
    obtain ⟨sweep, member, kind, among | ⟨run, _⟩⟩ := lexeme.sweep
    · exact absurd (mem_lexicon.mpr ⟨sweep, member, among⟩) unlisted
    · have all : ∀ sweep ∈ sweeps, sweep.pattern.alternatives = [] → sweep.kind = .name := by
        decide +kernel
      have same : piece.kind = .name := by
        rw [kind]
        exact all sweep member (by rw [run]; rfl)
      obtain ⟨_, text⟩ := piece
      cases same
      exact lexeme

/-- A text of capital name characters with an underscore among them. -/
structure Foreign (text : Text) : Prop where
  /-- There are capital name characters only. -/
  named : ∀ c ∈ text, isNameChar c = true ∧ upperChar c = [c]
  /-- There is an underscore. -/
  underscore : '_' ∈ text

namespace Foreign

variable {word : Text}

/-- A foreign text is not empty. -/
theorem ne_nil (foreign : Foreign word) : word ≠ [] :=
  -- It holds an underscore.
  List.ne_nil_of_mem foreign.underscore

/-- A foreign text is part of no keyword or sign. -/
theorem not_listed (foreign : Foreign word) {entry : Text} (part : word <:+: entry) :
    entry ∉ lexicon := by
  -- No entry of the lexicon holds an underscore, and so none holds the word.
  have all : ∀ entry ∈ lexicon, '_' ∉ entry := by decide +kernel
  exact fun listed => all entry listed (part.subset foreign.underscore)

/-- A foreign text is a lexeme, as no keyword has an underscore. -/
theorem isLexeme (foreign : Foreign word) : Piece.IsLexeme ⟨.name, word⟩ :=
  -- A run of name characters that begins no entry is found by the sweep for names.
  isLexeme_of_named foreign.ne_nil (fun c member => (foreign.named c member).1)
    (foreign.not_listed List.infix_rfl)

/-- A foreign text is read as a name. -/
theorem whole (foreign : Foreign word) : Piece.Whole ⟨.name, word⟩ :=
  -- It is a lexeme, and in upper case throughout.
  .lexeme foreign.isLexeme (upper_eq_self fun c member => (foreign.named c member).2)

/-- A foreign text is read on into nothing. -/
theorem free (foreign : Foreign word) (back : Text) : Free word back := by
  -- A longer alternative that begins with the word would hold it.
  intro sweep member tail after longer _ _ _
  exact foreign.not_listed (List.prefix_append word tail).isInfix
    (mem_lexicon.mpr ⟨sweep, member, longer⟩)

/-- Nothing is read on into a foreign text. -/
theorem free_before (foreign : Foreign word) (front back : Text) : Free front (word ++ back) := by
  -- A longer lexeme would be a keyword with the word in it, or a sign with a name character.
  intro sweep member tail after longer filled split ends
  have listed := mem_lexicon.mpr ⟨sweep, member, longer⟩
  rcases Pattern.spelling (wellSpelled_sweeps member) longer with ⟨wordy, _⟩ | ⟨_, signs⟩
  · rcases List.append_eq_append_iff.mp split with ⟨more, rfl, _⟩ | ⟨rest, rfl, rfl⟩
    · -- The keyword would have the whole word in it.
      exact foreign.not_listed ⟨front, more, by simp⟩ listed
    · cases rest with
      | nil =>
        rw [List.append_nil] at foreign
        exact foreign.not_listed ⟨front, [], by simp⟩ listed
      | cons c rest =>
        -- The keyword would end in the middle of the word.
        have name := (foreign.named c (by simp)).1
        have stop := ends wordy
        simp [endsWord, name] at stop
  · -- No sign begins with a name character.
    obtain ⟨c, tail, rfl⟩ := List.exists_cons_of_ne_nil filled
    obtain ⟨d, word, rfl⟩ := List.exists_cons_of_ne_nil foreign.ne_nil
    obtain ⟨rfl, _⟩ := List.cons.inj split
    have name := (foreign.named d (.head word)).1
    rw [(signs d (by simp)).1] at name
    cases name

/-- In a text that begins with a foreign word something is met at once. -/
theorem exists_seek (foreign : Foreign word) (back : Text) :
    ∃ piece after, seek (frontPiece? sweeps) true (word ++ back) = some ([], piece, after) := by
  -- At its first name character some sweep has a match already.
  obtain ⟨c, rest, rfl⟩ := List.exists_cons_of_ne_nil foreign.ne_nil
  rcases first : frontPiece? sweeps true (c :: (rest ++ back)) with _ | ⟨piece, after⟩
  · exact absurd first (frontPiece?_of_name (foreign.named c (.head rest)).1)
  · exact ⟨piece, after, by rw [List.cons_append, seek, first]⟩

/-- One pass cuts a text in front of a foreign word as it would without the word. -/
theorem onePass_append (foreign : Foreign word) {boundary : Bool} {front : Text}
    (edge : wordEdge boundary front = true) (back : Text) :
    onePass sweeps boundary (front ++ (word ++ back)) =
      onePass sweeps boundary front ++ onePass sweeps true (word ++ back) := by
  -- By induction on the length of what is left in front of the word.
  induction length : front.length using Nat.strong_induction_on generalizing boundary front with
  | _ _ ih =>
    have stop : ∀ first second, front = first ++ second → second ≠ [] →
        frontPiece? sweeps (wordEdge boundary first) (second ++ (word ++ back)) =
          (frontPiece? sweeps (wordEdge boundary first) second).map
            fun found => (found.1, found.2 ++ (word ++ back)) := by
      intro first second split solid
      refine frontPiece?_of_stop solid (fun shut => ?_) (foreign.free_before second back)
      rw [← wordEdge_append, ← split, edge] at shut
      cases shut
    rcases met : seek (frontPiece? sweeps) boundary front with _ | ⟨before, piece, after⟩
    · -- Nothing is met in front of the word, and the word itself is met first.
      have absent := seek_eq_none.mp met
      have skip := @seek_append_of_none _ (frontPiece? sweeps) boundary front (word ++ back)
        fun first second split solid => by
          rw [stop first second split solid, absent first second split solid]
          rfl
      obtain ⟨piece, after, here⟩ := foreign.exists_seek back
      rw [edge, here] at skip
      rw [onePass_of_some skip, onePass_of_none met, onePass_of_some here, List.append_nil,
        fragment_blank (List.forall_mem_nil _), List.nil_append]
    · obtain ⟨here, split, filled, found, absent⟩ := seek_eq_some.mp met
      obtain ⟨solid, rfl⟩ := frontPiece?_append found
      have met' : seek (frontPiece? sweeps) boundary (front ++ (word ++ back)) =
          some (before, piece, after ++ (word ++ back)) := by
        refine seek_eq_some.mpr ⟨piece.text ++ after ++ (word ++ back), by simp [split],
          by simp [solid], ?_, ?_⟩
        · rw [stop before _ split filled, found]
          rfl
        · intro first second parts some
          have whole : front = first ++ (second ++ (piece.text ++ after)) := by
            rw [split, parts, List.append_assoc]
          have later := stop first _ whole (by simp [some])
          rw [absent first second parts some] at later
          simpa using later
      have shorter : after.length < front.length := by
        have taken := List.length_pos_iff.mpr solid
        simp only [split, List.length_append]
        omega
      have behind : wordEdge (wordEdge true piece.text) after = true := by
        rw [split, wordEdge_append] at edge
        rw [← wordEdge_append, ← edge]
        exact wordEdge_eq filled _ _
      rw [onePass_of_some met', onePass_of_some met, ih _ (length ▸ shorter) behind rfl]
      simp

/-- Normal text is cut at a foreign word, where no name touches it. -/
theorem normalPieces_append (foreign : Foreign word) {front back : Text}
    (edge : wordEdge true front = true) (ends : endsWord back = true) :
    normalPieces (front ++ (word ++ back)) =
      normalPieces front ++ ⟨.name, word⟩ :: normalPieces back := by
  -- The word is read in one piece, as no name touches it behind.
  have behind : normalPieces (word ++ back) = ⟨.name, word⟩ :: normalPieces back :=
    foreign.isLexeme.normalPieces_append (fun _ => ends) (foreign.free back)
  rw [← behind, normalPieces, foreign.onePass_append edge, List.flatMap_append]
  rfl

/-- Gaps are drawn together on both sides of a foreign word, and the word is kept. -/
theorem squeeze_append (foreign : Foreign word) {gap : Char → Bool}
    (blank : ∀ c, gap c = true → isBlank c = true) (front back : Text) :
    Text.squeeze gap (front ++ (word ++ back)) =
      front.squeeze gap ++ (word ++ back.squeeze gap) := by
  -- The word has no gap in it, so that no run of gaps reaches over it.
  have solid : ∀ c ∈ word, gap c = false := fun c member =>
    gap_of_solid blank (isBlank_of_isNameChar (foreign.named c member).1)
  have last : ∀ inside, word.getLast?.elim inside gap = false := by
    intro inside
    rw [List.getLast?_eq_some_getLast foreign.ne_nil]
    exact solid _ (List.getLast_mem foreign.ne_nil)
  rw [Text.squeeze, squeezeFrom_append, squeezeFrom_append, squeezeFrom_of_solid solid, last]
  rfl

/-- Raw text is normalized on both sides of a foreign word, and the word is kept. -/
theorem normalize_append (foreign : Foreign word) (front back : Text) :
    Text.normalize (front ++ (word ++ back)) =
      front.normalize ++ (word ++ back.normalize) := by
  -- Nothing in the word is squeezed or changed, and it has no gap at either end.
  rw [Text.normalize, foreign.squeeze_append fun _ => id, upper_append, upper_append,
    upper_eq_self fun c member => (foreign.named c member).2]
  rfl

end Foreign

/-- What is found in a text is found in the front of it, unless a quote stands behind that. -/
theorem literal?_front {front back : Text} (stop : ∀ quote ∈ ['\'', '"'], back.head? ≠ some quote)
    (plain : literal? (front ++ back) = none) : literal? front = none := by
  rcases found : literal? front with _ | ⟨piece, after⟩
  · rfl
  · -- The span would be found in the whole text too.
    have again := @literal?_again front after (after ++ back) piece found (by
      refine (literal?_stops found).imp_right ?_
      rintro ⟨quote, sort, opening, stops⟩
      rw [opening]
      cases after with
      | nil => exact stop quote sort
      | cons c after => exact stops)
    rw [← List.append_assoc, literal?_append found, plain] at again
    cases again

/--
A text in front of another, out of which no literal span reaches into the other.

The two are read as one text, from left to right.
-/
inductive Clear (back : Text) : Text → Prop where
  | nil : Clear back []
  /-- A span may stand in front of the rest. -/
  | span {piece : Piece} {front : Text} :
    literal? (piece.text ++ (front ++ back)) = some (piece, front ++ back) → Clear back front →
    Clear back (piece.text ++ front)
  /-- So may a character at which none begins. -/
  | plain {c : Char} {front : Text} :
    literal? (c :: (front ++ back)) = none → Clear back front → Clear back (c :: front)

namespace Clear

variable {front back : Text}

/-- Line breaks that are drawn together let no span reach further. -/
theorem squeeze (clear : Clear back front) (solid : ∀ c ∈ back.head?, isLineBreak c = false)
    (inside : Bool) :
    Clear (back.squeeze isLineBreak) (Text.squeezeFrom isLineBreak inside front) := by
  -- Along the clear text, one span or one raw character at a time.
  have blank : ∀ c, isLineBreak c = true → isBlank c = true := fun _ => isBlank_of_isLineBreak
  have parts : ∀ front : Text, Text.squeeze isLineBreak (front ++ back) =
      Text.squeezeFrom isLineBreak false front ++ back.squeeze isLineBreak := by
    intro front
    rw [Text.squeeze, squeezeFrom_append, squeezeFrom_of_head solid]
  induction clear generalizing inside with
  | nil => exact .nil
  | @span piece front found _ ih =>
    obtain ⟨⟨c, first, opens⟩, d, last, closes⟩ := (isLiteral_of_literal? found).edges
    have openings : ∀ c ∈ ['\'', '"', '\x7b', '/'], isLineBreak c = false := by decide
    have closings : ∀ c ∈ ['\'', '"', '\x7d', '/'], isLineBreak c = false := by decide
    have kept : ∀ c ∈ piece.text.head?, isLineBreak c = false := by
      intro e same
      cases first.symm.trans same
      exact openings c opens
    obtain ⟨rest, text⟩ := List.head?_eq_some_iff.mp first
    -- The span is found in the squeezed text, and is itself squeezed.
    have again : literal? (piece.text ++ (front ++ back)) = some (piece, front ++ back) := found
    rw [text, List.cons_append] at again
    have squeezed : literal? (c :: Text.squeeze isLineBreak (rest ++ (front ++ back))) =
        some (piece.squeeze isLineBreak, Text.squeeze isLineBreak (front ++ back)) := by
      rw [literal?_squeeze blank, again]
      rfl
    have whole := literal?_append squeezed
    rw [← whole, parts] at squeezed
    rw [squeezeFrom_append, squeezeFrom_of_head kept, last, Option.elim_some, closings d closes]
    exact .span squeezed (ih false)
  | @plain c front found _ ih =>
    rcases here : isLineBreak c with _ | _
    · have squeezed := literal?_squeeze blank c (front ++ back)
      rw [found, Option.map_none, parts] at squeezed
      rw [squeezeFrom_cons here]
      exact .plain squeezed (ih false)
    · cases inside with
      | true =>
        rw [Text.squeezeFrom, here, if_pos rfl, if_pos rfl]
        exact ih true
      | false =>
        rw [Text.squeezeFrom, here, if_pos rfl, if_neg Bool.false_ne_true]
        exact .plain (literal?_of_blank rfl) (ih true)

end Clear

/-- A raw character goes to the first of some pieces, whatever stands behind them. -/
theorem pushRaw_append {found : List Piece} (filled : found ≠ []) (c : Char)
    (others : List Piece) : pushRaw c (found ++ others) = pushRaw c found ++ others := by
  -- Only the first piece is looked at.
  obtain ⟨⟨kind, text⟩, found, rfl⟩ := List.exists_cons_of_ne_nil filled
  cases kind <;> rfl

/-- The pieces of a text begin with the raw text in front of its first literal span. -/
theorem exists_rawPiece (text : Text) :
    ∃ raw others, scan text = rawPiece raw ++ others ∧
      (∀ piece ∈ others.head?, piece.kind ≠ .raw) ∧ raw <+: text := by
  -- along the scan: the raw text grows by each character in front of the first literal
  fun_induction scan text with
  | case1 => exact ⟨[], [], rfl, by simp, List.nil_prefix⟩
  | case2 c rest piece after found ih =>
    refine ⟨[], piece :: scan after, rfl, ?_, List.nil_prefix⟩
    rintro _ ⟨⟩
    exact (isLiteral_of_literal? found).kind_ne_raw
  | case3 c rest plain ih =>
    obtain ⟨raw, others, scanned, known, front⟩ := ih
    refine ⟨c :: raw, others, ?_, known, List.cons_prefix_cons.mpr ⟨rfl, front⟩⟩
    rw [scanned]
    exact @foldr_pushRaw [c] raw others known

/--
A text that no span leaves is read by itself.

What it ends with is raw, and goes on in the raw text that the other begins with.
-/
theorem Clear.scan_append {front back : Text} (clear : Clear back front)
    (stop : ∀ quote ∈ ['\'', '"'], back.head? ≠ some quote) :
    ∃ spans left, scan front = spans ++ rawPiece left ∧
      front = spans.flatMap Piece.text ++ left ∧
      ∀ raw others, (∀ piece ∈ others.head?, piece.kind ≠ .raw) →
        scan back = rawPiece raw ++ others →
        scan (front ++ back) = spans ++ (rawPiece (left ++ raw) ++ others) := by
  -- Each span of the clear text is found again with nothing behind it, by what may not follow it.
  induction clear with
  | nil => exact ⟨[], [], by rw [scan]; rfl, rfl, fun _ _ _ scanned => scanned⟩
  | @span piece front found _ ih =>
    obtain ⟨spans, left, scanned, split, both⟩ := ih
    have alone : literal? (piece.text ++ front) = some (piece, front) := by
      refine literal?_again found ((literal?_stops found).imp_right ?_)
      rintro ⟨quote, _, opening, stops⟩ same
      obtain ⟨rest, rfl⟩ := List.head?_eq_some_iff.mp (same.trans opening)
      exact stops rfl
    refine ⟨piece :: spans, left, ?_, by simp [split], ?_⟩
    · rw [scan_of_literal? alone, scanned]
      rfl
    · intro raw others known behind
      rw [List.append_assoc, scan_of_literal? found, both raw others known behind]
      rfl
  | @plain c front found _ ih =>
    obtain ⟨spans, left, scanned, split, both⟩ := ih
    have alone : literal? (c :: front) = none :=
      literal?_front stop (by rwa [List.cons_append])
    rw [scan_of_plain alone, scanned]
    cases spans with
    | nil =>
      -- The character joins the raw text at the end.
      refine ⟨[], c :: left, ?_, congrArg (c :: ·) split, ?_⟩
      · simpa using @foldr_pushRaw [c] left [] (by simp)
      · intro raw others known behind
        rw [List.cons_append, scan_of_plain found, both raw others known behind]
        exact @foldr_pushRaw [c] (left ++ raw) others known
    | cons piece spans =>
      have filled := List.cons_ne_nil piece spans
      refine ⟨pushRaw c (piece :: spans), left, pushRaw_append filled c _, ?_, ?_⟩
      · rw [flatMap_pushRaw, split]
        rfl
      intro raw others known behind
      rw [List.cons_append, scan_of_plain found, both raw others known behind,
        pushRaw_append filled]

/-- A word may begin behind the end of a text where one may begin behind the text. -/
theorem wordEdge_suffix {front back : Text} (edge : wordEdge true (front ++ back).upper = true) :
    wordEdge true back.upper = true := by
  -- an edge is decided by the last character alone, so the front does not matter
  by_cases bare : back = []
  · rw [bare]
    rfl
  · rw [upper_append, wordEdge_append] at edge
    rw [← edge]
    exact wordEdge_eq (upper_ne_nil bare) _ _

/--
A text with a foreign word in it is read as the two texts around the word, with the word between.

No literal span reaches into the word, and no name touches it once all is in upper case.
-/
theorem Foreign.flaggedPieces_append {word front back : Text} (foreign : Foreign word)
    (clear : Clear (word ++ back) front) (edge : wordEdge true front.upper = true)
    (ends : endsWord back.upper = true) :
    flaggedPieces (front ++ (word ++ back)) =
      flaggedPieces front ++ ⟨.name, word⟩ :: flaggedPieces back := by
  -- Line breaks are squeezed first, then spans are cut off, then the text between them is swept.
  have blank : ∀ c, isLineBreak c = true → isBlank c = true := fun _ => isBlank_of_isLineBreak
  have parts := foreign.squeeze_append blank front back
  have behind : Text.squeeze isLineBreak (word ++ back) = word ++ back.squeeze isLineBreak :=
    foreign.squeeze_append blank [] back
  obtain ⟨c, rest, first⟩ := List.exists_cons_of_ne_nil foreign.ne_nil
  have name : isNameChar c = true := (foreign.named c (by simp [first])).1
  have clear' : Clear (word ++ back.squeeze isLineBreak) (front.squeeze isLineBreak) := by
    rw [← behind]
    refine clear.squeeze ?_ false
    rw [first]
    rintro d ⟨⟩
    exact gap_of_solid blank (isBlank_of_isNameChar name)
  -- The raw text around the word is the end of the one text and the beginning of the other.
  obtain ⟨spans, left, scanned, split, both⟩ := clear'.scan_append (by
    rw [first]
    rintro quote sort ⟨⟩
    have all : ∀ quote ∈ ['\'', '"'], isNameChar quote = false := by decide
    rw [all _ sort] at name
    cases name)
  obtain ⟨raw, others, scanned', known, more, split'⟩ := exists_rawPiece (back.squeeze isLineBreak)
  have middle : scan (word ++ back.squeeze isLineBreak) = rawPiece (word ++ raw) ++ others := by
    rw [scan_named (fun c member => (foreign.named c member).1), scanned', foldr_pushRaw known]
  have edge' : wordEdge true left.normalize = true := by
    rw [← wordEdge_squeeze blank, split] at edge
    rw [Text.normalize, wordEdge_squeeze fun _ => id]
    exact wordEdge_suffix edge
  have ends' : endsWord raw.normalize = true := by
    rw [Text.normalize, endsWord_squeeze fun _ => id]
    rw [← endsWord_squeeze blank, ← split', upper_append] at ends
    exact endsWord_of_append ends
  rw [flaggedPieces_eq, flaggedPieces_eq, flaggedPieces_eq, parts, both _ _ known middle, scanned,
    scanned', List.flatMap_append, List.flatMap_append, List.flatMap_append, List.flatMap_append,
    flaggedPiece_rawPiece, flaggedPiece_rawPiece, flaggedPiece_rawPiece, foreign.normalize_append,
    foreign.normalPieces_append edge' ends']
  simp

end SqlLayout
