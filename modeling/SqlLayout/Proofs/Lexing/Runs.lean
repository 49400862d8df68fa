import SqlLayout.Proofs.Lexing.Whole

/-!
Runs of name characters.

Whatever the sweeps cut a text into, a run of name characters that is as long as it can be stays in
one piece, as a name or as a word of a keyword.
-/

namespace SqlLayout

/-- A run of name characters in a text that goes on in neither direction. -/
structure IsRun (left run right : Text) : Prop where
  /-- There is at least one character. -/
  solid : run ≠ []
  /-- The run is made of name characters. -/
  named : ∀ c ∈ run, isNameChar c = true
  /-- No name character stands in front of it. -/
  begins : ∀ c ∈ left.getLast?, isNameChar c = false
  /-- No name character stands behind it. -/
  ends : ∀ c ∈ right.head?, isNameChar c = false

/-- Pieces that make up a text, with blanks alone between them and around them. -/
inductive Laid : List Piece → Text → Prop where
  | done {text : Text} : Text.Blank text → Laid [] text
  | piece {gap text : Text} {piece : Piece} {rest : List Piece} : Text.Blank gap → Laid rest text →
    Laid (piece :: rest) (gap ++ (piece.text ++ text))

/-- A run that lies inside one of the pieces of a text, with the other pieces around that one. -/
def LiesIn (left run right : Text) (front : List Piece) (piece : Piece) (back : List Piece) :
    Prop :=
  -- The piece may reach beyond the run on both sides.
  ∃ outer inner inner' outer', left = outer ++ inner ∧ right = inner' ++ outer' ∧
    piece.text = inner ++ (run ++ inner') ∧ Laid front outer ∧ Laid back outer'

/-- All keywords, each with the kind that it has. -/
def keywords : List Piece :=
  sweeps.flatMap fun sweep =>
    match sweep.pattern with
    | .words alternatives _ => alternatives.map (Piece.mk sweep.kind)
    -- Signs and names are no keywords.
    | _ => []

/-- The pieces that all sweeps leave of pieces of a text. -/
def swept (found : List Piece) : List Piece :=
  sweeps.foldl (fun found sweep => sweep.apply found) (found.map Piece.normalize)

/-- Blanks in front of a text leave the pieces it is made up of. -/
theorem Laid.blank_append {found : List Piece} {text gap : Text} (laid : Laid found text)
    (blank : Text.Blank gap) : Laid found (gap ++ text) := by
  -- They join the blanks in front of the first piece, or those that are all of the text.
  cases laid with
  | done blank' => exact .done (List.forall_mem_append.mpr ⟨blank, blank'⟩)
  | piece blank' behind =>
    rw [← List.append_assoc]
    exact .piece (List.forall_mem_append.mpr ⟨blank, blank'⟩) behind

/-- Two texts one behind the other are made up of the pieces of both. -/
theorem Laid.append {front back : List Piece} {text text' : Text} (laid : Laid front text)
    (laid' : Laid back text') : Laid (front ++ back) (text ++ text') := by
  -- The blanks at the end of the one text come before the first piece of the other.
  induction laid with
  | done blank => exact laid'.blank_append blank
  | piece blank _ ih =>
    simp only [List.append_assoc, List.cons_append]
    exact .piece blank ih

/-- A fragment makes up the text that it was trimmed from. -/
theorem laid_fragment (text : Text) : Laid (fragment text) text := by
  -- What trimming takes away are the blanks on both sides.
  unfold fragment
  split
  · rename_i bare
    exact .done (Text.trim_eq_nil_iff.mp bare)
  · obtain ⟨front, back, blank, blank', split⟩ := Text.exists_trim text
    have laid := @Laid.piece front back ⟨.raw, text.trim⟩ [] blank (.done blank')
    rwa [← List.append_assoc, ← split] at laid

/-- A piece makes up its own text. -/
theorem laid_singleton (piece : Piece) : Laid [piece] piece.text := by
  -- No blanks stand on either side of the piece.
  have bare : Text.Blank [] := List.forall_mem_nil _
  simpa using @Laid.piece [] [] piece [] bare (.done bare)

/-- What one pass finds in a text makes up the text. -/
theorem laid_onePass (tried : List Sweep) (boundary : Bool) (text : Text) :
    Laid (onePass tried boundary text) text := by
  -- Behind each piece that is met the pass goes on with a shorter text.
  fun_induction onePass tried boundary text with
  | case1 boundary text absent => exact laid_fragment text
  | case2 boundary text before piece after met ih =>
    obtain ⟨here, rfl, _, found, _⟩ := seek_eq_some.mp met
    obtain ⟨_, rfl⟩ := frontPiece?_append found
    exact (laid_fragment before).append ((laid_singleton piece).append ih)

namespace IsRun

variable {left run right : Text} (maximal : IsRun left run right)
include maximal

/-- No part of a run that is not empty ends a word. -/
theorem not_endsWord {front back : Text} (split : run = front ++ back) (filled : back ≠ []) :
    endsWord (back ++ right) = false := by
  -- Behind any place in the run the next character is one of the run, a name character.
  obtain ⟨c, back, rfl⟩ := List.exists_cons_of_ne_nil filled
  have name : isNameChar c = true := maximal.named c (by simp [split])
  simp [endsWord, name]

/-- A run in the back of a text is one in the back alone. -/
theorem back {front gap : Text} (split : left = front ++ gap) : IsRun gap run right := by
  refine ⟨maximal.solid, maximal.named, ?_, maximal.ends⟩
  intro c last
  -- What stands last in the back stands last in front of the run.
  apply maximal.begins
  rw [split, List.getLast?_append, Option.mem_def.mp last]
  rfl

/-- A run in the front of a text is one in the front alone. -/
theorem front {rest after : Text} (split : right = rest ++ after) : IsRun left run rest := by
  -- What follows the run in the whole right side follows it in the part.
  refine ⟨maximal.solid, maximal.named, maximal.begins, ?_⟩
  intro c first
  apply maximal.ends
  rw [split, List.head?_append, Option.mem_def.mp first]
  rfl

/-- A text cut in two where no name is cut has a run in one of its halves. -/
theorem not_cut {word after : Text} (split : left ++ (run ++ right) = word ++ after)
    (whole : wordEdge true word = false → endsWord after = true) :
    (∃ gap, left = word ++ gap ∧ after = gap ++ (run ++ right)) ∨
      ∃ rest, word = left ++ (run ++ rest) ∧ right = rest ++ after := by
  -- A cut inside the run would have name characters on both sides.
  rcases List.append_eq_append_iff.mp split with ⟨middle, rfl, same⟩ | ⟨gap, rfl, rfl⟩
  · rcases List.append_eq_append_iff.mp same with ⟨rest, rfl, rfl⟩ | ⟨tail, cut, rfl⟩
    · exact .inr ⟨rest, rfl, rfl⟩
    · -- The first half ends inside the run, which it may do only at an end of the run.
      by_cases bare : middle = []
      · subst bare
        left
        exact ⟨[], by simp, by simp [cut]⟩
      · by_cases done : tail = []
        · subst done
          right
          exact ⟨[], by simp [cut], by simp⟩
        · -- A cut between two characters of the run would cut a name.
          have edge : wordEdge true (left ++ middle) = false := by
            rw [wordEdge_append]
            exact wordEdge_of_all bare fun c member => maximal.named c (by simp [cut, member])
          have stop := whole edge
          rw [maximal.not_endsWord cut done] at stop
          cases stop
  · exact .inl ⟨gap, rfl, rfl⟩

/-- A run lies behind all text without name characters in front of it. -/
theorem behind {before after : Text} (split : left ++ (run ++ right) = before ++ after)
    (signs : ∀ c ∈ before, isNameChar c = false) :
    ∃ gap, left = before ++ gap ∧ after = gap ++ (run ++ right) := by
  -- Such a text ends in no name, and has no room for the run.
  have whole : wordEdge true before = false → endsWord after = true := by
    intro edge
    by_cases bare : before = []
    · rw [bare] at edge
      cases edge
    · rw [wordEdge_of_signs bare signs] at edge
      cases edge
  rcases maximal.not_cut split whole with later | ⟨rest, rfl, _⟩
  · exact later
  · obtain ⟨c, others, rfl⟩ := List.exists_cons_of_ne_nil maximal.solid
    have other := signs c (by simp)
    rw [maximal.named c (.head others)] at other
    cases other

/-- Where a text of words with blanks between them goes on at an end of a run, a blank stands. -/
theorem edges (spaced : ∀ c ∈ left ++ (run ++ right), isNameChar c = true ∨ c = ' ') :
    (left = [] ∨ ∃ front, left = front ++ [' ']) ∧ (right = [] ∨ ∃ back, right = ' ' :: back) := by
  -- on either side stands no name character, so what stands there is a blank or nothing
  constructor
  · rcases List.eq_nil_or_concat' left with bare | ⟨front, c, rfl⟩
    · exact .inl bare
    · right
      have other : isNameChar c = false := maximal.begins c (by simp)
      rcases spaced c (by simp) with name | rfl
      · rw [other] at name
        cases name
      · exact ⟨front, rfl⟩
  · rcases right with _ | ⟨c, back⟩
    · exact .inl rfl
    · right
      have other : isNameChar c = false := maximal.ends c (by simp)
      rcases spaced c (by simp) with name | rfl
      · rw [other] at name
        cases name
      · exact ⟨back, rfl⟩

/-- A run in a text of words with blanks between them is one of the words. -/
theorem mem_splitOn (spaced : ∀ c ∈ left ++ (run ++ right), isNameChar c = true ∨ c = ' ') :
    run ∈ (left ++ (run ++ right)).splitOn ' ' := by
  -- The run has a blank or the end of the text on either side.
  obtain ⟨begins, ends⟩ := maximal.edges spaced
  have alone : run.splitOnP (· == ' ') = [run] := by
    apply List.splitOnP_eq_singleton
    intro c member
    have name := maximal.named c member
    by_contra blank
    rw [show c = ' ' by simpa using blank] at name
    cases name
  -- The words behind the run do not change it, and neither do those in front of it.
  have first : run ∈ (run ++ right).splitOnP (· == ' ') := by
    rcases ends with rfl | ⟨back, rfl⟩
    · simp [alone]
    · rw [List.splitOnP_append_cons _ _ (by rfl), alone]
      simp
  unfold List.splitOn
  rcases begins with rfl | ⟨front, rfl⟩
  · exact first
  · rw [List.append_assoc, List.singleton_append, List.splitOnP_append_cons _ _ (by rfl)]
    exact List.mem_append_right _ first

/-- A run in a text of name characters is the whole text. -/
theorem eq_of_named (named : ∀ c ∈ left ++ (run ++ right), isNameChar c = true) :
    left = [] ∧ right = [] := by
  -- A blank is no name character.
  obtain ⟨begins, ends⟩ := maximal.edges fun c member => .inl (named c member)
  constructor
  · rcases begins with bare | ⟨front, rfl⟩
    · exact bare
    · cases named ' ' (by simp)
  · rcases ends with bare | ⟨back, rfl⟩
    · exact bare
    · cases named ' ' (by simp)

end IsRun

/-- What a sweep looks for among its words is a keyword. -/
theorem mem_keywords {alternatives : List Text} {solid : [] ∉ alternatives} {kind : Kind}
    {word : Text} (member : ⟨.words alternatives solid, kind⟩ ∈ sweeps)
    (among : word ∈ alternatives) : ⟨kind, word⟩ ∈ keywords :=
  -- The keywords are gathered from every sweep with a list of words.
  List.mem_flatMap.mpr ⟨_, member, List.mem_map_of_mem among⟩

/-- The kinds that keywords have. -/
theorem kind_of_mem_keywords {keyword : Piece} (member : keyword ∈ keywords) :
    keyword.kind ∈ [.unionToken, .partToken, .orOp, .andOp, .mathOp, .unaryPrefix] := by
  -- There are finitely many keywords, and the kind of each is checked.
  have all : ∀ keyword ∈ keywords,
      keyword.kind ∈ [.unionToken, .partToken, .orOp, .andOp, .mathOp, .unaryPrefix] := by
    decide +kernel
  exact all keyword member

/-- Every keyword is read as itself, and with its own kind. -/
theorem isLexeme_of_mem_keywords {keyword : Piece} (member : keyword ∈ keywords) :
    keyword.IsLexeme := by
  -- There are finitely many keywords, and each is looked up.
  have all : ∀ keyword ∈ keywords, frontPiece? sweeps true keyword.text = some (keyword, []) := by
    decide +kernel
  exact all keyword member

/-- A run inside a lexeme is all of it and a name, or else a word of a keyword. -/
theorem Piece.IsLexeme.of_run {piece : Piece} {left run right : Text} (lexeme : piece.IsLexeme)
    (maximal : IsRun left run right) (split : piece.text = left ++ (run ++ right)) :
    piece = ⟨.name, run⟩ ∨ (piece ∈ keywords ∧ run ∈ piece.text.splitOn ' ') := by
  -- The three forms of a sweep leave the run three different places.
  obtain ⟨⟨pattern, kind⟩, member, same, here⟩ := frontPiece?_eq_some lexeme
  have spelled := wellSpelled_sweeps member
  cases pattern with
  | words alternatives solid =>
    -- A keyword is made of words with blanks between them, and the run is one of those.
    right
    have among := (Pattern.here?_words here).2.1
    have listed : piece ∈ keywords := by
      obtain ⟨kind', text⟩ := piece
      cases same
      exact mem_keywords member among
    refine ⟨listed, ?_⟩
    rw [split]
    apply maximal.mem_splitOn
    rw [← split]
    simp only [Pattern.wellSpelled, List.all_eq_true, Bool.and_eq_true, Bool.or_eq_true,
      beq_iff_eq] at spelled
    exact (spelled _ among).2
  | symbols alternatives solid =>
    -- A sign has no name characters, and a run has one.
    simp only [Pattern.wellSpelled, List.all_eq_true, Bool.and_eq_true,
      Bool.not_eq_true'] at spelled
    have signs := spelled _ (Pattern.here?_symbols here).1
    obtain ⟨c, rest, rfl⟩ := List.exists_cons_of_ne_nil maximal.solid
    have other := (signs c (by simp [split])).1
    rw [maximal.named c (.head rest)] at other
    cases other
  | nameRun =>
    -- A name has name characters alone, and there is one sweep for names.
    left
    have named := List.all_eq_true.mp (Pattern.here?_nameRun here).2.1
    rw [split] at named
    obtain ⟨rfl, rfl⟩ := maximal.eq_of_named named
    have only : ∀ sweep ∈ sweeps, sweep.pattern.isWordy = true → sweep.pattern.alternatives = [] →
        sweep.kind = .name := by
      decide
    have kind := only _ member rfl rfl
    obtain ⟨kind', text⟩ := piece
    rw [show kind' = .name from same.trans kind, show text = run by simpa using split]

/-- A lexeme that is spelled like a keyword is the keyword. -/
theorem Piece.IsLexeme.eq_of_keyword {piece keyword : Piece} (lexeme : piece.IsLexeme)
    (member : keyword ∈ keywords) (same : keyword.text = piece.text) : piece = keyword := by
  -- Both are what is found at the front of the same text.
  have other := isLexeme_of_mem_keywords member
  unfold IsLexeme at lexeme other
  rw [same, lexeme] at other
  cases other
  rfl

/-- More text with its pieces in front of a run leaves the piece that the run lies in. -/
theorem LiesIn.prepend {left run right text : Text} {front back before : List Piece} {piece : Piece}
    (lies : LiesIn left run right front piece back) (laid : Laid before text) :
    LiesIn (text ++ left) run right (before ++ front) piece back := by
  -- What is put in front lengthens the left side, and moves nothing within it.
  obtain ⟨outer, inner, inner', outer', rfl, same, inside, laid', behind⟩ := lies
  exact ⟨text ++ outer, inner, inner', outer', by simp, same, inside, laid.append laid', behind⟩

/-- A run lies inside one of the pieces that one pass finds, and that piece is a lexeme. -/
theorem onePass_of_run {boundary : Bool} {left run right : Text} (maximal : IsRun left run right)
    (start : boundary = true ∨ endsWord (left ++ (run ++ right)) = true) :
    ∃ front piece back, onePass sweeps boundary (left ++ (run ++ right)) = front ++ piece :: back ∧
      LiesIn left run right front piece back ∧ piece.IsLexeme := by
  -- Every piece that ends in front of the run leaves less text there.
  induction length : left.length using Nat.strongRecOn generalizing left boundary with
  | ind _ ih =>
    subst length
    rcases met : seek (frontPiece? sweeps) boundary (left ++ (run ++ right)) with
      _ | ⟨before, piece, after⟩
    · -- The first character of the run is at the front of some piece.
      obtain ⟨c, rest, rfl⟩ := List.exists_cons_of_ne_nil maximal.solid
      have absent := seek_eq_none.mp met left (c :: rest ++ right) rfl nofun
      exact absurd absent (frontPiece?_of_name (maximal.named c (.head rest)))
    · obtain ⟨here, split, _, found, absent⟩ := seek_eq_some.mp met
      rw [frontPiece?_of_met start split absent] at found
      obtain ⟨filled, rfl⟩ := frontPiece?_append found
      -- No name character is passed over, so the run lies behind what is.
      obtain ⟨gap, rfl, later⟩ := maximal.behind split (not_isNameChar_of_absent absent)
      have inner : IsRun gap run right := maximal.back rfl
      have ends := endsWord_of_frontPiece? found
      rw [onePass_of_some met]
      rcases inner.not_cut later.symm ends with ⟨gap', rfl, rfl⟩ | ⟨rest, inside, rfl⟩
      · -- The piece ends in front of the run, which is looked for behind it.
        have shorter : gap'.length < (before ++ (piece.text ++ gap')).length := by
          have taken := List.length_pos_iff.mpr filled
          simp only [List.length_append]
          omega
        obtain ⟨front, other, back, cut, lies, lexeme⟩ :=
          ih _ shorter (inner.back rfl) (starts_behind found) rfl
        refine ⟨fragment before ++ ([piece] ++ front), other, back, by simp [cut], ?_, lexeme⟩
        exact (lies.prepend (laid_singleton piece)).prepend (laid_fragment before)
      · -- The piece has the run in it.
        have lies : LiesIn (before ++ gap) run (rest ++ after) (fragment before) piece
            (onePass sweeps (wordEdge true piece.text) after) :=
          ⟨before, gap, rest, after, rfl, rfl, inside, laid_fragment before, laid_onePass _ _ _⟩
        exact ⟨_, piece, _, rfl, lies, isLexeme_of_frontPiece? found⟩

/--
A run of name characters in raw text is never cut, and a keyword is never missed.

The run lies inside one piece, which is a name and nothing but the run, or else a keyword that the
run is a word of.
A run that is a keyword by itself is no name.
-/
theorem pieces_of_run {sql : Text} {before after : List Piece} {raw : Piece} {left run right : Text}
    (scanned : scan (sql.squeeze isLineBreak) = before ++ raw :: after) (plain : raw.kind = .raw)
    (split : raw.normalize.text = left ++ (run ++ right)) (maximal : IsRun left run right) :
    ∃ front piece back,
      pieces sql = swept before ++ (front ++ piece :: back) ++ swept after ∧
      LiesIn left run right front piece back ∧
      (piece = ⟨.name, run⟩ ∨
        piece ∈ keywords ∧ run ∈ piece.text.splitOn ' ' ∧
          piece.kind ∈ [.unionToken, .partToken, .orOp, .andOp, .mathOp, .unaryPrefix]) ∧
      ((∃ keyword ∈ keywords, keyword.text = run) → piece.kind ≠ .name) := by
  -- The sweeps over a raw piece are one pass, and a pass puts a run into one lexeme.
  have pass : lexPiece raw.normalize = onePass sweeps true (left ++ (run ++ right)) := by
    rw [← split, lexPiece, if_pos]
    simp [Piece.normalize, plain]
  obtain ⟨front, piece, back, cut, lies, lexeme⟩ := onePass_of_run maximal (.inl rfl)
  have read : piece = ⟨.name, run⟩ ∨ piece ∈ keywords ∧ run ∈ piece.text.splitOn ' ' := by
    obtain ⟨outer, inner, inner', outer', rfl, rfl, inside, _, _⟩ := lies
    have part : IsRun inner run inner' := (maximal.back rfl).front rfl
    exact lexeme.of_run part inside
  refine ⟨front, piece, back, ?_, lies, ?_, ?_⟩
  · -- The sweeps go over the pieces of the scan one by one.
    rw [← cut, ← pass, ← foldl_apply_singleton, pieces, scanned, swept, swept, List.map_append,
      List.map_cons, foldl_apply_append, ← List.singleton_append, foldl_apply_append,
      List.append_assoc]
  · rcases read with name | ⟨member, word⟩
    · exact .inl name
    · exact .inr ⟨member, word, kind_of_mem_keywords member⟩
  · intro listed
    obtain ⟨keyword, among, same⟩ := listed
    have member : piece ∈ keywords := by
      rcases read with name | ⟨member, _⟩
      · -- A name that is spelled like a keyword would be read as the keyword.
        rw [lexeme.eq_of_keyword among (by rw [same, name])]
        exact among
      · exact member
    have kind := kind_of_mem_keywords member
    intro name
    rw [name] at kind
    simp at kind

/-- A keyword with a keyword in it stays together, behind a name that ends like it. -/
theorem pieces_of_run_not_in :
    scan (Text.squeeze isLineBreak "a$not not  in b".toList) =
        [] ++ ⟨.raw, "a$not not  in b".toList⟩ :: [] ∧
      IsRun "A$NOT ".toList "NOT".toList " IN B".toList ∧
      ∃ front piece back, pieces "a$not not  in b".toList = front ++ piece :: back ∧
        LiesIn "A$NOT ".toList "NOT".toList " IN B".toList front piece back ∧
        piece.kind ≠ .name := by
  -- The run is the second `NOT` of the text, as the first belongs to a longer name.
  have scanned : scan (Text.squeeze isLineBreak "a$not not  in b".toList) =
      [] ++ ⟨.raw, "a$not not  in b".toList⟩ :: [] := by
    decide +kernel
  have split : (Piece.normalize ⟨.raw, "a$not not  in b".toList⟩).text =
      "A$NOT ".toList ++ ("NOT".toList ++ " IN B".toList) := by
    decide +kernel
  have maximal : IsRun "A$NOT ".toList "NOT".toList " IN B".toList := by
    refine ⟨by decide, by decide, ?_, ?_⟩
    · simp [isNameChar]
    · simp [isNameChar]
  have listed : ∃ keyword ∈ keywords, keyword.text = "NOT".toList := by
    decide +kernel
  obtain ⟨front, piece, back, cut, lies, _, keyword⟩ := pieces_of_run scanned rfl split maximal
  have none : swept [] = [] := rfl
  rw [none, List.nil_append, List.append_nil] at cut
  exact ⟨scanned, maximal, front, piece, back, cut, lies, keyword listed⟩

end SqlLayout
