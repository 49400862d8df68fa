import SqlLayout.Proofs.Lexing.OnePass
import SqlLayout.Lexing.Tokenize

/-! The lexicon: what the words and signs of the sweeps have in common, and that one pass does. -/

namespace SqlLayout

/-- A word that does not reach past the end of a text is found in it whatever stands behind it. -/
theorem Text.after?_append {word text back : Text}
    (within : ∀ tail, word = text ++ tail → tail ≠ [] → after? tail back = none) :
    after? word (text ++ back) = (after? word text).map (· ++ back) := by
  -- on the word, character by character; what is left of it may reach past the text
  induction word generalizing text with
  | nil => cases text <;> rfl
  | cons c word ih =>
    cases text with
    | nil => exact within (c :: word) rfl nofun
    | cons d text =>
      rw [List.cons_append, after?, after?]
      split
      · rename_i same
        refine ih fun tail split solid => within tail ?_ solid
        rw [same, split, List.cons_append]
      · rfl

/-- A search by tests that agree on the members of a list finds the same. -/
theorem findSome?_congr {α β : Type} {items : List α} {test other : α → Option β}
    (same : ∀ item ∈ items, test item = other item) :
    items.findSome? test = items.findSome? other := by
  -- The items are tried in order, and each answers the same.
  induction items with
  | nil => rfl
  | cons first rest ih =>
    obtain ⟨here, there⟩ := List.forall_mem_cons.mp same
    rw [List.findSome?_cons, List.findSome?_cons, here, ih there]

/-- The words and signs that a pattern looks for. -/
def Pattern.alternatives : Pattern → List Text
  | words alternatives _ => alternatives
  | symbols alternatives _ => alternatives
  | nameRun => []

/-- Whether a pattern looks for words or names, and so minds where words end. -/
def Pattern.isWordy : Pattern → Bool
  | symbols _ _ => false
  | _ => true

/-- Whether words are made of name characters and inner blanks, and signs of neither. -/
def Pattern.wellSpelled : Pattern → Bool
  | words alternatives _ => alternatives.all fun word =>
      word.head?.any isNameChar && word.getLast?.any isNameChar &&
        word.all fun c => isNameChar c || c == ' '
  | symbols alternatives _ => alternatives.all fun sign =>
      sign.all fun c => !isNameChar c && !isBlank c
  | nameRun => true

/-- A match of a word or a sign is one of the alternatives. -/
theorem Pattern.here?_words {alternatives : List Text} {solid : [] ∉ alternatives} {boundary : Bool}
    {text word after : Text}
    (found : (words alternatives solid).here? boundary text = some (word, after)) :
    boundary = true ∧ word ∈ alternatives ∧ text = word ++ after ∧ endsWord after = true := by
  have parts := here?_append found
  simp only [here?] at found
  -- the search finds a listed word, and what stands behind it has been checked to end it
  split at found
  · rename_i begins
    obtain ⟨chosen, member, fits⟩ := List.exists_of_findSome?_eq_some found
    obtain ⟨tail, here, ends⟩ := Option.bind_eq_some_iff.mp fits
    split at ends
    · rename_i stop
      simp only [Option.some.injEq, Prod.mk.injEq] at ends
      obtain ⟨rfl, rfl⟩ := ends
      exact ⟨begins, member, parts.2.symm, stop⟩
    · cases ends
  · cases found

/-- A match of a sign is one of the alternatives. -/
theorem Pattern.here?_symbols {alternatives : List Text} {solid : [] ∉ alternatives}
    {boundary : Bool} {text word after : Text}
    (found : (symbols alternatives solid).here? boundary text = some (word, after)) :
    word ∈ alternatives ∧ text = word ++ after := by
  -- The first sign that the text begins with is the match, whatever stands around it.
  have parts := here?_append found
  simp only [here?] at found
  obtain ⟨chosen, member, fits⟩ := List.exists_of_findSome?_eq_some found
  obtain ⟨tail, here, same⟩ := Option.map_eq_some_iff.mp fits
  simp only [Prod.mk.injEq] at same
  obtain ⟨rfl, rfl⟩ := same
  exact ⟨member, parts.2.symm⟩

/-- What is left of a text behind its leading name characters ends a word. -/
theorem endsWord_dropWhile (text : Text) : endsWord (text.dropWhile isNameChar) = true := by
  -- What is left begins where the name characters stopped.
  unfold endsWord
  rcases rest : text.dropWhile isNameChar with _ | ⟨c, others⟩
  · rfl
  · have stop := List.head?_dropWhile_not isNameChar text
    rw [rest] at stop
    simpa using stop

/-- A match of a name is a run of name characters that ends where they do. -/
theorem Pattern.here?_nameRun {boundary : Bool} {text word after : Text}
    (found : nameRun.here? boundary text = some (word, after)) :
    word ≠ [] ∧ word.all isNameChar = true ∧ text = word ++ after ∧ endsWord after = true := by
  -- The match is all the name characters at the front, at least one.
  have parts := here?_append found
  simp only [here?] at found
  split at found
  · cases found
  · simp only [Option.some.injEq, Prod.mk.injEq] at found
    obtain ⟨rfl, rfl⟩ := found
    exact ⟨parts.1, List.all_takeWhile, parts.2.symm, endsWord_dropWhile text⟩

/-- Behind a text that ends in a name character no word may begin. -/
theorem wordEdge_of_getLast? {boundary : Bool} {text : Text}
    (last : text.getLast?.any isNameChar = true) : wordEdge boundary text = false := by
  -- The edge is handed on to the last character, and that one forbids a word behind it.
  induction text generalizing boundary with
  | nil => cases last
  | cons c text ih =>
    cases text with
    | nil => simpa [wordEdge] using last
    | cons d text =>
      rw [wordEdge_cons]
      exact ih (by simpa using last)

/-- Behind a text of name characters no word may begin. -/
theorem wordEdge_of_all {boundary : Bool} {text : Text} (solid : text ≠ [])
    (named : ∀ c ∈ text, isNameChar c = true) : wordEdge boundary text = false := by
  -- In a text of name characters the last one is a name character too.
  refine wordEdge_of_getLast? ?_
  rw [List.getLast?_eq_some_getLast solid]
  exact named _ (List.getLast_mem solid)

/-- A text that ends a word begins with no name characters. -/
theorem takeWhile_of_endsWord {text : Text} (ends : endsWord text = true) :
    text.takeWhile isNameChar = [] ∧ text.dropWhile isNameChar = text := by
  -- No name character stands at the front to be taken.
  cases text with
  | nil => exact ⟨rfl, rfl⟩
  | cons c rest =>
    have other : isNameChar c = false := by simpa [endsWord] using ends
    simp [other]

/-- The first word of two texts is the first word of the first one, if that ends there. -/
theorem takeWhile_append_of_ends {front back : Text}
    (ends : (∀ c ∈ front, isNameChar c = true) → endsWord back = true) :
    (front ++ back).takeWhile isNameChar = front.takeWhile isNameChar ∧
      (front ++ back).dropWhile isNameChar = front.dropWhile isNameChar ++ back := by
  -- either the names run through `front` and stop with it, or they stop inside it
  by_cases named : ∀ c ∈ front, isNameChar c = true
  · have stop := takeWhile_of_endsWord (ends named)
    rw [List.takeWhile_append_of_pos named, List.dropWhile_append_of_pos named, stop.1, stop.2,
      List.append_nil, List.takeWhile_eq_self_iff.mpr named, List.dropWhile_eq_nil_iff.mpr named]
    exact ⟨rfl, rfl⟩
  · have early : ¬ (front.dropWhile isNameChar).isEmpty = true := by
      rwa [List.isEmpty_iff, List.dropWhile_eq_nil_iff]
    have short : (front.takeWhile isNameChar).length ≠ front.length := by
      intro same
      exact named (List.takeWhile_eq_self_iff.mp
        ((List.takeWhile_prefix isNameChar).eq_of_length same))
    rw [List.takeWhile_append, List.dropWhile_append, if_neg short, if_neg early]
    exact ⟨rfl, rfl⟩

/-- A word that reaches past the end of a text is not found in it. -/
theorem Text.after?_of_longer {text tail : Text} (filled : tail ≠ []) :
    after? (text ++ tail) text = none := by
  -- a match would make the text longer than itself
  rcases found : after? (text ++ tail) text with _ | rest
  · rfl
  · have length := congrArg List.length (after?_eq_some.mp found)
    have more := List.length_pos_iff.mpr filled
    simp only [List.length_append] at length
    omega

/-- A word that ends in a name character ends in front of a place where it may not go on behind. -/
theorem endsWord_append_of_word {boundary : Bool} {word after back : Text}
    (last : word.getLast?.any isNameChar = true)
    (ends : wordEdge boundary (word ++ after) = false → endsWord back = true) :
    endsWord (after ++ back) = endsWord after := by
  -- Only when nothing follows the word does it matter what is put there.
  cases after with
  | cons c after => rfl
  | nil =>
    rw [List.append_nil] at ends
    exact ends (wordEdge_of_getLast? last)

/-- A word is met in front of a place as it is in the text up to there. -/
theorem word_of_stop {boundary : Bool} {word text back : Text}
    (last : word.getLast?.any isNameChar = true)
    (ends : wordEdge boundary text = false → endsWord back = true)
    (within : ∀ tail rest, word = text ++ tail → tail ≠ [] → back = tail ++ rest →
      ¬ endsWord rest = true) :
    ((Text.after? word (text ++ back)).bind fun after =>
        if endsWord after then some (word, after) else none) =
      ((Text.after? word text).bind fun after =>
        if endsWord after then some (word, after) else none).map
          fun (word, after) => (word, after ++ back) := by
  -- The word ends in front of the place, or it would reach past it.
  by_cases reaches : ∃ tail, word = text ++ tail ∧ tail ≠ [] ∧ Text.after? tail back ≠ none
  · -- A word that reaches past the place goes on behind its match, and so is none.
    obtain ⟨tail, rfl, filled, found⟩ := reaches
    obtain ⟨rest, found⟩ := Option.ne_none_iff_exists'.mp found
    have split := Text.after?_eq_some.mp found
    have whole : Text.after? (text ++ tail) (text ++ back) = some rest := by
      rw [Text.after?_eq_some, split, List.append_assoc]
    rw [whole, Option.bind_some, if_neg (within tail rest rfl filled split),
      Text.after?_of_longer filled]
    rfl
  · have inside : ∀ tail, word = text ++ tail → tail ≠ [] → Text.after? tail back = none := by
      intro tail same filled
      by_contra found
      exact reaches ⟨tail, same, filled, found⟩
    rw [Text.after?_append inside]
    rcases found : Text.after? word text with _ | after
    · rfl
    · rw [Text.after?_eq_some.mp found] at ends
      rw [Option.map_some, Option.bind_some, Option.bind_some, endsWord_append_of_word last ends]
      split
      · rfl
      · rfl

/--
Matches in front of a place are the same whatever stands behind it.

A word may not go on behind the place, and no alternative may reach past it.
-/
theorem Pattern.here?_of_stop {pattern : Pattern} {boundary : Bool} {text back : Text}
    (solid : text ≠ []) (ends : pattern.isWordy = true → wordEdge boundary text = false →
      endsWord back = true) (spelled : pattern.wellSpelled = true)
    (within : ∀ tail rest, text ++ tail ∈ pattern.alternatives → tail ≠ [] → back = tail ++ rest →
      ¬ (pattern.isWordy = true → endsWord rest = true)) :
    pattern.here? boundary (text ++ back) =
      (pattern.here? boundary text).map fun (word, after) => (word, after ++ back) := by
  -- The three forms of patterns are bounded in different ways.
  cases pattern with
  | words alternatives _ =>
    simp only [here?]
    simp only [wellSpelled, List.all_eq_true, Bool.and_eq_true] at spelled
    split
    · rw [List.map_findSome?]
      refine findSome?_congr fun word member => word_of_stop (spelled word member).1.2 (ends rfl) ?_
      rintro tail rest rfl filled split stop
      exact within tail rest member filled split fun _ => stop
    · rfl
  | symbols alternatives _ =>
    simp only [here?]
    rw [List.map_findSome?]
    refine findSome?_congr fun word member => ?_
    rw [Text.after?_append (?_ : ∀ tail, word = text ++ tail → tail ≠ [] → _)]
    · rcases found : Text.after? word text with _ | after
      · simp [found]
      · simp [found]
    · rintro tail rfl filled
      by_contra found
      obtain ⟨rest, found⟩ := Option.ne_none_iff_exists'.mp found
      refine within tail rest member filled (Text.after?_eq_some.mp found) fun wordy => ?_
      cases wordy
  | nameRun =>
    -- the run of names is the one in front of the place, and goes no further
    have run := @takeWhile_append_of_ends text back fun named =>
      ends rfl (wordEdge_of_all solid named)
    rw [here?, here?, run.1, run.2]
    split
    · rfl
    · rfl

/-- A match begins with a name character exactly when it is a word. -/
theorem Pattern.endsWord_of_here? {pattern : Pattern} {text word after : Text}
    (spelled : pattern.wellSpelled = true) (plain : pattern.alternatives ≠ [])
    (found : pattern.here? false text = some (word, after)) : endsWord text = true := by
  -- a name character before rules a word out, and a sign is no name character at its front
  cases pattern with
  | words alternatives _ => cases (here?_words found).1
  | symbols alternatives solid =>
    obtain ⟨member, rfl⟩ := here?_symbols found
    simp only [wellSpelled, List.all_eq_true, Bool.and_eq_true, Bool.not_eq_true'] at spelled
    cases word with
    | nil => exact absurd member solid
    | cons c word =>
      have sign := (spelled _ member c (.head word)).1
      simp [endsWord, sign]
  | nameRun => exact absurd rfl plain

/-- A name character is no blank. -/
theorem isBlank_of_isNameChar {c : Char} (name : isNameChar c = true) : isBlank c = false := by
  -- No character is both.
  by_contra blank
  rw [isNameChar_of_isBlank (by simpa using blank)] at name
  cases name

/-- Behind signs a word may begin. -/
theorem wordEdge_of_signs {boundary : Bool} {text : Text} (solid : text ≠ [])
    (signs : ∀ c ∈ text, isNameChar c = false) : wordEdge boundary text = true := by
  -- The last character counts, and it is a sign as all the others are.
  induction text generalizing boundary with
  | nil => exact absurd rfl solid
  | cons c text ih =>
    rw [wordEdge_cons]
    cases text with
    | nil => simp [signs c (.head [])]
    | cons d text => exact ih nofun fun e member => signs e (.tail c member)

/-- The alternatives of a pattern begin and end with no blank. -/
theorem Pattern.not_blank {pattern : Pattern} {word : Text} (spelled : pattern.wellSpelled = true)
    (member : word ∈ pattern.alternatives) :
    (∀ c ∈ word.head?, isBlank c = false) ∧ ∀ c ∈ word.getLast?, isBlank c = false := by
  -- a word has names at its edges, a sign no blank at all
  cases pattern with
  | words alternatives _ =>
    simp only [wellSpelled, List.all_eq_true, Bool.and_eq_true] at spelled
    obtain ⟨⟨first, last⟩, _⟩ := spelled word member
    refine ⟨?_, ?_⟩
    · intro c front
      rw [front] at first
      exact isBlank_of_isNameChar first
    · intro c back
      rw [back] at last
      exact isBlank_of_isNameChar last
  | symbols alternatives _ =>
    simp only [wellSpelled, List.all_eq_true, Bool.and_eq_true, Bool.not_eq_true'] at spelled
    have plain := spelled word member
    exact ⟨fun c front => (plain c (List.mem_of_head? front)).2,
      fun c back => (plain c (List.mem_of_getLast? back)).2⟩
  | nameRun => cases member

/-- No match begins with a blank. -/
theorem Pattern.here?_of_blank {pattern : Pattern} (spelled : pattern.wellSpelled = true)
    {boundary : Bool} {c : Char} {rest : Text} (blank : isBlank c = true) :
    pattern.here? boundary (c :: rest) = none := by
  -- A match takes in the first character.
  by_contra found
  obtain ⟨⟨word, after⟩, found⟩ := Option.ne_none_iff_exists'.mp found
  obtain ⟨solid, parts⟩ := here?_append found
  -- a match begins with the blank, and no pattern's match does
  have front : word.head? = some c := by
    cases word with
    | nil => exact absurd rfl solid
    | cons d word => simp_all
  have plain : isBlank c = false := by
    cases pattern with
    | words alternatives _ => exact (not_blank spelled (here?_words found).2.1).1 c front
    | symbols alternatives _ => exact (not_blank spelled (here?_symbols found).1).1 c front
    | nameRun =>
      have named := List.all_eq_true.mp (here?_nameRun found).2.1
      exact isBlank_of_isNameChar (named c (List.mem_of_head? front))
  rw [blank] at plain
  cases plain

/-- No word begins where none can. -/
theorem Pattern.here?_of_endsWord {alternatives : List Text} {solid : [] ∉ alternatives}
    (spelled : (words alternatives solid).wellSpelled = true) {boundary : Bool} {text : Text}
    (ends : endsWord text = true) : (words alternatives solid).here? boundary text = none := by
  by_contra found
  obtain ⟨⟨word, after⟩, found⟩ := Option.ne_none_iff_exists'.mp found
  -- the word met begins with a name character, where the text has none
  obtain ⟨_, member, rfl, _⟩ := here?_words found
  simp only [wellSpelled, List.all_eq_true, Bool.and_eq_true] at spelled
  have first := (spelled word member).1.1
  cases word with
  | nil => cases first
  | cons c word =>
    have name : isNameChar c = true := first
    simp [endsWord, name] at ends

/-- A pattern with well-spelled alternatives minds the words around its matches. -/
theorem Pattern.tidy {pattern : Pattern} (spelled : pattern.wellSpelled = true) :
    pattern.Tidy := by
  -- Each of the five conditions comes down to how the alternatives are spelled.
  refine ⟨here?_of_blank spelled, ?_, ?_, ?_, ?_⟩
  · intro boundary text back solid blank
    refine here?_of_stop solid ?_ spelled ?_
    · intro _ _
      cases back with
      | nil => rfl
      | cons c back => simp [endsWord, isNameChar_of_isBlank (blank c (.head back))]
    · -- An alternative that reached into the blanks would end in one.
      rintro tail rest member solid' rfl
      have last := (not_blank spelled member).2 (tail.getLast solid')
        (by simp [List.getLast?_append, List.getLast?_eq_some_getLast solid'])
      rw [blank _ (List.mem_append_left _ (List.getLast_mem solid'))] at last
      cases last
  · intro boundary text word after found edge
    cases pattern with
    | words alternatives _ => exact (here?_words found).2.2.2
    | symbols alternatives _ =>
      simp only [wellSpelled, List.all_eq_true, Bool.and_eq_true, Bool.not_eq_true'] at spelled
      have signs := @wordEdge_of_signs true word (here?_append found).1 fun c member =>
        (spelled word (here?_symbols found).1 c member).1
      rw [signs] at edge
      cases edge
    | nameRun => exact (here?_nameRun found).2.2.2
  · intro boundary text word after found edge other text'
    cases pattern with
    | words alternatives _ =>
      simp only [wellSpelled, List.all_eq_true, Bool.and_eq_true] at spelled
      rw [wordEdge_of_getLast? (spelled word (here?_words found).2.1).1.2] at edge
      cases edge
    | symbols alternatives _ => rfl
    | nameRun => rfl
  · intro boundary text ends
    cases pattern with
    | words alternatives _ => rw [here?_of_endsWord spelled ends, here?_of_endsWord spelled ends]
    | symbols alternatives _ => rfl
    | nameRun => rfl

/-- The ways to cut a text into two parts that are not empty. -/
def Text.cuts : Text → List (Text × Text)
  | [] => []
  | [_] => []
  | c :: rest => ([c], rest) :: (cuts rest).map fun (front, back) => (c :: front, back)

/-- Every cut of a text into filled parts is among its cuts. -/
theorem Text.mem_cuts {front back : Text} (filled : front ≠ []) (filled' : back ≠ []) :
    (front, back) ∈ cuts (front ++ back) := by
  -- The cut moves along the front one character at a time.
  induction front with
  | nil => exact absurd rfl filled
  | cons c front ih =>
    obtain ⟨d, rest, rfl⟩ := List.exists_cons_of_ne_nil filled'
    cases front with
    | nil => exact .head _
    | cons e front => exact .tail _ (List.mem_map.mpr ⟨_, ih nofun, rfl⟩)

/-- Whether a pattern has no match that begins with the second part of a cut. -/
def Pattern.avoids (front back : Text) : Pattern → Bool
  -- Words are compared up to where both of them end.
  | words alternatives _ => !wordEdge true front || alternatives.all fun word =>
      !(Text.after? word back).any endsWord && !(Text.after? back word).any endsWord
  | symbols alternatives _ =>
      alternatives.all fun sign => !sign.isPrefixOf back && !back.isPrefixOf sign
  | nameRun => endsWord back

/-- Of two words that a text begins with and that end there, one begins with the other. -/
theorem after?_any_endsWord {front back rest after : Text} (same : front ++ after = back ++ rest)
    (ends : endsWord after = true) (ends' : endsWord rest = true) :
    (Text.after? front back).any endsWord = true ∨ (Text.after? back front).any endsWord = true := by
  -- of two matches at one place the longer begins with the shorter
  rcases List.append_eq_append_iff.mp same with ⟨middle, rfl, rfl⟩ | ⟨middle, rfl, rfl⟩
  · left
    rw [Text.after?_eq_some.mpr rfl]
    exact endsWord_of_append ends
  · right
    rw [Text.after?_eq_some.mpr rfl]
    exact endsWord_of_append ends'

/-- A pattern that avoids a cut has no match at it. -/
theorem Pattern.here?_of_avoids {pattern : Pattern} (spelled : pattern.wellSpelled = true)
    {boundary : Bool} {front back rest : Text} (apart : pattern.avoids front back = true)
    (filled : front ≠ []) (filled' : back ≠ [])
    (ends : endsWord back = true ∨ endsWord rest = true) :
    pattern.here? (wordEdge boundary front) (back ++ rest) = none := by
  -- A match at the cut would begin with some of the part behind it.
  by_contra found
  obtain ⟨⟨word, after⟩, found⟩ := Option.ne_none_iff_exists'.mp found
  cases pattern with
  | words alternatives _ =>
    obtain ⟨begins, member, same, stop⟩ := here?_words found
    rw [wordEdge_eq filled _ true] at begins
    simp only [avoids, begins, Bool.not_true, Bool.false_or, List.all_eq_true, Bool.and_eq_true,
      Bool.not_eq_true'] at apart
    rcases ends with ends | ends
    · -- No word begins where the second part does.
      have nowhere : endsWord (back ++ rest) = true := by
        obtain ⟨c, back, rfl⟩ := List.exists_cons_of_ne_nil filled'
        exact ends
      rw [here?_of_endsWord spelled nowhere] at found
      cases found
    · have reach := after?_any_endsWord same.symm stop ends
      rw [(apart word member).1, (apart word member).2] at reach
      simp at reach
  | symbols alternatives _ =>
    simp only [avoids, List.all_eq_true, Bool.and_eq_true, Bool.not_eq_true', ← Bool.not_eq_true,
      List.isPrefixOf_iff_prefix] at apart
    -- A match and the part it begins with are two beginnings of one text.
    have comparable : word <+: back ∨ back <+: word :=
      List.prefix_or_prefix_of_prefix ⟨after, (here?_append found).2⟩ (List.prefix_append back rest)
    have member := (here?_symbols found).1
    exact comparable.elim (apart word member).1 (apart word member).2
  | nameRun =>
    obtain ⟨solid, named, parts, _⟩ := here?_nameRun found
    obtain ⟨c, back, rfl⟩ := List.exists_cons_of_ne_nil filled'
    obtain ⟨d, word, rfl⟩ := List.exists_cons_of_ne_nil solid
    simp only [List.cons_append, List.cons.injEq] at parts
    simp only [List.all_cons, Bool.and_eq_true] at named
    rw [← parts.1] at named
    simp [avoids, endsWord, named.1] at apart

/-- No word begins inside a sign. -/
theorem Pattern.endsWord_of_sign {pattern : Pattern} {front back : Text}
    (spelled : pattern.wellSpelled = true) (signs : pattern.isWordy = false)
    (member : front ++ back ∈ pattern.alternatives) (filled : back ≠ []) :
    endsWord back = true := by
  -- only a sign is cut here, and no character of a sign goes on a word
  cases pattern with
  | words alternatives _ => cases signs
  | nameRun => cases signs
  | symbols alternatives _ =>
    simp only [wellSpelled, List.all_eq_true, Bool.and_eq_true, Bool.not_eq_true'] at spelled
    obtain ⟨c, back, rfl⟩ := List.exists_cons_of_ne_nil filled
    have sign := (spelled _ member c (by simp)).1
    simp [endsWord, sign]

/-- Whether the lexicon shows that a sweep may be made behind others. -/
def Sweep.mayFollow (tried : List Sweep) (sweep : Sweep) : Bool :=
  (sweep :: tried).all (fun other => other.pattern.wellSpelled) &&
    tried.all (fun other => other.kind != .raw) &&
    sweep.pattern.alternatives.all (fun word => word.cuts.all fun (front, back) =>
      tried.all fun other => other.pattern.avoids front back) &&
    (!sweep.pattern.isWordy || tried.all fun other => other.pattern.alternatives != [])

/-- A sweep that may be made behind others finds there what it finds together with them. -/
theorem Sweep.follows {tried : List Sweep} {sweep : Sweep}
    (may : sweep.mayFollow tried = true) : Follows tried sweep := by
  -- The conditions on the two patterns were checked, and each gives one property.
  simp only [mayFollow, Bool.and_eq_true, List.all_eq_true, bne_iff_ne, Bool.or_eq_true,
    Bool.not_eq_true'] at may
  obtain ⟨⟨⟨spelled, kinds⟩, apart⟩, names⟩ := may
  -- No match of the others begins inside an alternative.
  have avoided : ∀ {boundary : Bool} {front back rest : Text},
      front ++ back ∈ sweep.pattern.alternatives → front ≠ [] → back ≠ [] →
      (sweep.pattern.isWordy = true → endsWord rest = true) →
      frontPiece? tried (wordEdge boundary front) (back ++ rest) = none := by
    intro boundary front back rest member filled filled' stop
    rw [frontPiece?_eq_none]
    intro other among
    refine Pattern.here?_of_avoids (spelled other (.tail sweep among))
      (apart _ member _ (Text.mem_cuts filled filled') other among) filled filled' ?_
    rcases wordy : sweep.pattern.isWordy with _ | _
    · exact .inl (Pattern.endsWord_of_sign (spelled sweep (.head tried)) wordy member filled')
    · exact .inr (stop wordy)
  have ends : sweep.pattern.isWordy = true → ∀ {text : Text},
      (frontPiece? tried false text).isSome = true → endsWord text = true := by
    intro wordy text present
    obtain ⟨⟨piece, after⟩, found⟩ := Option.isSome_iff_exists.mp present
    obtain ⟨other, member, _, here⟩ := frontPiece?_eq_some found
    rcases names with sign | names
    · rw [wordy] at sign
      cases sign
    · exact Pattern.endsWord_of_here? (spelled other (.tail sweep member)) (names other member) here
  refine ⟨fun other member => Pattern.tidy (spelled other member), kinds, ?_, ?_⟩
  · intro boundary front back after found filled filled'
    obtain ⟨pattern, kind⟩ := sweep
    cases pattern with
    | words alternatives _ =>
      obtain ⟨_, member, _, stop⟩ := Pattern.here?_words found
      exact avoided member filled filled' fun _ => stop
    | symbols alternatives _ =>
      exact avoided (Pattern.here?_symbols found).1 filled filled' nofun
    | nameRun =>
      have named := List.all_eq_true.mp (Pattern.here?_nameRun found).2.1
      by_contra present
      rw [wordEdge_of_all filled fun c member => named c (List.mem_append_left _ member)] at present
      have stop := ends rfl (Option.isSome_iff_ne_none.mpr present)
      obtain ⟨c, back, rfl⟩ := List.exists_cons_of_ne_nil filled'
      have name : isNameChar c = true := named c (by simp)
      simp [endsWord, name] at stop
  · intro boundary text back solid present
    refine Pattern.here?_of_stop solid ?_ (spelled sweep (.head tried)) ?_
    · intro wordy edge
      rw [edge] at present
      exact ends wordy present
    · rintro tail rest member filled rfl stop
      rw [avoided member solid filled stop] at present
      cases present

/-- Whether sweeps may be made one behind the other, behind others. -/
def mayFollowAll : (tried later : List Sweep) → Bool
  | _, [] => true
  | tried, sweep :: later => sweep.mayFollow tried && mayFollowAll (tried ++ [sweep]) later

/-- Sweeps that may follow each other cut a text as one pass does that tries them in order. -/
theorem foldl_apply_onePass {tried later : List Sweep} (may : mayFollowAll tried later = true)
    (text : Text) :
    later.foldl (fun found sweep => sweep.apply found) (onePass tried true text) =
      onePass (tried ++ later) true text := by
  -- Each sweep may follow those before it, so that it joins the one pass that they make.
  induction later generalizing tried with
  | nil => rw [List.append_nil, List.foldl_nil]
  | cons sweep later ih =>
    rw [mayFollowAll, Bool.and_eq_true] at may
    rw [List.foldl_cons, (Sweep.follows may.1).apply_onePass (.inl rfl), ih may.2,
      List.append_assoc, List.singleton_append]

/-- The sweeps may be made in their order. -/
theorem mayFollowAll_sweeps : mayFollowAll [] sweeps = true := by
  -- The condition is computed over the list of sweeps.
  decide +kernel

/-- The pieces that all sweeps leave of one piece, found in one pass. -/
def lexPiece (piece : Piece) : List Piece :=
  if piece.kind = .raw then onePass sweeps true piece.text else [piece]

/-- Raw text is found in one pass once it is normal. -/
theorem lexPiece_of_raw {piece : Piece} (raw : piece.kind = .raw) :
    lexPiece piece.normalize = onePass sweeps true (piece.text.squeeze isBlank).upper := by
  -- A raw piece is normalized and then swept.
  rw [Piece.normalize, if_pos raw, lexPiece, if_pos raw]

/-- A literal span is not changed by the sweeps. -/
theorem lexPiece_of_known {piece : Piece} (known : piece.kind ≠ .raw) :
    lexPiece piece.normalize = [piece] := by
  -- A piece of any other kind is left alone both times.
  rw [Piece.normalize, if_neg known, lexPiece, if_neg known]

/-- Sweeps over pieces one behind the other are sweeps over the first and then the second. -/
theorem foldl_apply_append (made : List Sweep) (front back : List Piece) :
    made.foldl (fun found sweep => sweep.apply found) (front ++ back) =
      made.foldl (fun found sweep => sweep.apply found) front ++
        made.foldl (fun found sweep => sweep.apply found) back := by
  -- Every sweep goes over the pieces one by one.
  induction made generalizing front back with
  | nil => rfl
  | cons sweep made ih => rw [List.foldl_cons, Follows.apply_append, ih]; rfl

/-- All sweeps together leave of one piece what one pass finds in it. -/
theorem foldl_apply_singleton (piece : Piece) :
    sweeps.foldl (fun found sweep => sweep.apply found) [piece] = lexPiece piece := by
  -- A known piece is left alone by every sweep, and a raw one is cut in one pass.
  obtain ⟨kind, text⟩ := piece
  unfold lexPiece
  split
  · rename_i raw
    cases raw
    have empty : onePass [] true text = fragment text := onePass_of_none (by
      rw [seek_eq_none]
      exact fun _ _ _ _ => rfl)
    have all := foldl_apply_onePass mayFollowAll_sweeps text
    rw [empty] at all
    rw [← List.nil_append sweeps, ← all]
    -- The first sweep trims the text that it leaves.
    have may : mayFollowAll [] sweeps = true := mayFollowAll_sweeps
    rcases made : sweeps with _ | ⟨first, later⟩
    · cases made
    · rw [made, mayFollowAll, Bool.and_eq_true] at may
      have one : first.apply [⟨.raw, text⟩] = first.split true text := by simp [Sweep.apply]
      rw [List.nil_append, List.foldl_cons, List.foldl_cons, (Sweep.follows may.1).apply_fragment, one]
  · rename_i known
    generalize sweeps = made
    induction made with
    | nil => rfl
    | cons sweep made ih =>
      have same : sweep.apply [⟨kind, text⟩] = [⟨kind, text⟩] := Follows.apply_cons known []
      rw [List.foldl_cons, same, ih]

/-- The pieces of a text are found in one pass over each raw piece between its literal spans. -/
theorem pieces_eq (sql : Text) :
    pieces sql = ((scan (sql.squeeze isLineBreak)).map Piece.normalize).flatMap lexPiece := by
  unfold pieces
  generalize (scan (sql.squeeze isLineBreak)).map Piece.normalize = found
  -- whatever the pieces are: a sweep takes each on its own
  induction found with
  | nil =>
    generalize sweeps = made
    induction made with
    | nil => rfl
    | cons sweep made ih => exact ih
  | cons piece found ih =>
    rw [← List.singleton_append, foldl_apply_append, ih, foldl_apply_singleton]
    rfl

end SqlLayout
