import SqlLayout.Proofs.Bind.Restore

/-! Scanning for markers word by word: what is found in a text is what its words hold. -/

namespace SqlLayout

/-- A literal span at the front of a text is passed as a whole. -/
theorem bindItems_of_literal {previous : Option Char} {text after : Text} {piece : Piece}
    (found : literal? text = some (piece, after)) :
    bindItems previous text = .literal piece :: bindItems piece.text.getLast? after := by
  cases text with
  | nil => cases found
  -- the scan tries the literal first, so its two other branches are impossible
  | cons c rest =>
    rw [bindItems]
    split
    · rename_i same
      rw [found] at same
      cases same
      rfl
    · rename_i absent
      rw [found] at absent
      cases absent

/-- A marker at the front of a text is taken as a whole. -/
theorem bindItems_of_marker {previous : Option Char} {text marker after : Text}
    (plain : literal? text = none) (found : marker? previous text = some (marker, after)) :
    bindItems previous text = .marker marker :: bindItems marker.getLast? after := by
  -- There is something to be scanned, as a marker is not empty.
  cases text with
  | nil => cases found
  -- with no literal here, the marker is tried next
  | cons c rest =>
    rw [bindItems]
    split
    · rename_i present
      rw [plain] at present
      cases present
    · split
      · rename_i same
        rw [found] at same
        cases same
        rfl
      · rename_i absent
        rw [found] at absent
        cases absent

/-- A character at which neither begins is passed. -/
theorem bindItems_of_plain {previous : Option Char} {c : Char} {rest : Text}
    (plain : literal? (c :: rest) = none) (unmarked : marker? previous (c :: rest) = none) :
    bindItems previous (c :: rest) = .plain c :: bindItems (some c) rest := by
  -- A literal is tried first, and then a marker.
  rw [bindItems]
  split
  · rename_i present
    rw [plain] at present
    cases present
  · split
    · rename_i present
      rw [unmarked] at present
      cases present
    · rfl

/-- The characters with which neither a literal span nor a marker begins. -/
def isInert (c : Char) : Bool :=
  -- Neither the signs that open a literal span nor those that begin a marker.
  not (['\'', '"', '\x7b', '/', ':', '#', '&'].contains c)

/-- A run of inert characters is passed one by one. -/
theorem bindItems_inert {front : Text} (inert : ∀ c ∈ front, isInert c = true)
    (previous : Option Char) (rest : Text) :
    bindItems previous (front ++ rest) =
      front.map .plain ++ bindItems (front.getLast?.or previous) rest := by
  -- Each of these characters opens nothing and begins nothing.
  induction front generalizing previous with
  | nil => rfl
  | cons c front ih =>
    obtain ⟨here, others⟩ := List.forall_mem_cons.mp inert
    have other : c ∉ ['\'', '"', '\x7b', '/', ':', '#', '&'] := by simpa [isInert] using here
    have plain : literal? (c :: (front ++ rest)) = none :=
      literal?_of_plain (fun member => other (by simp at member ⊢; tauto))
        (fun same => absurd (by simp [same]) other)
    have unmarked : marker? previous (c :: (front ++ rest)) = none :=
      marker?_eq_none fun member => other (by simp at member ⊢; tauto)
    rw [List.cons_append, bindItems_of_plain plain unmarked, ih others, last_cons]
    rfl

/-- Only a colon looks at the character in front of it. -/
theorem bindItems_previous {previous : Option Char} {text : Text}
    (free : text.head? = some ':' → previous.any gluesColon = false) :
    bindItems previous text = bindItems none text := by
  -- The other two signs begin a marker whatever stands in front of them.
  cases text with
  | nil => rw [bindItems, bindItems]
  | cons c rest =>
    have same : marker? previous (c :: rest) = marker? none (c :: rest) := by
      by_cases colon : c = ':'
      · subst colon
        have apart := free rfl
        simp [marker?, apart]
      · unfold marker?
        split
        · rename_i same
          cases same
          exact absurd rfl colon
        · rfl
        · rfl
        · rfl
    rcases literal : literal? (c :: rest) with _ | ⟨piece, after⟩
    · rcases found : marker? none (c :: rest) with _ | ⟨marker, after⟩
      · rw [bindItems_of_plain literal (same.trans found), bindItems_of_plain literal found]
      · rw [bindItems_of_marker literal (same.trans found), bindItems_of_marker literal found]
    · rw [bindItems_of_literal literal, bindItems_of_literal literal]

/-- A marker in a run of name characters ends where its name does, whatever follows the run. -/
theorem marker?_name {previous : Option Char} {word rest marker after : Text}
    (named : ∀ c ∈ word, isNameChar c = true) (stop : ∀ c ∈ rest.head?, isMarkerChar c = false)
    (found : marker? previous word = some (marker, after)) :
    (∀ c ∈ after.head?, isMarkerChar c = false) ∧
      marker? previous (word ++ rest) = some (marker, after ++ rest) := by
  -- The only sign among name characters is the colon, and a name stands behind it.
  cases word with
  | nil => cases found
  | cons c word =>
    obtain ⟨first, others⟩ := List.forall_mem_cons.mp named
    have colon : c = ':' := by
      by_contra other
      have absent : marker? previous (c :: word) = none := marker?_eq_none (by
        intro member
        simp only [List.mem_cons, List.not_mem_nil, or_false, other, false_or] at member
        rcases member with rfl | rfl
        · cases first
        · cases first)
      rw [absent] at found
      cases found
    subst colon
    have free : previous.any gluesColon = false := by
      by_contra glued
      simp [marker?, glued] at found
    have split := (marker?_append found).2
    have tail : ∀ c ∈ after.head?, isMarkerChar c = false := by
      simp only [marker?, free, Bool.false_eq_true, if_false] at found
      obtain ⟨⟨inner, behind⟩, deeper, same⟩ := Option.map_eq_some_iff.mp found
      cases same
      rw [colonMarker?_of_name (by
        intro d front member
        have name := others d (List.mem_of_head? front)
        simp only [List.mem_cons, List.not_mem_nil, or_false] at member
        rcases member with rfl | rfl
        · cases name
        · cases name)] at deeper
      split at deeper
      · cases deeper
      · cases deeper
        intro d front
        have first := List.head?_dropWhile_not isMarkerChar word
        rwa [front] at first
    refine ⟨tail, ?_⟩
    have behind : ∀ c ∈ (after ++ rest).head?, isMarkerChar c = false := by
      cases after with
      | nil => exact stop
      | cons d after => exact tail
    have again := (isMarker_of_marker? found).again free behind
    rwa [← List.append_assoc, split] at again

/-- A name character begins a marker only if it is a colon. -/
theorem colonMarker?_name {d : Char} {word : Text} (name : isNameChar d = true) (rest : Text) :
    colonMarker? (d :: (word ++ rest)) = none ↔ colonMarker? (d :: word) = none := by
  -- a name character opens neither a brace nor a bracket
  have other : ∀ {text : Text}, ∀ c ∈ (d :: text).head?, c ∉ ['\x7b', '['] := by
    rintro text c ⟨⟩ member
    simp only [List.mem_cons, List.not_mem_nil, or_false] at member
    rcases member with rfl | rfl
    · cases name
    · cases name
  rw [colonMarker?_of_name other, colonMarker?_of_name other]
  cases sort : isMarkerChar d with
  | true => simp [sort]
  | false => simp [sort]

/-- Whether a colon at the end of a word begins no marker with what follows. -/
def Shut (previous : Option Char) (word rest : Text) : Prop :=
  word.getLast? = some ':' →
    (word.dropLast.getLast?.or previous).any gluesColon = true ∨ colonMarker? rest = none

instance (previous : Option Char) (word rest : Text) : Decidable (Shut previous word rest) :=
  inferInstanceAs (Decidable (_ → _ ∨ _))

/-- The last character of two texts is that of the second, or else that of the first. -/
theorem last_append {front : Text} (solid : front ≠ []) (back : Text) (previous : Option Char) :
    (front ++ back).getLast?.or previous = back.getLast?.or front.getLast? := by
  -- The last character is that of the back part if it has one, and else that of the front.
  rw [List.getLast?_append, List.getLast?_eq_getLast_of_ne_nil solid]
  cases back.getLast? with
  | none => rfl
  | some c => rfl

/-- A colon at the end of a word is one at the end of the rest of the word. -/
theorem Shut.drop {previous : Option Char} {front back rest : Text}
    (shut : Shut previous (front ++ back) rest) (solid : front ≠ []) :
    Shut front.getLast? back rest := by
  -- what is left still ends in the colon, so it is not empty
  intro colon
  have filled : back ≠ [] := by
    rintro rfl
    cases colon
  -- hence the whole ends in that colon, with the same text before it
  have last : (front ++ back).getLast? = some ':' := by
    rw [List.getLast?_append, colon]
    rfl
  have before := shut last
  rwa [List.dropLast_append_of_ne_nil filled, last_append solid] at before

/-- A run of name characters is scanned by itself, unless a colon at its end begins a marker. -/
theorem bindItems_name {word rest : Text} (named : ∀ c ∈ word, isNameChar c = true)
    (stop : ∀ c ∈ rest.head?, isMarkerChar c = false) {previous : Option Char}
    (shut : Shut previous word rest) :
    bindItems previous (word ++ rest) =
      bindItems previous word ++ bindItems (word.getLast?.or previous) rest := by
  -- Follows the search on the word, with the rest of the text carried along.
  fun_induction bindItems previous word with
  | case1 previous => rfl
  | case2 previous c word piece after found ih =>
    rw [literal?_of_name (named c (.head word))] at found
    cases found
  | case3 previous c word plain marker after found ih =>
    obtain ⟨_, again⟩ := marker?_name named stop found
    obtain ⟨solid, split⟩ := marker?_append found
    rw [← split] at named shut
    have behind := ih (List.forall_mem_append.mp named).2 (shut.drop solid)
    rw [List.cons_append] at again
    have plain' : literal? (c :: (word ++ rest)) = none :=
      literal?_of_name (named c (by simp [split])) _
    rw [List.cons_append, bindItems_of_marker plain' again, behind, ← split, last_append solid]
    rfl
  | case4 previous c word plain unmarked ih =>
    obtain ⟨first, others⟩ := List.forall_mem_cons.mp named
    have next := ih others (shut.drop (List.cons_ne_nil c []))
    have unmarked' : marker? previous (c :: (word ++ rest)) = none := by
      by_cases colon : c = ':'
      · subst colon
        by_cases glued : previous.any gluesColon = true
        · simp [marker?, glued]
        · simp only [marker?, glued, Bool.false_eq_true, if_false, Option.map_eq_none_iff]
            at unmarked ⊢
          cases word with
          | nil => exact (shut rfl).resolve_left glued
          | cons d word =>
            exact (colonMarker?_name (others d (.head word)) rest).mpr unmarked
      · refine marker?_eq_none ?_
        intro member
        simp only [List.mem_cons, List.not_mem_nil, or_false, colon, false_or] at member
        rcases member with rfl | rfl
        · cases first
        · cases first
    rw [List.cons_append, bindItems_of_plain (literal?_of_name first _) unmarked', next, last_cons]
    rfl

/-- The markers that a word holds. -/
def heldBy (word : Text) : List Text :=
  foundIn (bindItems none word)

/-- A word with made-up names for the markers that it holds, counted from a number. -/
def encodeWord (number : Nat) (word : Text) : Text :=
  encodeItems number (bindItems none word)

/-- Keywords and signs are inert, but for the slash and the doubled ampersand. -/
theorem inert_of_listed {word : Text} (listed : word ∈ lexicon) :
    word = ['/'] ∨ word = ['&', '&'] ∨ ∀ c ∈ word, isInert c = true := by
  -- The words of the lexicon are looked through once.
  have all : ∀ word ∈ lexicon, word = ['/'] ∨ word = ['&', '&'] ∨ ∀ c ∈ word, isInert c = true := by
    decide +kernel
  exact all word listed

/-- Only a sign may touch a word that is none of the two signs which touch what follows them. -/
theorem sign_of_mayTouch {word : Text} {c : Char} (touch : mayTouch word c = true)
    (other : word ≠ ['-'] ∧ word ≠ ['(']) : c ∈ ['(', ')', ',', '/', '\x7b'] := by
  -- Only behind a minus or an opening bracket may anything else follow at once.
  simpa only [mayTouch, other.1, other.2, Bool.or_eq_true, Bool.and_eq_true,
    List.contains_iff_mem, beq_iff_eq, false_and, or_false] using touch

/-- A blank is no character of a marker. -/
theorem isMarkerChar_of_isBlank {c : Char} (blank : isBlank c = true) : isMarkerChar c = false := by
  -- Marker characters are name characters, and no blank is one.
  refine Bool.eq_false_iff.mpr fun marker => ?_
  rw [isBlank_of_isNameChar (isNameChar_of_isMarkerChar marker)] at blank
  cases blank

/-- What may touch a word or set it off is no character of a marker. -/
theorem not_isMarkerChar {word : Text} {c : Char} (head : isBlank c = true ∨ mayTouch word c = true)
    (other : word ≠ ['-'] ∧ word ≠ ['(']) : isMarkerChar c = false := by
  -- what may touch the word from behind is one of its few signs
  rcases head with blank | touch
  · exact isMarkerChar_of_isBlank blank
  · have all : ∀ c ∈ ['(', ')', ',', '/', '\x7b'], isMarkerChar c = false := by decide
    exact all c (sign_of_mayTouch touch other)

/-- A slash is passed, unless a star stands behind it. -/
theorem bindItems_slash {rest : Text} (head : rest.head? ≠ some '*') (previous : Option Char) :
    bindItems previous ('/' :: rest) = .plain '/' :: bindItems (some '/') rest :=
  -- A slash without a star behind it opens no comment, and it begins no marker.
  bindItems_of_plain (literal?_of_plain (by decide) fun _ => head) (marker?_eq_none (by decide))

/-- An ampersand is passed, unless the name of a marker stands behind it. -/
theorem bindItems_ampersand {rest : Text} (stop : ∀ c ∈ rest.head?, isMarkerChar c = false)
    (previous : Option Char) :
    bindItems previous ('&' :: rest) = .plain '&' :: bindItems (some '&') rest := by
  refine bindItems_of_plain (literal?_of_plain (by decide) nofun) ?_
  -- no name follows the sign, so no marker is read
  have bare : rest.takeWhile isMarkerChar = [] := by
    cases rest with
    | nil => rfl
    | cons c rest => simp [stop c rfl]
  simp [marker?, enclosedMarker?, bare]

/-- A marker begins with none of the signs that words touch. -/
theorem IsMarker.ne_sign {marker : Text} (here : IsMarker marker) :
    marker ≠ ['-'] ∧ marker ≠ ['('] := by
  -- A marker begins with a colon, a hash or an ampersand.
  obtain ⟨c, front, sign⟩ := here.begins
  constructor
  · rintro rfl
    cases front
    exact absurd sign (by decide)
  · rintro rfl
    cases front
    exact absurd sign (by decide)

/-- A marker is scanned as one stretch. -/
theorem IsMarker.bindItems_append {marker rest : Text} (here : IsMarker marker)
    (stop : ∀ c ∈ rest.head?, isMarkerChar c = false) :
    bindItems none (marker ++ rest) = .marker marker :: bindItems marker.getLast? rest := by
  -- the marker is read again with what follows it, once no literal is read there
  have again := @IsMarker.again _ rest none here rfl stop
  obtain ⟨c, front, sign⟩ := here.begins
  obtain ⟨others, rfl⟩ := List.head?_eq_some_iff.mp front
  have plain : literal? (c :: others ++ rest) = none := by
    refine literal?_of_plain ?_ ?_
    · simp only [List.mem_cons, List.not_mem_nil, or_false] at sign ⊢
      rcases sign with rfl | rfl | rfl
      · decide
      · decide
      · decide
    · rintro rfl
      exact absurd sign (by decide)
  exact bindItems_of_marker plain again

/-- A literal span, a marker, a keyword or a sign is scanned by itself. -/
theorem Piece.Legible.exists_stretches {piece : Piece} (legible : piece.Legible)
    (other : ¬ ∀ c ∈ piece.text, isNameChar c = true) :
    ∃ stretches, ∀ {previous : Option Char} {rest : Text},
      (piece.text.head? = some ':' → previous.any gluesColon = false) →
      (∀ c ∈ rest.head?, isBlank c = true ∨ mayTouch piece.text c = true) →
      bindItems previous (piece.text ++ rest) = stretches ++ bindItems piece.text.getLast? rest := by
  -- What the word is scanned as depends neither on what stands before nor on what follows.
  have solid := legible.edges.1
  -- a literal, a word of the lexicon, or a marker restored
  rcases legible with (⟨literal, _⟩ | ⟨lexeme, _⟩) | ⟨_, marker⟩
  · exact ⟨[.literal piece], fun _ head => bindItems_of_literal (literal.again head)⟩
  · have listed := lexeme.listed_or_named.resolve_right other
    refine ⟨piece.text.map .plain, ?_⟩
    intro previous rest _ head
    -- two words of the lexicon hold a sign of the scan: the slash and the ampersands
    rcases inert_of_listed listed with slash | ampersands | inert
    · rw [slash] at head ⊢
      refine bindItems_slash ?_ previous
      intro star
      exact absurd (head '*' star) (by decide)
    · -- neither ampersand has a name behind it
      rw [ampersands] at head ⊢
      have stop : ∀ c ∈ rest.head?, isMarkerChar c = false :=
        fun c front => not_isMarkerChar (head c front) (by decide)
      have first : ∀ c ∈ ('&' :: rest).head?, isMarkerChar c = false := by
        rintro c ⟨⟩
        rfl
      show bindItems previous ('&' :: '&' :: rest) = _
      rw [bindItems_ampersand first, bindItems_ampersand stop]
      rfl
    · rw [bindItems_inert inert, List.getLast?_eq_getLast_of_ne_nil solid]
      rfl
  · refine ⟨[.marker piece.text], ?_⟩
    intro previous rest free head
    -- a marker at the start does not depend on what comes before, where nothing glues to it
    have same : bindItems previous (piece.text ++ rest) = bindItems none (piece.text ++ rest) := by
      refine bindItems_previous fun colon => free ?_
      rwa [List.head?_append_of_ne_nil _ solid] at colon
    rw [same]
    exact marker.bindItems_append fun c front => not_isMarkerChar (head c front) marker.ne_sign

/-- A legible word is scanned by itself, unless a colon at its end begins a marker. -/
theorem Piece.Legible.bindItems_append {piece : Piece} (legible : piece.Legible)
    {previous : Option Char} {rest : Text}
    (free : piece.text.head? = some ':' → previous.any gluesColon = false)
    (head : ∀ c ∈ rest.head?, isBlank c = true ∨ mayTouch piece.text c = true)
    (shut : Shut none piece.text rest) :
    bindItems previous (piece.text ++ rest) =
      bindItems none piece.text ++ bindItems piece.text.getLast? rest := by
  -- A name is read on until it ends, and any other word has stretches of its own.
  by_cases named : ∀ c ∈ piece.text, isNameChar c = true
  · have words : piece.text ≠ ['-'] ∧ piece.text ≠ ['('] := by
      constructor
      · intro same
        exact absurd (named '-' (by simp [same])) (by decide)
      · intro same
        exact absurd (named '(' (by simp [same])) (by decide)
    have same : bindItems previous (piece.text ++ rest) = bindItems none (piece.text ++ rest) := by
      refine bindItems_previous fun colon => free ?_
      rwa [List.head?_append_of_ne_nil _ legible.edges.1] at colon
    rw [same, bindItems_name named (fun c front => not_isMarkerChar (head c front) words) shut,
      Option.or_none]
  · obtain ⟨stretches, scanned⟩ := legible.exists_stretches named
    -- The stretches are those of the word alone.
    have alone := @scanned none [] (fun _ => rfl) nofun
    rw [List.append_nil, bindItems, List.append_nil] at alone
    rw [alone, scanned free head]

/-- The markers of stretches are those of the first and then those of the others. -/
theorem foundIn_append (front back : List BindItem) :
    foundIn (front ++ back) = foundIn front ++ foundIn back :=
  -- Each item is a marker or not, whatever stands beside it.
  List.filterMap_append

/-- Stretches are encoded one by one, with the numbers counted on. -/
theorem encodeItems_append (number : Nat) (front back : List BindItem) :
    encodeItems number (front ++ back) =
      encodeItems number front ++ encodeItems (number + (foundIn front).length) back := by
  -- The numbers are counted on by the markers of the front.
  induction front generalizing number with
  | nil => rfl
  | cons item front ih =>
    rcases sort : item.found? with _ | marker
    · -- A stretch that is no marker takes no number.
      obtain ⟨found, _, encode, _⟩ := BindItem.passed sort front
      obtain ⟨_, _, encode', _⟩ := BindItem.passed sort (front ++ back)
      rw [List.cons_append, encode', encode, found, ih, List.append_assoc]
    · cases item with
      | literal piece => cases sort
      | plain c => cases sort
      | marker text =>
        have length : (foundIn (.marker text :: front)).length = (foundIn front).length + 1 := rfl
        rw [List.cons_append, encodeItems, encodeItems, ih, length, List.append_assoc,
          Nat.add_assoc, Nat.add_comm 1]

/-- Without markers stretches are encoded as they are. -/
theorem encodeItems_of_none {items : List BindItem} (none : foundIn items = []) (number : Nat) :
    encodeItems number items = items.flatMap BindItem.text := by
  induction items generalizing number with
  | nil => rfl
  | cons item items ih =>
    -- an item that is no marker passes its text on; no other is left
    rcases sort : item.found? with _ | marker
    · obtain ⟨found, _, encode, _⟩ := BindItem.passed sort items
      rw [encode, ih (found ▸ none), List.flatMap_cons]
    · cases item with
      | literal piece => cases sort
      | plain c => cases sort
      | marker text => cases none

/-- A word that holds no markers is encoded as it is. -/
theorem encodeWord_of_none {word : Text} (none : heldBy word = []) (number : Nat) :
    encodeWord number word = word := by
  -- Items without a marker among them are encoded as their texts.
  rw [encodeWord, encodeItems_of_none none, flatMap_bindItems]

/-- A marker holds itself, and its made-up name stands for it. -/
theorem IsMarker.held {marker : Text} (here : IsMarker marker) :
    heldBy marker = [marker] ∧ ∀ number, encodeWord number marker = BindCut.code number := by
  -- a marker on its own is scanned as one marker
  have alone := @IsMarker.bindItems_append marker [] here nofun
  rw [List.append_nil, bindItems] at alone
  unfold heldBy encodeWord
  rw [alone]
  exact ⟨rfl, fun number => List.append_nil _⟩

/-- Characters that are passed hold no markers. -/
theorem foundIn_plain (text : Text) : foundIn (text.map .plain) = [] := by
  -- No plain character is a marker.
  rw [foundIn, List.filterMap_map]
  exact List.filterMap_eq_nil_iff.mpr fun _ _ => rfl

/-- Characters that are passed are encoded as they are. -/
theorem encodeItems_plain (number : Nat) (text : Text) :
    encodeItems number (text.map .plain) = text := by
  -- Each plain character is put down as it is.
  rw [encodeItems_of_none (foundIn_plain text), List.flatMap_map]
  exact List.flatMap_singleton' text

/-- A keyword or a sign holds no markers. -/
theorem heldBy_of_listed {word : Text} (listed : word ∈ lexicon) : heldBy word = [] := by
  -- the slash and the ampersands are checked; the other words are inert
  rcases inert_of_listed listed with rfl | rfl | inert
  · decide +kernel
  · decide +kernel
  · have scanned := bindItems_inert inert none []
    rw [List.append_nil, bindItems, List.append_nil] at scanned
    rw [heldBy, scanned, foundIn_plain]

/-- A literal span holds no markers. -/
theorem heldBy_of_literal {piece : Piece} (literal : piece.IsLiteral) : heldBy piece.text = [] := by
  -- The whole text is one literal, and nothing is looked for inside of it.
  rw [heldBy, bindItems_of_literal literal, bindItems]
  rfl

end SqlLayout
