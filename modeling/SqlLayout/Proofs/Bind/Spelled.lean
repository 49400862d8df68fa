import SqlLayout.Proofs.Bind.Scan
import SqlLayout.Proofs.Layout.Spelling

/-! Markers in spelled text: they are hidden word by word, and the words are read as before. -/

namespace SqlLayout

/-- Whether a word holds no marker other than itself. -/
def Settled (word : Text) : Prop :=
  heldBy word = [] ∨ heldBy word = [word]

instance (word : Text) : Decidable (Settled word) :=
  inferInstanceAs (Decidable (_ ∨ _))

/-- A settled word is left as it is, or else is a marker and becomes a made-up name. -/
theorem Settled.cases {word : Text} (settled : Settled word) (number : Nat) :
    heldBy word = [] ∧ encodeWord number word = word ∨
      heldBy word = [word] ∧ IsMarker word ∧ encodeWord number word = BindCut.code number := by
  -- What a word holds are markers, and so a word that holds itself is one.
  rcases settled with none | own
  · exact .inl ⟨none, encodeWord_of_none none number⟩
  · have marker : IsMarker word := by
      refine @isMarker_of_foundIn none word word ?_
      show word ∈ heldBy word
      rw [own]
      exact .head []
    exact .inr ⟨own, marker, marker.held.2 number⟩

/-- A legible marker is a name. -/
theorem Piece.Legible.name_of_marker {piece : Piece} (legible : piece.Legible)
    (marker : IsMarker piece.text) : piece.kind = .name := by
  have held := marker.held.1
  rcases legible with (⟨literal, _⟩ | ⟨lexeme, _⟩) | ⟨kind, _⟩
  · -- A literal span holds no markers at all.
    rw [heldBy_of_literal literal] at held
    cases held
  · -- Neither does a keyword or a sign, and any other lexeme is a name.
    obtain ⟨sweep, member, kind, among | ⟨run, _⟩⟩ := lexeme.sweep
    · rw [heldBy_of_listed (mem_lexicon.mpr ⟨sweep, member, among⟩)] at held
      cases held
    · have all : ∀ sweep ∈ sweeps, sweep.pattern.alternatives = [] → sweep.kind = .name := by
        decide +kernel
      rw [kind]
      exact all sweep member (by rw [run]; rfl)
  · exact kind

/-- A legible word that holds no markers is whole. -/
theorem Piece.Legible.whole_of_none {piece : Piece} (legible : piece.Legible)
    (none : heldBy piece.text = []) : piece.Whole := by
  -- Only markers are legible without being whole, and a marker holds itself.
  refine legible.resolve_right ?_
  rintro ⟨_, marker⟩
  rw [marker.held.1] at none
  cases none

/-- What begins with no name, brace or bracket is not the rest of a marker behind its colon. -/
theorem colonMarker?_of_head {text : Text}
    (other : ∀ c ∈ text.head?, isMarkerChar c = false ∧ c ∉ ['\x7b', '[']) :
    colonMarker? text = none := by
  -- none of the three ways to read on applies: no brace, no bracket and no name
  rw [colonMarker?_of_name fun c front => (other c front).2]
  cases text with
  | nil => rfl
  | cons c rest => simp [(other c rfl).1]

/-- A legible piece that begins with a brace is a comment in braces. -/
theorem Piece.Legible.braces {piece : Piece} (legible : piece.Legible) {rest : Text}
    (front : piece.text = '\x7b' :: rest) :
    piece.kind = .comment ∧ closedBy? ['\x7d'] rest = some (rest, []) := by
  -- Of the pieces that are legible, only a comment begins with a brace.
  rcases legible with (⟨literal, _⟩ | ⟨lexeme, _⟩) | ⟨_, marker⟩
  · -- The brace opens a span that is read to the end of the piece.
    have found : literal? piece.text = some (piece, []) := literal
    rw [front] at found
    simp only [literal?, opened] at found
    obtain ⟨⟨span, after⟩, inner, same⟩ := Option.map_eq_some_iff.mp found
    obtain ⟨rfl, rfl⟩ := Prod.mk.inj same
    cases front
    exact ⟨rfl, inner⟩
  · -- No keyword, sign or name has a brace in it.
    have member : '\x7b' ∈ piece.text := by simp [front]
    rcases lexeme.listed_or_named with listed | named
    · have all : ∀ word ∈ lexicon, '\x7b' ∉ word := by decide +kernel
      exact absurd member (all _ listed)
    · exact absurd (named _ member) (by decide)
  · obtain ⟨c, first, sign⟩ := marker.begins
    rw [front] at first
    cases first
    exact absurd sign (by decide)

/-- Whether a comment behind a word does not make a marker of a colon at the end of the word. -/
def Piece.ShutTo (piece next : Piece) : Prop :=
  next.kind = .comment → Shut none piece.text next.text

/-- A colon at the end of a legible word begins no marker, unless it does so with a comment. -/
theorem Piece.Legible.shut {piece : Piece} {items : Spelling} {text : Text}
    (written : Written (items.map (Prod.map id Piece.text)) text)
    (legible : ∀ item ∈ items, item.2.Legible)
    (touch : ∀ next ∈ items.head?, next.1 = false →
      ∀ c ∈ next.2.text.head?, mayTouch piece.text c = true)
    (shut : ∀ next ∈ items.head?, piece.ShutTo next.2) : Shut none piece.text text := by
  -- What stands behind the colon is a blank or the first character of the next word.
  intro colon
  -- The two signs that touch any word do not end with a colon.
  have other : piece.text ≠ ['-'] ∧ piece.text ≠ ['('] := by
    constructor
    · intro same
      rw [same] at colon
      cases colon
    · intro same
      rw [same] at colon
      cases colon
  rcases written.begins with blank | ⟨next, first, bare, more, rfl⟩
  · -- A blank is not the rest of a marker.
    refine .inr (colonMarker?_of_head fun c front => ⟨isMarkerChar_of_isBlank (blank c front), ?_⟩)
    intro member
    have all : ∀ c ∈ ['\x7b', '['], isBlank c = false := by decide
    have blanks := blank c front
    rw [all c member] at blanks
    cases blanks
  · have fits := legible next (List.mem_of_head? first)
    obtain ⟨c, rest, split⟩ := List.exists_cons_of_ne_nil fits.edges.1
    have sign := sign_of_mayTouch (touch next first bare c (by simp [split])) other
    rw [split]
    by_cases brace : c = '\x7b'
    · -- A comment in braces is, or is not, the rest of a marker, whatever stands behind it.
      subst brace
      obtain ⟨kind, closed⟩ := fits.braces split
      have again := closedBy?_again (by simp) closed more
      refine (shut next first kind colon).imp_right fun none => ?_
      rw [split, colonMarker?, closed] at none
      rw [List.cons_append, colonMarker?, again]
      simpa using none
    · -- None of the other signs that touch a word goes on with a marker.
      refine .inr (colonMarker?_of_head ?_)
      rintro d ⟨⟩
      have all : ∀ c ∈ ['(', ')', ',', '/', '\x7b'], c ≠ '\x7b' →
          isMarkerChar c = false ∧ c ∉ ['\x7b', '['] := by decide
      exact all c sign brace

/-- Things in a row, each with the number of markers that the words in front of it hold. -/
def numbered {α : Type} (word : α → Text) : (number : Nat) → List α → List (Nat × α)
  | _, [] => []
  -- A thing takes as many numbers as its word holds markers.
  | number, first :: rest =>
    (number, first) :: numbered word (number + (heldBy (word first)).length) rest

section Numbered

variable {α : Type} {word : α → Text}

/-- Numbering things leaves them and their order. -/
@[simp] theorem map_snd_numbered (number : Nat) (things : List α) :
    (numbered word number things).map Prod.snd = things := by
  -- Numbering changes the things in nothing.
  induction things generalizing number with
  | nil => rfl
  | cons first rest ih => rw [numbered, List.map_cons, ih]

/-- What is numbered is among the things. -/
theorem mem_of_mem_numbered {start number : Nat} {things : List α} {thing : α}
    (member : (number, thing) ∈ numbered word start things) : thing ∈ things := by
  -- With their numbers taken away, the numbered things are the things.
  rw [← @map_snd_numbered _ word start things]
  exact List.mem_map_of_mem member

/-- Things are counted on behind others. -/
theorem numbered_append (number : Nat) (front back : List α) :
    numbered word number (front ++ back) =
      numbered word number front ++
        numbered word (number + (front.flatMap fun thing => heldBy (word thing)).length) back := by
  induction front generalizing number with
  | nil => rfl
  -- the count goes up by the markers each thing holds
  | cons first front ih =>
    rw [List.cons_append, numbered, ih, numbered, List.flatMap_cons, List.length_append,
      Nat.add_assoc]
    rfl

/-- The number of a thing is the place of its first marker among those of all. -/
theorem exists_of_mem_numbered {start number : Nat} {things : List α} {thing : α}
    (member : (number, thing) ∈ numbered word start things) :
    ∃ before after, (things.flatMap fun thing => heldBy (word thing)) =
        before ++ (heldBy (word thing) ++ after) ∧ number = start + before.length := by
  -- By induction on the things, with the count as it stands in front of them.
  induction things generalizing start with
  | nil => cases member
  | cons first rest ih =>
    rw [List.flatMap_cons]
    rcases List.mem_cons.mp member with same | later
    · cases same
      exact ⟨[], _, rfl, rfl⟩
    · obtain ⟨before, after, split, place⟩ := ih later
      refine ⟨heldBy (word first) ++ before, after, ?_, ?_⟩
      · rw [split, List.append_assoc]
      · rw [place, List.length_append, Nat.add_assoc]

/-- What holds of neighbours holds of them with their numbers. -/
theorem isChain_numbered {fits : α → α → Prop} {things : List α} (chain : things.IsChain fits)
    (number : Nat) : (numbered word number things).IsChain fun first second =>
      first.2 ∈ things ∧ second.2 ∈ things ∧ fits first.2 second.2 := by
  -- That neighbours are among the things is carried along, as proofs about them ask for it.
  have inside : things.IsChain fun first second =>
      first ∈ things ∧ second ∈ things ∧ fits first second :=
    chain.imp_of_mem_imp fun first second here there fit => ⟨here, there, fit⟩
  nth_rewrite 3 [← @map_snd_numbered _ word number things] at inside
  rwa [List.isChain_map] at inside

end Numbered

/-- A piece with made-up names for the markers that it holds, counted from a number. -/
def Piece.hide (number : Nat) (piece : Piece) : Piece :=
  { piece with text := encodeWord number piece.text }

/-- A token with made-up names for the markers that its text holds, counted from a number. -/
def Token.hide (number : Nat) (token : Token) : Token :=
  { token with text := encodeWord number token.text }

/-- Pieces with made-up names for the markers that they hold. -/
def hidePieces (number : Nat) (found : List Piece) : List Piece :=
  (numbered Piece.text number found).map fun entry => entry.2.hide entry.1

/-- Pieces with made-up names for the markers that they hold, each set off as it was. -/
def hideItems (number : Nat) (items : Spelling) : Spelling :=
  (numbered (fun item => item.2.text) number items).map fun entry =>
    (entry.2.1, entry.2.2.hide entry.1)

/-- Tokens with made-up names for the markers that they hold. -/
def hideTokens (number : Nat) (tokens : List Token) : List Token :=
  (numbered Token.text number tokens).map fun entry => entry.2.hide entry.1

/-- Blanks are passed one by one. -/
theorem bindItems_blank {gap : Text} (blank : Text.Blank gap) (previous : Option Char)
    (rest : Text) :
    bindItems previous (gap ++ rest) =
      gap.map .plain ++ bindItems (gap.getLast?.or previous) rest := by
  -- None of the signs with which something begins is a blank.
  refine bindItems_inert (fun c member => ?_) previous rest
  have all : ∀ c ∈ ['\'', '"', '\x7b', '/', ':', '#', '&'], isBlank c = false := by decide
  have blanks := blank c member
  refine Bool.not_eq_true' _ |>.mpr (Bool.eq_false_iff.mpr fun sign => ?_)
  rw [all c (List.contains_iff_mem.mp sign)] at blanks
  cases blanks

/-- Behind a blank a colon may begin a marker. -/
theorem glues_of_blank {gap : Text} (blank : Text.Blank gap) {previous : Option Char}
    (free : gap = [] → previous.any gluesColon = false) :
    (gap.getLast?.or previous).any gluesColon = false := by
  rcases List.eq_nil_or_concat gap with rfl | ⟨front, c, rfl⟩
  · exact free rfl
  · -- What a colon is glued to is a character of a name.
    have blanks := blank c (by simp)
    have open' : gluesColon c = false := by
      refine Bool.eq_false_iff.mpr fun glues => ?_
      have name : isNameChar c = true := by
        simp only [gluesColon, Bool.or_eq_true, beq_iff_eq] at glues
        simp only [isNameChar, Bool.or_eq_true, beq_iff_eq]
        tauto
      rw [isBlank_of_isNameChar name] at blanks
      cases blanks
    simpa using open'

/-- The signs with which markers begin may touch two other signs only. -/
theorem eq_sign_of_mayTouch {word : Text} {c : Char} (sign : c ∈ [':', '#', '&'])
    (touch : mayTouch word c = true) : word = ['-'] ∨ word = ['('] := by
  -- The signs that may touch any other word are none of the three.
  have apart : ∀ c ∈ [':', '#', '&'], c ∉ ['(', ')', ',', '/', '\x7b'] := by decide
  by_contra other
  exact apart c sign (sign_of_mayTouch touch (not_or.mp other))

/-- A word that a colon may touch does not keep the colon from beginning a marker. -/
theorem glues_of_mayTouch {word : Text} (touch : mayTouch word ':' = true) :
    word.getLast?.any gluesColon = false := by
  -- A colon may follow at once behind a minus or an opening bracket, and neither glues it.
  rcases eq_sign_of_mayTouch (by simp) touch with rfl | rfl
  · rfl
  · rfl

/-- A text of words that stay apart is scanned word by word, and hidden word by word. -/
theorem Written.hide {items : Spelling} {text : Text}
    (written : Written (items.map (Prod.map id Piece.text)) text)
    (legible : ∀ item ∈ items, item.2.Legible)
    (apart : items.IsChain fun item next =>
      StandsOff (Prod.map id Piece.text item) (Prod.map id Piece.text next))
    (shut : items.IsChain fun item next => item.2.ShutTo next.2) {previous : Option Char}
    (free : ∀ item ∈ items.head?, item.1 = false → item.2.text.head? = some ':' →
      previous.any gluesColon = false) :
    foundIn (bindItems previous text) = items.flatMap (fun item => heldBy item.2.text) ∧
      ∀ number, Written ((hideItems number items).map (Prod.map id Piece.text))
        (encodeItems number (bindItems previous text)) := by
  -- By induction on the words, with the character in front of the text as it comes.
  induction items generalizing text previous with
  | nil =>
    cases written with
    | done blank =>
      have scanned := bindItems_blank blank previous []
      rw [List.append_nil, bindItems, List.append_nil] at scanned
      rw [scanned]
      refine ⟨foundIn_plain text, fun number => ?_⟩
      rw [encodeItems_plain]
      exact .done blank
  | cons item items ih =>
    obtain ⟨set, piece⟩ := item
    obtain ⟨here, others⟩ := List.forall_mem_cons.mp legible
    obtain ⟨next, apart⟩ := List.isChain_cons.mp apart
    obtain ⟨last, shut⟩ := List.isChain_cons.mp shut
    have touch : ∀ next ∈ items.head?, next.1 = false →
        ∀ c ∈ next.2.text.head?, mayTouch piece.text c = true :=
      fun second front bare => (next second front).resolve_left (by simp [bare])
    cases written with
    | @word _ _ gap more _ blank spaced rest =>
      -- A colon at the front of the next word touches a minus or a bracket, which lets it be.
      obtain ⟨found, hidden⟩ := @ih more rest others apart shut piece.text.getLast?
        fun second front bare colon => glues_of_mayTouch (touch second front bare ':' colon)
      have scanned : bindItems previous (gap ++ (piece.text ++ more)) =
          gap.map .plain ++ (bindItems none piece.text ++ bindItems piece.text.getLast? more) := by
        rw [bindItems_blank blank, here.bindItems_append ?_
          (rest.head (fun item member => (others item member).edges.1) touch)
          (Piece.Legible.shut rest others touch last)]
        -- In front of the word is a blank, or else what was in front of the text.
        intro colon
        exact glues_of_blank blank fun bare =>
          free (set, piece) rfl (by simpa [bare] using spaced) colon
      refine ⟨?_, fun number => ?_⟩
      · refine (congrArg foundIn scanned).trans ?_
        rw [foundIn_append, foundIn_append, foundIn_plain, found]
        rfl
      · have encoded := congrArg (encodeItems number) scanned
        rw [encodeItems_append, encodeItems_append, encodeItems_plain, foundIn_plain] at encoded
        exact encoded ▸ .word blank spaced (hidden _)

/-- Words that stand off do so with made-up names for the markers among them. -/
theorem StandsOff.hide {item next : Bool × Piece}
    (off : StandsOff (Prod.map id Piece.text item) (Prod.map id Piece.text next))
    (settled : Settled item.2.text) (settled' : Settled next.2.text) (number number' : Nat) :
    StandsOff (item.1, encodeWord number item.2.text) (next.1, encodeWord number' next.2.text) := by
  -- Each of the two words is replaced or not, and what may touch does so in every case.
  refine off.imp_right fun touch c front => ?_
  have touch : ∀ c ∈ next.2.text.head?, mayTouch item.2.text c = true := touch
  show mayTouch (encodeWord number item.2.text) c = true
  have front : c ∈ (encodeWord number' next.2.text).head? := front
  rcases settled'.cases number' with ⟨_, same'⟩ | ⟨_, marker', same'⟩
  · rw [same'] at front
    rcases settled.cases number with ⟨_, same⟩ | ⟨_, marker, same⟩
    · rw [same]
      exact touch c front
    · -- What may touch a marker may touch any word.
      have sign := sign_of_mayTouch (touch c front) marker.ne_sign
      simp only [mayTouch, List.contains_iff_mem.mpr sign, Bool.true_or]
  · -- What a marker touches any word may touch.
    rw [same', BindCut.head?_code] at front
    cases front
    obtain ⟨d, first, sign⟩ := marker'.begins
    rcases eq_sign_of_mayTouch sign (touch d first) with word | word
    · rw [word, encodeWord_of_none (by decide +kernel)]
      decide
    · rw [word, encodeWord_of_none (by decide +kernel)]
      decide

/-- A spelling of settled words is found to hold their markers, and is spelled without them. -/
theorem Spells.hide {items : Spelling} {text : Text} (spells : Spells items text)
    (legible : ∀ item ∈ items, item.2.Legible) (settled : ∀ item ∈ items, Settled item.2.text)
    (shut : items.IsChain fun item next => item.2.ShutTo next.2) :
    foundIn (bindItems none text) = items.flatMap (fun item => heldBy item.2.text) ∧
      Spells (hideItems 0 items) (encodeItems 0 (bindItems none text)) := by
  -- Nothing is in front of the text that a colon could be glued to.
  obtain ⟨found, written⟩ := @Written.hide items text spells.written legible spells.apart shut none
    fun _ _ _ _ => rfl
  refine ⟨found, written 0, ?_⟩
  rw [hideItems, List.isChain_map]
  refine (isChain_numbered spells.apart 0).imp ?_
  rintro ⟨number, item⟩ ⟨number', next⟩ ⟨here, there, off⟩
  exact off.hide (settled item here) (settled next there) number number'

/-- Pieces are hidden one by one, with the numbers counted on. -/
theorem hidePieces_append (number : Nat) (front back : List Piece) :
    hidePieces number (front ++ back) = hidePieces number front ++
      hidePieces (number + (front.flatMap fun piece => heldBy piece.text).length) back := by
  -- The numbering goes on in the second part behind the markers of the first.
  rw [hidePieces, numbered_append, List.map_append]
  rfl

/-- Pieces that hold no markers are left as they are. -/
theorem hidePieces_of_none {found : List Piece} (none : ∀ piece ∈ found, heldBy piece.text = [])
    (number : Nat) : hidePieces number found = found := by
  -- The number does not matter to a word that takes none.
  induction found generalizing number with
  | nil => rfl
  | cons piece found ih =>
    obtain ⟨here, others⟩ := List.forall_mem_cons.mp none
    have same : piece.hide number = piece := by
      rw [Piece.hide, encodeWord_of_none here]
    rw [hidePieces, numbered, List.map_cons, same]
    exact congrArg (piece :: ·) (ih others _)

/-- The pieces of a spelling are hidden as those of any list. -/
theorem map_hideItems (number : Nat) (items : Spelling) :
    (hideItems number items).map Prod.snd = hidePieces number (items.map Prod.snd) := by
  -- Whether a piece is set off plays no part in the count.
  induction items generalizing number with
  | nil => rfl
  | cons item items ih => exact congrArg (item.2.hide number :: ·) (ih _)

/-- The comments of a legible token hold no markers. -/
theorem Token.Legible.comments_hold_none {token : Token} (legible : token.Legible) :
    (∀ piece ∈ token.comments.map (Piece.mk .comment), heldBy piece.text = []) ∧
      (token.comments.map (Piece.mk .comment)).flatMap (fun piece => heldBy piece.text) = [] := by
  -- a comment is one literal, and a literal holds no marker
  have none : ∀ piece ∈ token.comments.map (Piece.mk .comment), heldBy piece.text = [] := by
    intro piece member
    obtain ⟨comment, own, rfl⟩ := List.mem_map.mp member
    exact heldBy_of_literal (legible.comments comment own).literal_of_comment.1
  exact ⟨none, List.flatMap_eq_nil_iff.mpr none⟩

/-- The markers that the texts of tokens hold. -/
def heldByAll (tokens : List Token) : List Text :=
  tokens.flatMap fun token => heldBy token.text

/-- The pieces of legible tokens hold the markers of the tokens. -/
theorem flatMap_heldBy_pieces {tokens : List Token} (legible : ∀ token ∈ tokens, token.Legible) :
    (tokens.flatMap Token.pieces).flatMap (fun piece => heldBy piece.text) = heldByAll tokens := by
  rw [List.flatMap_assoc]
  -- a token's own word holds what it holds; its comments add nothing
  refine List.flatMap_congr fun token member => ?_
  rw [Token.pieces, List.flatMap_append, (legible token member).comments_hold_none.2]
  simp

/-- The pieces of tokens are hidden token by token, as no comment holds markers. -/
theorem pieces_hideTokens {tokens : List Token} (legible : ∀ token ∈ tokens, token.Legible)
    (number : Nat) :
    (hideTokens number tokens).flatMap Token.pieces =
      hidePieces number (tokens.flatMap Token.pieces) := by
  -- By induction on the tokens, with the count as it stands in front of each.
  induction tokens generalizing number with
  | nil => rfl
  | cons token tokens ih =>
    obtain ⟨here, others⟩ := List.forall_mem_cons.mp legible
    rw [List.flatMap_cons, Token.pieces, List.append_assoc, hidePieces_append,
      here.comments_hold_none.2, hidePieces_of_none here.comments_hold_none.1,
      List.singleton_append]
    have next := ih others (number + (heldBy token.text).length)
    rw [hideTokens, numbered, List.map_cons, List.flatMap_cons, Token.pieces, List.append_assoc]
    exact congrArg (fun rest => token.comments.map (Piece.mk .comment) ++
      (⟨token.kind, encodeWord number token.text⟩ :: rest)) next

/-- A legible token that is settled is whole with a made-up name in the place of its marker. -/
theorem Token.Legible.whole_hide {token : Token} (legible : token.Legible)
    (other : token.kind ≠ .comment) (settled : Settled token.text) (number : Nat) :
    (token.hide number).Whole := by
  refine ⟨other, legible.leaf, ?_, legible.comments⟩
  show Piece.Whole ⟨token.kind, encodeWord number token.text⟩
  rcases settled.cases number with ⟨none, same⟩ | ⟨_, marker, same⟩
  · rw [same]
    exact legible.text.whole_of_none none
  · -- A marker is a name, and so is what stands for it.
    have kind : token.kind = .name := legible.text.name_of_marker marker
    rw [same, kind]
    exact (BindCut.foreign_code number).whole

/-- Settled tokens that are apart stay apart with made-up names in the place of markers. -/
theorem Token.Apart.hide {token next : Token} (apart : token.Apart next)
    (settled : Settled token.text) (settled' : Settled next.text) (number number' : Nat) :
    (token.hide number).Apart (next.hide number') := by
  intro bare
  show joins (encodeWord number token.text) (encodeWord number' next.text) = false
  -- A made-up name has an underscore, and so is part of no keyword.
  rcases settled.cases number with ⟨_, same⟩ | ⟨_, _, same⟩
  · rcases settled'.cases number' with ⟨_, same'⟩ | ⟨_, _, same'⟩
    · rw [same, same']
      exact apart bare
    · rw [same']
      exact ((BindCut.foreign_code number').not_joins _).2
  · rw [same]
    exact ((BindCut.foreign_code number).not_joins _).1

/-- A settled token is put back, if no name has been taken for a made-up one. -/
theorem restore_hide {tokens : List Token} {token : Token} {number : Nat}
    (member : (number, token) ∈ numbered Token.text 0 tokens) (legible : token.Legible)
    (settled : Settled token.text)
    (fresh : token.kind = .name → ∀ place < (heldByAll tokens).length,
      token.text ≠ BindCut.code place) :
    (Codec.ofMarkers (heldByAll tokens)).restore (token.hide number) = token := by
  -- The token is one that was replaced by its number's name, or one that was left alone.
  rcases settled.cases number with ⟨_, same⟩ | ⟨own, marker, same⟩
  · -- The text of a token without markers is looked up, and is no made-up name.
    have unchanged : token.hide number = token := by
      cases token
      exact congrArg (Token.mk _ · _ _) same
    rw [unchanged]
    rcases Codec.restore_cases _ token with ⟨kept, _⟩ | ⟨place, marker, kind, text, present, _⟩
    · exact kept
    · obtain ⟨within, _⟩ := List.getElem?_eq_some_iff.mp present
      exact absurd text (fresh kind place within)
  · -- The made-up name of a marker has the place of the marker for its number.
    obtain ⟨before, after, split, place⟩ := exists_of_mem_numbered member
    have present : (heldByAll tokens)[number]? = some token.text := by
      rw [heldByAll, split, own, place, Nat.zero_add, List.getElem?_append_right (Nat.le_refl _), Nat.sub_self]
      rfl
    have found := Codec.markerOf?_eq_some.mpr ⟨number, present, rfl⟩
    have kind : token.kind = .name := legible.text.name_of_marker marker
    rw [Token.hide, same, Codec.restore, if_pos kind]
    simp only [found]
    cases token
    rfl

end SqlLayout
