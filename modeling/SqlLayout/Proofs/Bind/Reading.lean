import SqlLayout.Proofs.Bind.Hidden
import SqlLayout.Proofs.Lexing.Within
import SqlLayout.Proofs.Parsing.Leaves

/-! Reading around markers: a text is read as the texts between its markers, with the markers in it. -/

namespace SqlLayout

namespace BindCut

/-- What the texts between markers say by themselves, with the markers between them as names. -/
def readingFrom : (segments : List (Text × Text)) → (tail : Text) → List Piece
  | [], tail => tokenPieces tail
  | (before, marker) :: segments, tail =>
    tokenPieces before ++ ⟨.name, marker⟩ :: readingFrom segments tail

/-- What a text says when every marker in it is a name of its own. -/
def reading (cut : BindCut) : List Piece :=
  readingFrom cut.segments cut.tail

/-- Segments with made-up names for their markers, counted from a number. -/
def coded : (number : Nat) → (segments : List (Text × Text)) → List (Text × Text)
  | _, [] => []
  | number, (before, _) :: segments => (before, code number) :: coded (number + 1) segments

/-- Whether no name touches a made-up name, once all is in upper case. -/
def detachedFrom : (number : Nat) → (segments : List (Text × Text)) → (tail : Text) → Bool
  | _, [], _ => true
  | number, (before, _) :: segments, tail =>
    wordEdge true before.upper && endsWord (encodeFrom (number + 1) segments tail).upper &&
      detachedFrom (number + 1) segments tail

/-- Whether no name touches a marker, once all is in upper case. -/
def Detached (cut : BindCut) : Prop :=
  detachedFrom 0 cut.segments cut.tail = true

instance (cut : BindCut) : Decidable cut.Detached :=
  inferInstanceAs (Decidable (_ = _))

/-- Whether no literal span of the encoded text reaches into a made-up name. -/
def ClearFrom : (number : Nat) → (segments : List (Text × Text)) → (tail : Text) → Prop
  | _, [], _ => True
  | number, (before, _) :: segments, tail =>
    Clear (code number ++ encodeFrom (number + 1) segments tail) before ∧
      ClearFrom (number + 1) segments tail

/-- The encoded text is read as the texts between the made-up names, with these between them. -/
theorem tokenPieces_encodeFrom {number : Nat} {segments : List (Text × Text)} {tail : Text}
    (clear : ClearFrom number segments tail)
    (detached : detachedFrom number segments tail = true) :
    tokenPieces (encodeFrom number segments tail) = readingFrom (coded number segments) tail := by
  -- The first made-up name parts the text, and the rest is parted in turn.
  induction segments generalizing number with
  | nil => rfl
  | cons segment segments ih =>
    obtain ⟨before, marker⟩ := segment
    simp only [detachedFrom, Bool.and_eq_true] at detached
    obtain ⟨⟨edge, ends⟩, others⟩ := detached
    have parted := (foreign_code number).flaggedPieces_append clear.1 edge ends
    rw [encodeFrom, List.append_assoc, tokenPieces_eq, parted, List.filter_append,
      List.filter_cons_of_pos (by simp), ← tokenPieces_eq, ← tokenPieces_eq, ih clear.2 others]
    rfl

/-- A text put in front of a cut is clear of the first made-up name, if it is clear of what follows. -/
theorem clearFrom_push {cut : BindCut} {number : Nat} {text : Text}
    (clear : ClearFrom number cut.segments cut.tail)
    (step : ∀ front back, encodeFrom number cut.segments cut.tail = front ++ back →
      Clear back front → Clear back (text ++ front)) :
    ClearFrom number (cut.push text).segments (cut.push text).tail := by
  -- The text goes in front of the first segment, and the others are as they were.
  obtain ⟨_ | ⟨⟨before, marker⟩, segments⟩, tail⟩ := cut
  · exact trivial
  · have split : encodeFrom number ((before, marker) :: segments) tail =
        before ++ (code number ++ encodeFrom (number + 1) segments tail) := by
      rw [encodeFrom, List.append_assoc]
    exact ⟨step before _ split clear.1, clear.2⟩

end BindCut

/-- No literal span reaches into the made-up name of a marker. -/
theorem clearFrom_cutOf (previous : Option Char) (text : Text) (number : Nat) :
    BindCut.ClearFrom number (cutOf (bindItems previous text)).segments
      (cutOf (bindItems previous text)).tail := by
  -- What the search passed in the text is passed in the encoded text as well.
  fun_induction bindItems previous text generalizing number with
  | case1 => exact trivial
  | case2 previous c rest piece after found ih =>
    have again := (masks_encodeItems piece.text.getLast? after number).literal?_some found
    refine BindCut.clearFrom_push (ih number) fun front back split clear => ?_
    rw [encodeFrom_cutOf] at split
    rw [split] at again
    exact .span again clear
  | case3 previous c rest plain marker after found ih => exact ⟨.nil, ih (number + 1)⟩
  | case4 previous c rest plain unmarked ih =>
    have again := (masks_encodeItems (some c) rest number).literal?_none plain
    refine BindCut.clearFrom_push (ih number) fun front back split clear => ?_
    rw [encodeFrom_cutOf] at split
    rw [split] at again
    exact .plain again clear

namespace Codec

/-- A piece with its marker put back, if it is a made-up name. -/
def restorePiece (codec : Codec) (piece : Piece) : Piece :=
  if piece.kind = .name then { piece with text := (codec.markerOf? piece.text).getD piece.text }
  else piece

/-- What a token says with its marker put back. -/
theorem piece_restore (codec : Codec) (token : Token) :
    (codec.restore token).piece = codec.restorePiece token.piece := by
  -- Comments and what is below a token play no part in the lookup.
  by_cases name : token.kind = .name
  · have same : token.piece.kind = .name := name
    rw [restore, restorePiece, if_pos name, if_pos same]
    show _ = Piece.mk token.kind ((codec.markerOf? token.text).getD token.text)
    rcases codec.markerOf? token.text with _ | marker
    · rfl
    · rfl
  · have other : token.piece.kind ≠ .name := name
    rw [restore, restorePiece, if_neg name, if_neg other]

/-- A made-up name becomes its marker. -/
theorem restorePiece_code {found : List Text} {number : Nat} {marker : Text}
    (present : found[number]? = some marker) :
    (ofMarkers found).restorePiece ⟨.name, BindCut.code number⟩ = ⟨.name, marker⟩ := by
  -- The code's number leads back to its marker.
  have lookup := markerOf?_eq_some.mpr ⟨number, present, rfl⟩
  simp [restorePiece, lookup]

/-- A piece is left as it is exactly if it is none of the made-up names. -/
theorem restorePiece_eq_self {found : List Text} (markers : ∀ marker ∈ found, IsMarker marker)
    (piece : Piece) :
    (ofMarkers found).restorePiece piece = piece ↔
      (piece.kind = .name → ∀ number < found.length, piece.text ≠ BindCut.code number) := by
  -- A name is looked up by its text, and what is found there is a marker.
  obtain ⟨kind, text⟩ := piece
  unfold restorePiece
  split
  · rename_i name
    rcases lookup : (ofMarkers found).markerOf? text with _ | marker
    · refine iff_of_true rfl ?_
      rintro _ number within rfl
      have present := markerOf?_eq_some.mpr ⟨number, List.getElem?_eq_getElem within, rfl⟩
      rw [lookup] at present
      cases present
    · obtain ⟨number, present, rfl⟩ := markerOf?_eq_some.mp lookup
      refine iff_of_false ?_ ?_
      · -- A marker begins with a sign, and a made-up name with an underscore.
        intro same
        have text : marker = BindCut.code number := congrArg Piece.text same
        obtain ⟨c, front, sign⟩ := (markers marker (List.mem_of_getElem? present)).begins
        rw [text, BindCut.head?_code] at front
        cases front
        exact absurd sign (by decide)
      · intro fresh
        exact fresh name number (List.getElem?_eq_some_iff.mp present).1 rfl
  · rename_i other
    exact iff_of_true rfl fun name => absurd name other

end Codec

namespace BindCut

/-- The texts between the markers. -/
def between (cut : BindCut) : List Text :=
  cut.segments.map Prod.fst ++ [cut.tail]

/-- A list is left as it is exactly if each of its members is. -/
theorem map_eq_self_iff {α : Type} {change : α → α} {items : List α} :
    items.map change = items ↔ ∀ item ∈ items, change item = item := by
  -- The list is itself mapped by the identity, and the two maps agree on every item.
  conv_lhs => rhs; rw [← List.map_id' items]
  exact List.map_inj_left

/-- Markers are put back into a reading exactly if nothing else in it is changed. -/
theorem map_restorePiece_readingFrom {found : List Text} {number : Nat}
    {segments : List (Text × Text)} (tail : Text)
    (present : ∀ place, (segments.map Prod.snd)[place]? = found[number + place]?) :
    (readingFrom (coded number segments) tail).map (Codec.ofMarkers found).restorePiece =
        readingFrom segments tail ↔
      ∀ text ∈ segments.map Prod.fst ++ [tail], ∀ piece ∈ tokenPieces text,
        (Codec.ofMarkers found).restorePiece piece = piece := by
  -- The number of the first marker is the place of the others, counted on.
  induction segments generalizing number with
  | nil => simp [coded, readingFrom, map_eq_self_iff]
  | cons segment segments ih =>
    obtain ⟨before, marker⟩ := segment
    have here : found[number]? = some marker := (present 0).symm
    have later : ∀ place, (segments.map Prod.snd)[place]? = found[number + 1 + place]? := by
      intro place
      rw [Nat.add_assoc, Nat.add_comm 1]
      exact present (place + 1)
    rw [coded, readingFrom, List.map_append, List.map_cons, Codec.restorePiece_code here,
      readingFrom, List.map_cons, List.cons_append, List.forall_mem_cons]
    constructor
    · intro same
      obtain ⟨front, back⟩ := List.append_inj same (List.length_map _)
      exact ⟨map_eq_self_iff.mp front, (ih later).mp (List.cons.inj back).2⟩
    · rintro ⟨front, back⟩
      rw [map_eq_self_iff.mpr front, (ih later).mpr back]

/-- Whether no name between the markers is one of the made-up names. -/
def Fresh (cut : BindCut) : Prop :=
  ∀ text ∈ cut.between, ∀ piece ∈ tokenPieces text, piece.kind = .name →
    ∀ number < cut.segments.length, piece.text ≠ code number

end BindCut

/-- What the tokens of a text say are the tokens of its encoding, with the markers put back. -/
theorem map_piece_tokens (sql : Text) :
    (BindSyntax.generic.tokens sql).map Token.piece =
      (tokenPieces (BindSyntax.generic.cut sql).encoded).map
        (Codec.ofMarkers (BindSyntax.generic.cut sql).markers).restorePiece := by
  -- restoring moves texts only, so the pieces restore one by one
  have tokens : BindSyntax.generic.tokens sql =
      (tokenize (BindSyntax.generic.cut sql).encoded).map
        (Codec.ofMarkers (BindSyntax.generic.cut sql).markers).restore := by
    rw [BindSyntax.tokens, Codec.decode, BindCut.codec]
  rw [tokens, tokenPieces, List.map_map, List.map_map]
  exact List.map_congr_left fun token _ => Codec.piece_restore _ token

/-- The markers of a text are markers. -/
theorem isMarker_of_mem_markers {sql : Text} :
    ∀ marker ∈ (BindSyntax.generic.cut sql).markers, IsMarker marker := by
  -- The markers of the cut are those that the search finds.
  rw [cut_generic, markers_cutOf]
  exact isMarker_of_foundIn

/-- Leaves say what the tokens say that they were read as. -/
theorem map_piece_leaves {leaves : List (Token × Bool)} {taken : List Token}
    (read : List.Forall₂ Token.ReadAs leaves taken) :
    leaves.map (fun leaf => leaf.1.piece) = taken.map Token.piece := by
  induction read with
  | nil => rfl
  | @cons leaf token _ _ here _ ih =>
    -- A warning is one more comment, and says nothing else.
    have same : leaf.1.piece = token.piece := by
      obtain ⟨_, dangles⟩ := leaf
      cases dangles with
      | true =>
        cases here
        rfl
      | false =>
        cases here
        rfl
    rw [List.map_cons, List.map_cons, same, ih]

/-- The leaves of a statement say what the first of the tokens say. -/
theorem leaves_isPrefix (sql : Text) :
    (parse sql).statementLeaves.map (fun leaf => leaf.1.piece) <+:
      (BindSyntax.generic.tokens sql).map Token.piece := by
  -- Residue takes the tokens behind those that the statement took.
  have lexical : ∀ token ∈ BindSyntax.generic.tokens sql,
      token.kind.isLexical = true ∧ token.children = [] := by
    intro token member
    obtain ⟨legible, _⟩ := (tokens_legible sql).1 token member
    exact ⟨legible.text.lexical, legible.leaf⟩
  obtain ⟨_, taken, left, split, _, _, _, leaves, _⟩ := parseTokens_parts _ lexical
  have result : parse sql = (parseTokens (BindSyntax.generic.tokens sql)).root := by
    rw [parse, BindSyntax.parse]
  rw [result, map_piece_leaves leaves, split, List.map_append]
  exact List.prefix_append _ _

/-- The tokens of a text are its reading exactly if no name in it is a made-up one. -/
theorem map_piece_tokens_eq_reading {sql : Text}
    (detached : (BindSyntax.generic.cut sql).Detached) :
    (BindSyntax.generic.tokens sql).map Token.piece = (BindSyntax.generic.cut sql).reading ↔
      (BindSyntax.generic.cut sql).Fresh := by
  -- The encoded text is parted at its made-up names, and then these are looked up.
  have clear := clearFrom_cutOf none sql 0
  rw [← cut_generic] at clear
  have length : (BindSyntax.generic.cut sql).markers.length =
      (BindSyntax.generic.cut sql).segments.length := List.length_map _
  have numbered : ∀ place, ((BindSyntax.generic.cut sql).segments.map Prod.snd)[place]? =
      (BindSyntax.generic.cut sql).markers[0 + place]? := by
    intro place
    rw [Nat.zero_add]
    rfl
  rw [map_piece_tokens, BindCut.encoded, BindCut.tokenPieces_encodeFrom clear detached,
    BindCut.reading, BindCut.map_restorePiece_readingFrom _ numbered]
  simp only [Codec.restorePiece_eq_self isMarker_of_mem_markers, length]
  rfl

/--
Putting markers back leaves the names of a text alone, unless one of them is a made-up name.

The tokens are those of the texts between the markers, with the markers between them,
exactly if none of these texts has a name that was made up for a marker.
The leaves of the tree are the first of these tokens.
-/
theorem tokens_eq_reading_iff (sql : Text) (detached : (BindSyntax.generic.cut sql).Detached) :
    ((BindSyntax.generic.tokens sql).map Token.piece = (BindSyntax.generic.cut sql).reading ↔
      (BindSyntax.generic.cut sql).Fresh) ∧
    (parse sql).statementLeaves.map (fun leaf => leaf.1.piece) <+:
      (BindSyntax.generic.tokens sql).map Token.piece :=
  -- Which tokens there are and which of them the tree holds are told apart.
  ⟨map_piece_tokens_eq_reading detached, leaves_isPrefix sql⟩

/-- There is such a text, with a name that would be made up for a second marker. -/
theorem tokens_eq_reading_second :
    let sql := "SELECT ___bind1, :x".toList
    (BindSyntax.generic.cut sql).Fresh ∧
      (BindSyntax.generic.tokens sql).map Token.piece = (BindSyntax.generic.cut sql).reading := by
  intro sql
  -- the name in the marker style is no number the cut handed out, so nothing is taken for it
  have detached : (BindSyntax.generic.cut sql).Detached := by decide +kernel
  have fresh : (BindSyntax.generic.cut sql).Fresh := by
    unfold BindCut.Fresh
    decide +kernel
  exact ⟨fresh, (tokens_eq_reading_iff sql detached).1.mpr fresh⟩

/-- A name that was made up for a marker is taken for it, where the text has the name itself. -/
theorem tokens_ne_reading_captured :
    let sql := "SELECT ___BIND0, :x".toList
    (BindSyntax.generic.cut sql).Detached ∧
      (BindSyntax.generic.cut sql).reading =
        [⟨.partToken, "SELECT".toList⟩, ⟨.name, "___BIND0".toList⟩, ⟨.listSeparator, [',']⟩,
          ⟨.name, ":x".toList⟩] ∧
      (BindSyntax.generic.tokens sql).map Token.piece =
        [⟨.partToken, "SELECT".toList⟩, ⟨.name, ":x".toList⟩, ⟨.listSeparator, [',']⟩,
          ⟨.name, ":x".toList⟩] := by
  -- The reading and the tokens are both computed from the text.
  decide +kernel

namespace BindCut

/-- What a reading says is said between the markers, or is a marker. -/
theorem mem_readingFrom {segments : List (Text × Text)} {tail : Text} {piece : Piece}
    (member : piece ∈ readingFrom segments tail) :
    (∃ text ∈ segments.map Prod.fst ++ [tail], piece ∈ tokenPieces text) ∨
      ∃ marker ∈ segments.map Prod.snd, piece = ⟨.name, marker⟩ := by
  -- By induction on the segments, each of which is a text and its marker.
  induction segments with
  | nil => exact .inl ⟨tail, by simp, member⟩
  | cons segment segments ih =>
    obtain ⟨before, marker⟩ := segment
    rcases List.mem_append.mp member with front | back
    · exact .inl ⟨before, by simp, front⟩
    · rcases List.mem_cons.mp back with here | later
      · exact .inr ⟨marker, by simp, here⟩
      · refine (ih later).imp ?_ ?_
        · rintro ⟨text, among, inner⟩
          exact ⟨text, .tail _ among, inner⟩
        · rintro ⟨other, among, same⟩
          exact ⟨other, .tail _ among, same⟩

/-- The markers are among the names of a reading, in their order. -/
theorem sublist_readingFrom (segments : List (Text × Text)) (tail : Text) :
    (segments.map Prod.snd).Sublist
      (((readingFrom segments tail).filter fun piece => piece.kind = .name).map Piece.text) := by
  -- each segment contributes its marker, and what lies before it may contribute names of its own
  induction segments with
  | nil => exact List.nil_sublist _
  | cons segment segments ih =>
    obtain ⟨before, marker⟩ := segment
    rw [readingFrom, List.filter_append, List.filter_cons_of_pos (by simp), List.map_append,
      List.map_cons, List.map_cons]
    exact (ih.cons_cons marker).trans (List.sublist_append_right _ _)

end BindCut

/-- The texts between the markers of a text and the markers themselves stand in the text. -/
theorem isInfix_of_cut {sql part : Text}
    (member : part ∈ (BindSyntax.generic.cut sql).between ∨
      part ∈ (BindSyntax.generic.cut sql).markers) : part <:+: sql := by
  -- The segments and the tail make up the text.
  have whole := flatten_cutOf (bindItems none sql)
  rw [flatMap_bindItems, ← cut_generic] at whole
  generalize BindSyntax.generic.cut sql = cut at member whole
  rw [← whole]
  have inside : ∀ segment ∈ cut.segments, segment.1 ++ segment.2 <:+:
      (cut.segments.flatMap fun segment => segment.1 ++ segment.2) ++ cut.tail := by
    intro segment among
    exact List.infix_append_of_infix_left (List.infix_of_mem_flatten (List.mem_map_of_mem among))
  rcases member with between | marker
  · rcases List.mem_append.mp between with before | tail
    · obtain ⟨segment, among, rfl⟩ := List.mem_map.mp before
      exact List.infix_append_left.trans (inside segment among)
    · rw [List.mem_singleton.mp tail]
      exact List.infix_append_right
  · obtain ⟨segment, among, rfl⟩ := List.mem_map.mp marker
    exact List.infix_append_right.trans (inside segment among)

/-- A text whose markers all come through, and of whose made-up names nothing is seen. -/
structure KeepsMarkers (sql : Text) : Prop where
  /-- The markers are names of their own, in the order of the text. -/
  kept : (BindSyntax.generic.cut sql).markers.Sublist
    (((BindSyntax.generic.tokens sql).filter fun token => token.kind = .name).map Token.text)
  /-- No token has the fixed part of the made-up names in it. -/
  clean : ∀ token ∈ BindSyntax.generic.tokens sql, ¬"___BIND".toList <:+: token.text

/-- The words between the markers of a text have the fixed part only if the text has it. -/
theorem isInfix_of_mem_tokenPieces {sql text : Text} {piece : Piece}
    (between : text ∈ (BindSyntax.generic.cut sql).between) (member : piece ∈ tokenPieces text)
    (within : "___BIND".toList <:+: piece.text) : "___BIND".toList <:+: sql.upper := by
  -- the only piece the clean-up adds is a known one, so what holds the prefix was written
  rw [tokenPieces_eq] at member
  obtain ⟨among, known⟩ := List.mem_filter.mp member
  have held := isInfix_of_mem_flaggedPieces (by decide +kernel) (by decide +kernel) among
    (by simpa using known) within
  exact held.trans (isInfix_upper (isInfix_of_cut (.inl between)))

/--
Every marker of a text comes through as a name of its own, if no name touches it.

The text has the fixed part of the made-up names nowhere, in whatever case.
-/
theorem keepsMarkers (sql : Text) (absent : ¬"___BIND".toList <:+: sql.upper)
    (detached : (BindSyntax.generic.cut sql).Detached) : KeepsMarkers sql := by
  -- A made-up name in the text would bring the fixed part with it, so none is there.
  have fresh : (BindSyntax.generic.cut sql).Fresh := by
    intro text between piece member _ number _ same
    refine absent (isInfix_of_mem_tokenPieces between member ?_)
    rw [same]
    exact List.infix_append_left
  have same := (map_piece_tokens_eq_reading detached).mpr fresh
  refine ⟨?_, ?_⟩
  · have names : ((BindSyntax.generic.tokens sql).filter fun token => token.kind = .name).map
        Token.text = (((BindSyntax.generic.tokens sql).map Token.piece).filter
          fun piece => piece.kind = .name).map Piece.text := by
      rw [List.filter_map, List.map_map]
      rfl
    rw [names, same]
    exact BindCut.sublist_readingFrom _ _
  · intro token member within
    have among : token.piece ∈ (BindSyntax.generic.cut sql).reading := by
      rw [← same]
      exact List.mem_map_of_mem member
    rcases BindCut.mem_readingFrom among with ⟨text, between, inner⟩ | ⟨marker, found, piece⟩
    · exact absent (isInfix_of_mem_tokenPieces between inner within)
    · -- A marker is a part of the text as it was written.
      have text : token.text = marker := congrArg Piece.text piece
      rw [text] at within
      have upper := isInfix_upper (within.trans (isInfix_of_cut (.inr found)))
      have capital : Text.upper "___BIND".toList = "___BIND".toList := by decide +kernel
      rw [capital] at upper
      exact absent upper

/-- There is such a text, with a marker of each sort. -/
theorem keepsMarkers_sorts :
    (BindSyntax.generic.cut "SELECT :x, :\x7by\x7d, :[t]z, #v#, &w& FROM a".toList).markers =
        [":x".toList, ":\x7by\x7d".toList, ":[t]z".toList, "#v#".toList, "&w&".toList] ∧
      KeepsMarkers "SELECT :x, :\x7by\x7d, :[t]z, #v#, &w& FROM a".toList :=
  -- The five forms are found, and no name character stands next to any of them.
  ⟨by decide +kernel, keepsMarkers _ (by decide +kernel) (by decide +kernel)⟩

/-- A marker right behind a name is lost in it, and its made-up name is seen. -/
theorem not_keepsMarkers_touched :
    let sql : Text := "SELECT A.:x".toList
    ¬"___BIND".toList <:+: sql.upper ∧
      (BindSyntax.generic.cut sql).markers = [":x".toList] ∧
      (BindSyntax.generic.tokens sql).map Token.piece =
        [⟨.partToken, "SELECT".toList⟩, ⟨.name, "A.___BIND0".toList⟩] ∧
      ¬KeepsMarkers sql := by
  -- What there is to see is computed; that it breaks the law follows from the one token.
  intro sql
  have tokens : (BindSyntax.generic.tokens sql).map Token.piece =
      [⟨.partToken, "SELECT".toList⟩, ⟨.name, "A.___BIND0".toList⟩] := by decide +kernel
  refine ⟨by decide +kernel, by decide +kernel, tokens, fun keeps => ?_⟩
  -- the marker is glued to the qualified name, and the name that results is no replacement
  have member : (⟨.name, "A.___BIND0".toList⟩ : Piece) ∈
      (BindSyntax.generic.tokens sql).map Token.piece := by
    rw [tokens]
    simp
  obtain ⟨token, among, same⟩ := List.mem_map.mp member
  have text : token.text = "A.___BIND0".toList := congrArg Piece.text same
  exact keeps.clean token among (by rw [text]; decide +kernel)

end SqlLayout
