import SqlLayout.Proofs.Lexing.Trim

/-! Sweeps made one after the other cut a text as one pass does that tries them in order. -/

namespace SqlLayout

/-- Whether a word may begin behind a text, given whether one may begin in front of it. -/
def wordEdge : (boundary : Bool) → (text : Text) → Bool
  | boundary, [] => boundary
  | _, c :: rest => wordEdge (!isNameChar c) rest

/-- The first place in a text at which something is met, with the text in front of it. -/
def seek {α : Type} (front : Bool → Text → Option α) : Bool → Text → Option (Text × α)
  | _, [] => none
  | boundary, c :: rest =>
    match front boundary (c :: rest) with
    | some found => some ([], found)
    | none => (seek front (!isNameChar c) rest).map fun (before, found) => (c :: before, found)

/-- Behind nothing a word may begin where one might before. -/
@[simp] theorem wordEdge_nil (boundary : Bool) : wordEdge boundary [] = boundary := rfl

/-- Behind more text only the last of it counts. -/
theorem wordEdge_cons (boundary : Bool) (c : Char) (text : Text) :
    wordEdge boundary (c :: text) = wordEdge (!isNameChar c) text :=
  rfl

/-- The edge behind two texts is the edge behind the second, seen from behind the first. -/
theorem wordEdge_append (boundary : Bool) (front back : Text) :
    wordEdge boundary (front ++ back) = wordEdge (wordEdge boundary front) back := by
  -- Only the last character counts, and the edge is handed on from character to character.
  induction front generalizing boundary with
  | nil => rfl
  | cons c front ih => rw [List.cons_append, wordEdge_cons, wordEdge_cons, ih]

/-- Behind a text that is not empty it makes no difference what stood in front of it. -/
theorem wordEdge_eq {text : Text} (solid : text ≠ []) (boundary other : Bool) :
    wordEdge boundary text = wordEdge other text := by
  -- With a character in between, what stood in front of it no longer counts.
  obtain ⟨c, rest, rfl⟩ := List.exists_cons_of_ne_nil solid
  rw [wordEdge_cons, wordEdge_cons]

section Seek

variable {α : Type} {front : Bool → Text → Option α}

/-- Nothing is met in front of a place exactly when nothing is at the first character or behind it. -/
theorem none_before_cons {boundary : Bool} {c : Char} {before here : Text} :
    (∀ first second, c :: before = first ++ second → second ≠ [] →
      front (wordEdge boundary first) (second ++ here) = none) ↔
    front boundary (c :: (before ++ here)) = none ∧
      ∀ first second, before = first ++ second → second ≠ [] →
        front (wordEdge (!isNameChar c) first) (second ++ here) = none := by
  constructor
  · intro none
    -- what holds at every place holds at the first one, and at those behind `c`
    refine ⟨none [] (c :: before) rfl nofun, fun first second split filled => ?_⟩
    have later := none (c :: first) second (by rw [split]; rfl) filled
    rwa [wordEdge_cons] at later
  · rintro ⟨start, later⟩ first second split filled
    cases first with
    | nil =>
      cases split
      exact start
    | cons d first =>
      obtain ⟨rfl, rfl⟩ := List.cons.inj split
      rw [wordEdge_cons]
      exact later first second rfl filled

/-- Nothing is met in a text when it is met at no place in it. -/
theorem seek_eq_none {boundary : Bool} {text : Text} :
    seek front boundary text = none ↔
      ∀ before here, text = before ++ here → here ≠ [] →
        front (wordEdge boundary before) here = none := by
  -- on the text: what is met is met at its front or in the rest of it
  induction text generalizing boundary with
  | nil =>
    refine iff_of_true rfl ?_
    intro before here split solid
    exact absurd (List.append_eq_nil_iff.mp split.symm).2 solid
  | cons c rest ih =>
    have parts := @none_before_cons _ front boundary c rest []
    simp only [List.append_nil] at parts
    rw [seek, parts]
    rcases met : front boundary (c :: rest) with _ | found
    · simp [ih]
    · simp

/-- What is met first in a text is met there, and at no place before. -/
theorem seek_eq_some {boundary : Bool} {text before : Text} {found : α} :
    seek front boundary text = some (before, found) ↔
      ∃ here, text = before ++ here ∧ here ≠ [] ∧
        front (wordEdge boundary before) here = some found ∧
        ∀ first second, before = first ++ second → second ≠ [] →
          front (wordEdge boundary first) (second ++ here) = none := by
  -- One character at a time: what stands in front is a match, or the search goes on behind it.
  induction text generalizing boundary before with
  | nil =>
    refine iff_of_false nofun ?_
    rintro ⟨here, split, solid, -⟩
    exact solid (List.append_eq_nil_iff.mp split.symm).2
  | cons c rest ih =>
    rw [seek]
    rcases met : front boundary (c :: rest) with _ | other
    · -- nothing is met at the front, so what is met first lies in the rest
      simp only [Option.map_eq_some_iff, Prod.exists, Prod.mk.injEq]
      constructor
      · rintro ⟨inner, value, deeper, rfl, rfl⟩
        obtain ⟨here, rfl, solid, last, none⟩ := ih.mp deeper
        exact ⟨here, rfl, solid, by rwa [wordEdge_cons], none_before_cons.mpr ⟨met, none⟩⟩
      · rintro ⟨here, split, solid, last, none⟩
        cases before with
        | nil =>
          cases split
          rw [wordEdge_nil, met] at last
          cases last
        | cons d before =>
          obtain ⟨rfl, rfl⟩ := List.cons.inj split
          rw [wordEdge_cons] at last
          have later := (none_before_cons.mp none).2
          exact ⟨before, found, ih.mpr ⟨here, rfl, solid, last, later⟩, rfl, rfl⟩
    · -- the first thing met is at the front, and no place lies before it
      simp only [Option.some.injEq, Prod.mk.injEq]
      constructor
      · rintro ⟨rfl, rfl⟩
        refine ⟨c :: rest, rfl, nofun, met, ?_⟩
        intro first second split some
        exact absurd (List.append_eq_nil_iff.mp split.symm).2 some
      · rintro ⟨here, split, solid, last, none⟩
        cases before with
        | nil =>
          cases split
          rw [wordEdge_nil, met] at last
          exact ⟨rfl, Option.some.inj last⟩
        | cons d before =>
          have earlier := (none_before_cons.mp none).1
          rw [← List.cons_append, ← split, met] at earlier
          cases earlier

/-- A text in front of which nothing is met is passed over. -/
theorem seek_append_of_none {boundary : Bool} {passed text : Text}
    (none : ∀ first second, passed = first ++ second → second ≠ [] →
      front (wordEdge boundary first) (second ++ text) = none) :
    seek front boundary (passed ++ text) = (seek front (wordEdge boundary passed) text).map
      fun (before, found) => (passed ++ before, found) := by
  -- At every place in the part that is passed the search finds nothing and goes on.
  induction passed generalizing boundary with
  | nil => simp
  | cons c passed ih =>
    obtain ⟨here, later⟩ := none_before_cons.mp none
    rw [List.cons_append, seek, here, ih later, wordEdge_cons, Option.map_map]
    rfl

end Seek

/-- The first match of a pattern is what is met first of it. -/
theorem Pattern.find?_eq_seek (pattern : Pattern) (boundary : Bool) (text : Text) :
    pattern.find? boundary text = (seek pattern.here? boundary text).map
      fun (before, word, after) => ⟨before, word, after⟩ := by
  -- Both look at one place after the other and keep what they pass.
  induction text generalizing boundary with
  | nil => rfl
  | cons c rest ih =>
    rw [Pattern.find?, seek]
    rcases pattern.here? boundary (c :: rest) with _ | ⟨word, after⟩
    · simp only
      rw [ih]
      rcases seek pattern.here? (!isNameChar c) rest with _ | ⟨before, word, after⟩
      · rfl
      · rfl
    · rfl

/-- A text cut at the matches of a sweep, by what is met first of it. -/
theorem Sweep.split_eq (sweep : Sweep) (boundary : Bool) (text : Text) :
    sweep.split boundary text = match seek sweep.pattern.here? boundary text with
      | none => fragment text
      | some (before, word, after) =>
        fragment before ++ ⟨sweep.kind, word⟩ :: sweep.split false after := by
  rw [Sweep.split]
  -- the two searches find the same, the one as a record and the other as a triple
  have same := sweep.pattern.find?_eq_seek boundary text
  split
  · rename_i absent
    rw [absent] at same
    rw [Option.map_eq_none_iff.mp same.symm]
  · rename_i found present
    rw [present] at same
    obtain ⟨⟨before, word, after⟩, met, rfl⟩ := Option.map_eq_some_iff.mp same.symm
    rw [met]

/-- The piece that the first of some sweeps to match at the front of a text finds there. -/
def frontPiece? (tried : List Sweep) (boundary : Bool) (text : Text) : Option (Piece × Text) :=
  tried.findSome? fun sweep => (sweep.pattern.here? boundary text).map fun (word, after) =>
    (⟨sweep.kind, word⟩, after)

/-- A piece at the front of a text is a match of one of the sweeps. -/
theorem frontPiece?_eq_some {tried : List Sweep} {boundary : Bool} {text after : Text}
    {piece : Piece} (found : frontPiece? tried boundary text = some (piece, after)) :
    ∃ sweep ∈ tried, piece.kind = sweep.kind ∧
      sweep.pattern.here? boundary text = some (piece.text, after) := by
  -- The first sweep with a match gives the piece its kind, and its match is the text.
  obtain ⟨sweep, member, met⟩ := List.exists_of_findSome?_eq_some found
  obtain ⟨⟨word, rest⟩, here, same⟩ := Option.map_eq_some_iff.mp met
  simp only [Prod.mk.injEq] at same
  obtain ⟨rfl, rfl⟩ := same
  exact ⟨sweep, member, rfl, here⟩

/-- No piece is at the front of a text when none of the sweeps matches there. -/
theorem frontPiece?_eq_none {tried : List Sweep} {boundary : Bool} {text : Text} :
    frontPiece? tried boundary text = none ↔
      ∀ sweep ∈ tried, sweep.pattern.here? boundary text = none := by
  simp [frontPiece?]

/-- A piece at the front of a text is not empty, and with what follows it makes up the text. -/
theorem frontPiece?_append {tried : List Sweep} {boundary : Bool} {text after : Text}
    {piece : Piece} (found : frontPiece? tried boundary text = some (piece, after)) :
    piece.text ≠ [] ∧ piece.text ++ after = text := by
  -- Every match is a front of the text, and none is empty.
  obtain ⟨sweep, _, _, here⟩ := frontPiece?_eq_some found
  exact Pattern.here?_append here

/-- What follows the first piece met in a text is shorter than the text. -/
theorem seek_frontPiece?_shorter {tried : List Sweep} {boundary : Bool} {text before after : Text}
    {piece : Piece}
    (met : seek (frontPiece? tried) boundary text = some (before, piece, after)) :
    after.length < text.length := by
  -- What is left lacks at least the piece itself.
  obtain ⟨here, rfl, _, found, _⟩ := seek_eq_some.mp met
  obtain ⟨solid, rfl⟩ := frontPiece?_append found
  have taken := List.length_pos_iff.mpr solid
  simp only [List.length_append]
  omega

/-- A raw text cut in one pass, at every place at which one of some sweeps matches. -/
def onePass (tried : List Sweep) (boundary : Bool) (text : Text) : List Piece :=
  match _ : seek (frontPiece? tried) boundary text with
  | none => fragment text
  | some (before, piece, after) =>
    fragment before ++ piece :: onePass tried (wordEdge true piece.text) after
termination_by text.length
decreasing_by exact seek_frontPiece?_shorter ‹_›

/-- A text in which nothing is met is one fragment. -/
theorem onePass_of_none {tried : List Sweep} {boundary : Bool} {text : Text}
    (absent : seek (frontPiece? tried) boundary text = none) :
    onePass tried boundary text = fragment text := by
  -- With no piece ahead all of the text is one fragment.
  rw [onePass]
  split
  · rfl
  · simp_all

/-- A text is cut at the first piece met in it, and then behind that. -/
theorem onePass_of_some {tried : List Sweep} {boundary : Bool} {text before after : Text}
    {piece : Piece}
    (met : seek (frontPiece? tried) boundary text = some (before, piece, after)) :
    onePass tried boundary text =
      fragment before ++ piece :: onePass tried (wordEdge true piece.text) after := by
  -- The text in front of the piece is a fragment, and behind the piece the pass goes on.
  rw [onePass]
  split
  · simp_all
  · rename_i same
    rw [met] at same
    cases same
    rfl

/-- What trimming leaves of a text is raw. -/
theorem kind_of_mem_fragment {text : Text} {piece : Piece} (member : piece ∈ fragment text) :
    piece.kind = .raw := by
  -- A fragment is one raw piece or none.
  unfold fragment at member
  split at member
  · cases member
  · rw [List.mem_singleton.mp member]

/-- A piece that one pass leaves is raw, or it is a match of one of the sweeps. -/
theorem exists_sweep_of_mem_onePass {tried : List Sweep} {boundary : Bool} {text : Text}
    {piece : Piece} (member : piece ∈ onePass tried boundary text) :
    piece.kind = .raw ∨ ∃ sweep ∈ tried, piece.kind = sweep.kind ∧
      ∃ boundary here after, sweep.pattern.here? boundary here = some (piece.text, after) := by
  fun_induction onePass tried boundary text with
  | case1 boundary text absent => exact .inl (kind_of_mem_fragment member)
  | case2 boundary text before first after met ih =>
    -- a fragment is raw; what stands between two fragments is a match
    rcases List.mem_append.mp member with early | later
    · exact .inl (kind_of_mem_fragment early)
    · rcases List.mem_cons.mp later with rfl | behind
      · obtain ⟨here, _, _, found, _⟩ := seek_eq_some.mp met
        obtain ⟨sweep, among, kind, matched⟩ := frontPiece?_eq_some found
        exact .inr ⟨sweep, among, kind, _, here, after, matched⟩
      · exact ih behind

/-- A pattern whose matches begin and end with no blank, and mind the words around them. -/
structure Pattern.Tidy (pattern : Pattern) : Prop where
  /-- No match begins with a blank. -/
  blank : ∀ {boundary c rest}, isBlank c = true → pattern.here? boundary (c :: rest) = none
  /-- Blanks behind a text make no difference to the matches in it. -/
  trailing : ∀ {boundary text back}, text ≠ [] → Text.Blank back →
    pattern.here? boundary (text ++ back) =
      (pattern.here? boundary text).map fun (word, after) => (word, after ++ back)
  /-- A match that ends like a word ends one. -/
  ends : ∀ {boundary text word after}, pattern.here? boundary text = some (word, after) →
    wordEdge true word = false → endsWord after = true
  /-- A pattern whose matches do not end like words does not ask whether a word may begin. -/
  signs : ∀ {boundary text word after}, pattern.here? boundary text = some (word, after) →
    wordEdge true word = true → ∀ other text, pattern.here? other text = pattern.here? true text
  /-- Where no word begins it makes no difference whether one may. -/
  free : ∀ {boundary text}, endsWord text = true →
    pattern.here? boundary text = pattern.here? true text

namespace Sweep

variable {sweep : Sweep} (tidy : sweep.pattern.Tidy)
include tidy

/-- A text is cut as it is with a blank in front of it. -/
theorem split_cons {c : Char} (blank : isBlank c = true) (text : Text) :
    sweep.split true (c :: text) = sweep.split true text := by
  -- a blank is no match and no name, so a word may begin behind it as well
  have other : isNameChar c = false := isNameChar_of_isBlank blank
  rw [split_eq, split_eq sweep true text, seek, tidy.blank blank, other]
  simp only [Bool.not_false]
  rcases seek sweep.pattern.here? true text with _ | ⟨before, word, after⟩
  · exact fragment_cons blank text
  · simp only [Option.map_some]
    rw [fragment_cons blank]

/-- What is met first in a text is met first with blanks behind the text. -/
theorem seek_append {boundary : Bool} (text : Text) {back : Text} (blank : Text.Blank back) :
    seek sweep.pattern.here? boundary (text ++ back) =
      (seek sweep.pattern.here? boundary text).map
        fun (before, word, after) => (before, word, after ++ back) := by
  induction text generalizing boundary with
  | nil =>
    -- blanks alone are no match, and behind the text they change none
    show seek _ boundary back = none
    rw [seek_eq_none]
    rintro before (_ | ⟨c, here⟩) rfl solid
    · exact absurd rfl solid
    · exact tidy.blank (blank c (by simp))
  | cons c text ih =>
    rw [List.cons_append, seek, seek, ← List.cons_append,
      tidy.trailing (List.cons_ne_nil c text) blank, ih]
    rcases sweep.pattern.here? boundary (c :: text) with _ | ⟨word, after⟩
    · simp only [Option.map_none]
      rcases seek sweep.pattern.here? (!isNameChar c) text with _ | ⟨before, word, after⟩
      · rfl
      · rfl
    · rfl

/-- A text is cut as it is with blanks behind it. -/
theorem split_append (boundary : Bool) (text : Text) {back : Text} (blank : Text.Blank back) :
    sweep.split boundary (text ++ back) = sweep.split boundary text := by
  -- on the length of the text: what stands behind a match is shorter
  induction length : text.length using Nat.strongRecOn generalizing text boundary with
  | ind _ ih =>
    subst length
    rw [split_eq, split_eq sweep boundary text, seek_append tidy text blank]
    rcases met : seek sweep.pattern.here? boundary text with _ | ⟨before, word, after⟩
    · exact fragment_append text blank
    · obtain ⟨here, rfl, _, found, _⟩ := seek_eq_some.mp met
      obtain ⟨solid, rfl⟩ := Pattern.here?_append found
      have shorter : after.length < (before ++ (word ++ after)).length := by
        have taken := List.length_pos_iff.mpr solid
        simp only [List.length_append]
        omega
      simp only [Option.map_some]
      rw [ih _ shorter false after rfl]

/-- A text is cut as it is with blanks in front of it. -/
theorem split_blank_append {front : Text} (blank : Text.Blank front) (text : Text) :
    sweep.split true (front ++ text) = sweep.split true text := by
  -- A tidy pattern matches at no blank, so that each one only adds to the text passed.
  induction front with
  | nil => rfl
  | cons c front ih =>
    obtain ⟨first, rest⟩ := List.forall_mem_cons.mp blank
    rw [List.cons_append, split_cons tidy first, ih rest]

/-- A fragment is cut as the text it was trimmed from. -/
theorem split_fragment (text : Text) :
    (fragment text).flatMap (fun piece => sweep.split true piece.text) = sweep.split true text := by
  -- the blanks that trimming drops hold no match and separate nothing
  obtain ⟨front, back, blank, blank', parts⟩ := Text.exists_trim text
  have same : sweep.split true text = sweep.split true text.trim := by
    rw [congrArg (sweep.split true) parts, split_append tidy true _ blank',
      split_blank_append tidy blank]
  rw [same, fragment]
  split
  · rename_i bare
    rw [bare, split_eq]
    rfl
  · exact List.flatMap_singleton _ _

/-- A text that begins with no word is cut the same whether one may begin there or not. -/
theorem split_free {boundary : Bool} {text : Text} (ends : endsWord text = true) :
    sweep.split boundary text = sweep.split true text := by
  -- Whether a word may begin matters to a pattern only where a name character follows.
  rw [split_eq, split_eq sweep true text]
  cases text with
  | nil => rfl
  | cons c rest => rw [seek, seek, tidy.free ends]

/-- Behind a match a text is cut the same whether a word may begin there or not. -/
theorem split_behind {boundary : Bool} {text word after : Text}
    (found : sweep.pattern.here? boundary text = some (word, after)) :
    sweep.split false after = sweep.split true after := by
  -- a word ends before no name character, and a sign lets a word begin behind it
  rcases edge : wordEdge true word with _ | _
  · exact split_free tidy (tidy.ends found edge)
  · rw [split_eq, split_eq sweep true after]
    cases after with
    | nil => rfl
    | cons c after => rw [seek, seek, tidy.signs found edge]

end Sweep

/-- What has to hold of a sweep for it to find behind others what it finds together with them. -/
structure Follows (tried : List Sweep) (sweep : Sweep) : Prop where
  /-- The patterns mind the words around them. -/
  tidy : ∀ other ∈ sweep :: tried, other.pattern.Tidy
  /-- The pieces that the others find are not raw. -/
  kinds : ∀ other ∈ tried, other.kind ≠ .raw
  /-- None of the others matches inside a match. -/
  inside : ∀ {boundary front back after},
    sweep.pattern.here? boundary (front ++ back ++ after) = some (front ++ back, after) →
    front ≠ [] → back ≠ [] → frontPiece? tried (wordEdge boundary front) (back ++ after) = none
  /-- What one of the others finds makes no difference to the matches in front of it. -/
  local_ : ∀ {boundary text back}, text ≠ [] →
    (frontPiece? tried (wordEdge boundary text) back).isSome = true →
    sweep.pattern.here? boundary (text ++ back) =
      (sweep.pattern.here? boundary text).map fun (word, after) => (word, after ++ back)

/-- A piece found by sweeps with one more behind them is found by those, or else by that one. -/
theorem frontPiece?_concat (tried : List Sweep) (sweep : Sweep) (boundary : Bool) (text : Text) :
    frontPiece? (tried ++ [sweep]) boundary text = (frontPiece? tried boundary text).or
      ((sweep.pattern.here? boundary text).map fun (word, after) => (⟨sweep.kind, word⟩, after)) := by
  simp [frontPiece?, List.findSome?_append]

/-- Behind a text that is passed over, one pass goes on as it would from there. -/
theorem onePass_append_of_none {tried : List Sweep} {boundary : Bool} {passed text : Text}
    (none : ∀ first second, passed = first ++ second → second ≠ [] →
      frontPiece? tried (wordEdge boundary first) (second ++ text) = none) :
    ∃ before back rest, text = before ++ back ∧
      (back = [] ∨ (frontPiece? tried (wordEdge boundary (passed ++ before)) back).isSome = true) ∧
      onePass tried (wordEdge boundary passed) text = fragment before ++ rest ∧
      onePass tried boundary (passed ++ text) = fragment (passed ++ before) ++ rest := by
  have skip := seek_append_of_none none
  -- the place `back` is where the pass meets the next piece, or the end of the text
  rcases met : seek (frontPiece? tried) (wordEdge boundary passed) text with
    _ | ⟨before, piece, after⟩
  · rw [met] at skip
    refine ⟨text, [], [], by simp, .inl rfl, ?_, ?_⟩
    · rw [onePass_of_none met, List.append_nil]
    · rw [onePass_of_none skip, List.append_nil]
  · rw [met] at skip
    obtain ⟨here, rfl, solid, found, _⟩ := seek_eq_some.mp met
    refine ⟨before, here, piece :: onePass tried (wordEdge true piece.text) after, rfl, .inr ?_,
      onePass_of_some met, onePass_of_some skip⟩
    rw [wordEdge_append, found]
    rfl

/-- The end of a word is seen as far as the text goes. -/
theorem endsWord_of_append {front back : Text} (ends : endsWord (front ++ back) = true) :
    endsWord front = true := by
  -- It depends on the first character alone.
  cases front with
  | nil => rfl
  | cons c front => exact ends

namespace Follows

variable {tried : List Sweep} {sweep : Sweep} (follows : Follows tried sweep)
include follows

/-- A sweep's own pattern minds the words around it. -/
theorem own : sweep.pattern.Tidy :=
  -- Among the sweeps that are tried, the last one is tidy as the others are.
  follows.tidy sweep (.head tried)

/-- Matches in front of a place where one of the others matches, or of the end, are the same. -/
theorem here?_append {boundary : Bool} {text back : Text} (solid : text ≠ [])
    (stop : back = [] ∨ (frontPiece? tried (wordEdge boundary text) back).isSome = true) :
    sweep.pattern.here? boundary (text ++ back) =
      (sweep.pattern.here? boundary text).map fun (word, after) => (word, after ++ back) := by
  -- A tidy pattern does not look past a place where the text ends or another piece begins.
  rcases stop with rfl | stop
  · simp
  · exact follows.local_ solid stop

/-- A text without a match of a sweep is cut nowhere by it. -/
theorem split_of_none {boundary : Bool} {text back : Text}
    (start : boundary = true ∨ endsWord text = true)
    (stop : back = [] ∨ (frontPiece? tried (wordEdge boundary text) back).isSome = true)
    (none : ∀ first second, text = first ++ second → second ≠ [] →
      sweep.pattern.here? (wordEdge boundary first) (second ++ back) = none) :
    sweep.split true text = fragment text := by
  -- no match of the sweep starts within the text, with or without what stands behind it
  have same : sweep.split true text = sweep.split boundary text := by
    rcases start with rfl | ends
    · rfl
    · exact (Sweep.split_free follows.own ends).symm
  have absent : seek sweep.pattern.here? boundary text = Option.none := by
    rw [seek_eq_none]
    intro first second split some
    have met := none first second split some
    rw [split, wordEdge_append] at stop
    rwa [follows.here?_append some stop, Option.map_eq_none_iff] at met
  rw [same, Sweep.split_eq, absent]

/-- A text is cut at the first match of a sweep in it, and then behind that. -/
theorem split_of_some {boundary : Bool} {before word after back : Text}
    (start : boundary = true ∨ endsWord (before ++ word ++ after) = true)
    (stop : back = [] ∨
      (frontPiece? tried (wordEdge boundary (before ++ word ++ after)) back).isSome = true)
    (found : sweep.pattern.here? (wordEdge boundary before) (word ++ (after ++ back)) =
      some (word, after ++ back))
    (none : ∀ first second, before = first ++ second → second ≠ [] →
      sweep.pattern.here? (wordEdge boundary first) (second ++ (word ++ (after ++ back))) = none) :
    sweep.split true (before ++ word ++ after) =
      fragment before ++ ⟨sweep.kind, word⟩ :: sweep.split true after := by
  -- The boundary counts only for a text that begins with a name character.
  have same : sweep.split true (before ++ word ++ after) =
      sweep.split boundary (before ++ word ++ after) := by
    rcases start with rfl | ends
    · rfl
    · exact (Sweep.split_free follows.own ends).symm
  have solid := (Pattern.here?_append found).1
  -- the match found in front of `back` is the first one in the text up to there as well
  have met : seek sweep.pattern.here? boundary (before ++ word ++ after) =
      some (before, word, after) := by
    rw [List.append_assoc, wordEdge_append] at stop
    rw [List.append_assoc, seek_eq_some]
    refine ⟨word ++ after, rfl, by simp [solid], ?_, ?_⟩
    · have here := found
      rw [← List.append_assoc, follows.here?_append (by simp [solid]) stop] at here
      obtain ⟨⟨word', after'⟩, inner, same⟩ := Option.map_eq_some_iff.mp here
      simp only [Prod.mk.injEq, List.append_cancel_right_eq] at same
      rw [inner, same.1, same.2]
    · intro first second split some
      have earlier := none first second split some
      have stop' : back = [] ∨ (frontPiece? tried (wordEdge (wordEdge boundary first)
          (second ++ (word ++ after))) back).isSome = true := by
        simpa only [split, wordEdge_append] using stop
      rwa [← List.append_assoc word, ← List.append_assoc second,
        follows.here?_append (by simp [some]) stop', Option.map_eq_none_iff] at earlier
  obtain ⟨_, _, _, first, _⟩ := seek_eq_some.mp met
  rw [same, Sweep.split_eq, met]
  simp only
  rw [Sweep.split_behind follows.own first]

/-- A sweep cuts the fragment of a text as it cuts the text. -/
theorem apply_fragment (text : Text) : sweep.apply (fragment text) = sweep.split true text := by
  -- A sweep cuts raw pieces, and an empty fragment has nothing to cut.
  rw [← Sweep.split_fragment follows.own text, fragment]
  split
  · rfl
  · rfl

omit follows in
/-- A sweep leaves a piece that is known alone. -/
theorem apply_cons {piece : Piece} (known : piece.kind ≠ .raw) (others : List Piece) :
    sweep.apply (piece :: others) = piece :: sweep.apply others := by
  -- A sweep leaves pieces that are known already as they are.
  rw [Sweep.apply, List.flatMap_cons, if_neg known]
  rfl

omit follows in
/-- A sweep over pieces one behind the other is a sweep over the first and then the second. -/
theorem apply_append (front back : List Piece) :
    sweep.apply (front ++ back) = sweep.apply front ++ sweep.apply back :=
  -- A sweep goes over the pieces one by one.
  List.flatMap_append

/-- Behind a piece that one of the others found, one pass goes on at a word or where none begins. -/
theorem start_behind {boundary : Bool} {text after : Text} {piece : Piece}
    (found : frontPiece? (tried ++ [sweep]) boundary text = some (piece, after)) :
    wordEdge true piece.text = true ∨ endsWord after = true := by
  -- A piece that ends on a name character is a word, and no name character follows a word.
  obtain ⟨other, member, _, here⟩ := frontPiece?_eq_some found
  have tidy := follows.tidy other (by simpa [or_comm] using member)
  rcases edge : wordEdge true piece.text with _ | _
  · exact .inr (tidy.ends here edge)
  · exact .inl rfl

/-- Where a sweep matches first, the others match neither before nor inside its match. -/
theorem none_within {boundary : Bool} {before word after : Text}
    (own : sweep.pattern.here? (wordEdge boundary before) (word ++ after) = some (word, after))
    (absent : frontPiece? tried (wordEdge boundary before) (word ++ after) = none)
    (earlier : ∀ front back, before = front ++ back → back ≠ [] →
      frontPiece? tried (wordEdge boundary front) (back ++ (word ++ after)) = none) :
    ∀ front back, before ++ word = front ++ back → back ≠ [] →
      frontPiece? tried (wordEdge boundary front) (back ++ after) = none := by
  -- A place within the text passed or the word is in the text, at its end, or in the word.
  intro front back split filled
  rcases List.append_eq_append_iff.mp split with ⟨middle, rfl, rfl⟩ | ⟨middle, rfl, rfl⟩
  · rcases middle with _ | ⟨c, middle⟩
    · rwa [List.append_nil]
    · rw [wordEdge_append]
      exact follows.inside own nofun filled
  · rcases middle with _ | ⟨c, middle⟩
    -- At the end of the text passed the word itself begins.
    · rwa [List.append_nil] at absent
    · rw [List.append_assoc]
      exact earlier front (c :: middle) rfl nofun

omit follows in
/-- Where nothing is met with the sweep tried last, neither it nor another is met. -/
theorem absent_concat {boundary : Bool} {text : Text}
    (absent : frontPiece? (tried ++ [sweep]) boundary text = none) :
    frontPiece? tried boundary text = none ∧ sweep.pattern.here? boundary text = none := by
  -- Where nothing is met, neither one of the earlier sweeps nor the last one matches.
  rwa [frontPiece?_concat, Option.or_eq_none_iff, Option.map_eq_none_iff] at absent

/-- Where nothing is met at all, the text is one fragment before and after. -/
theorem apply_onePass_of_none {boundary : Bool} {text : Text}
    (start : boundary = true ∨ endsWord text = true)
    (met : seek (frontPiece? (tried ++ [sweep])) boundary text = none) :
    sweep.apply (onePass tried boundary text) = fragment text := by
  -- The earlier sweeps leave the whole text a fragment, and the last one finds nothing in it.
  have absent := seek_eq_none.mp met
  have nowhere : seek (frontPiece? tried) boundary text = none :=
    seek_eq_none.mpr fun front back split filled =>
      (absent_concat (absent front back split filled)).1
  rw [onePass_of_none nowhere, follows.apply_fragment]
  refine follows.split_of_none start (.inl rfl) fun front back split filled => ?_
  rw [List.append_nil]
  exact (absent_concat (absent front back split filled)).2

/-- Where the sweep matches first, it cuts the fragment that the others leave around its match. -/
theorem apply_onePass_of_own {boundary : Bool} {before word after : Text}
    (start : boundary = true ∨ endsWord (before ++ (word ++ after)) = true)
    (own : sweep.pattern.here? (wordEdge boundary before) (word ++ after) = some (word, after))
    (first : frontPiece? tried (wordEdge boundary before) (word ++ after) = none)
    (absent : ∀ front back, before = front ++ back → back ≠ [] →
      frontPiece? (tried ++ [sweep]) (wordEdge boundary front) (back ++ (word ++ after)) = none) :
    sweep.apply (onePass tried boundary (before ++ (word ++ after))) =
      fragment before ++
        ⟨sweep.kind, word⟩ :: sweep.apply (onePass tried (wordEdge true word) after) := by
  have filled := (Pattern.here?_append own).1
  -- the others match neither before nor inside the match, so their fragment reaches past it
  have passed := follows.none_within own first fun front back split filled =>
    (absent_concat (absent front back split filled)).1
  obtain ⟨inner, back, others, rfl, stop, here, there⟩ := onePass_append_of_none passed
  rw [wordEdge_append, wordEdge_eq filled _ true] at here
  have start' : boundary = true ∨ endsWord (before ++ word ++ inner) = true :=
    start.imp_right fun ends => @endsWord_of_append _ back (by simpa using ends)
  have cut := follows.split_of_some start' stop own fun front back split filled =>
    (absent_concat (absent front back split filled)).2
  rw [← List.append_assoc, there, here, apply_append, apply_append, follows.apply_fragment,
    follows.apply_fragment, cut, List.append_assoc, List.cons_append]

/-- Where one of the others matches first, the sweep finds nothing in the fragment in front of it. -/
theorem apply_onePass_of_other {boundary : Bool} {before after : Text} {piece : Piece}
    (start : boundary = true ∨ endsWord (before ++ (piece.text ++ after)) = true)
    (first : frontPiece? tried (wordEdge boundary before) (piece.text ++ after) =
      some (piece, after))
    (absent : ∀ front back, before = front ++ back → back ≠ [] →
      frontPiece? (tried ++ [sweep]) (wordEdge boundary front)
        (back ++ (piece.text ++ after)) = none) :
    sweep.apply (onePass tried boundary (before ++ (piece.text ++ after))) =
      fragment before ++
        piece :: sweep.apply (onePass tried (wordEdge true piece.text) after) := by
  -- The earlier sweeps meet the same piece first; the last one sees only the fragment before it.
  have solid : piece.text ++ after ≠ [] := by simp [(frontPiece?_append first).1]
  have earlier : seek (frontPiece? tried) boundary (before ++ (piece.text ++ after)) =
      some (before, piece, after) :=
    seek_eq_some.mpr ⟨_, rfl, solid, first, fun front back split filled =>
      (absent_concat (absent front back split filled)).1⟩
  have known : piece.kind ≠ .raw := by
    obtain ⟨other, member, kind, _⟩ := frontPiece?_eq_some first
    rw [kind]
    exact follows.kinds other member
  have stop : (frontPiece? tried (wordEdge boundary before) (piece.text ++ after)).isSome = true := by
    rw [first]
    rfl
  -- In the fragment it finds nothing, up to the place where the piece begins.
  have front := follows.split_of_none (start.imp_right endsWord_of_append) (.inr stop)
    fun front back split filled => (absent_concat (absent front back split filled)).2
  rw [onePass_of_some earlier, apply_append, apply_cons known, follows.apply_fragment, front]

/-- A sweep behind others cuts a text as one pass does that tries it last. -/
theorem apply_onePass {boundary : Bool} {text : Text}
    (start : boundary = true ∨ endsWord text = true) :
    sweep.apply (onePass tried boundary text) = onePass (tried ++ [sweep]) boundary text := by
  -- on the length of the text: what stands behind the first match is shorter
  induction length : text.length using Nat.strongRecOn generalizing text boundary with
  | ind _ ih =>
    subst length
    rcases met : seek (frontPiece? (tried ++ [sweep])) boundary text with _ | ⟨before, piece, after⟩
    · rw [onePass_of_none met, follows.apply_onePass_of_none start met]
    · have shorter := seek_frontPiece?_shorter met
      obtain ⟨here, rfl, _, found, absent⟩ := seek_eq_some.mp met
      obtain ⟨_, rfl⟩ := frontPiece?_append found
      rw [onePass_of_some met, ← ih _ shorter (follows.start_behind found) rfl]
      rw [frontPiece?_concat] at found
      rcases first : frontPiece? tried (wordEdge boundary before) (piece.text ++ after) with
        _ | other
      · rw [first, Option.none_or] at found
        obtain ⟨⟨word, rest⟩, own, same⟩ := Option.map_eq_some_iff.mp found
        simp only [Prod.mk.injEq] at same
        obtain ⟨rfl, rfl⟩ := same
        exact follows.apply_onePass_of_own start own first absent
      · rw [first, Option.some_or] at found
        cases found
        exact follows.apply_onePass_of_other start first absent

end Follows

end SqlLayout
