import SqlLayout.Lexing.Piece

/-! Literal spans: quoted text, quoted names and comments, cut out of the raw text around them. -/

namespace SqlLayout

/--
The end of a quoted span and what follows it, read from behind the opening quote.

A doubled quote is part of the span.
A span without a closing quote has no end.
-/
def quotedEnd? (quote : Char) : Text → Option (Text × Text)
  | [] => none
  | c :: rest =>
    if c = quote then
      match rest with
      | [] => some ([c], [])
      | d :: rest =>
        -- A quote right behind a quote is read together with it.
        if d = quote then (quotedEnd? quote rest).map fun (span, after) => (c :: d :: span, after)
        else some ([c], d :: rest)
    else (quotedEnd? quote rest).map fun (span, after) => (c :: span, after)

/-- The text up to the first place where a closing word ends, and what follows it. -/
def closedBy? (close : Text) : Text → Option (Text × Text)
  | [] => none
  | c :: rest =>
    -- The closing word is looked for at every character in turn.
    match Text.after? close (c :: rest) with
    | some after => some (close, after)
    | none => (closedBy? close rest).map fun (span, after) => (c :: span, after)

/-- A span with its opening word put in front. -/
def opened (kind : Kind) (opening : Text) : Option (Text × Text) → Option (Piece × Text) :=
  -- What follows the span stays as it is.
  Option.map fun (span, after) => (⟨kind, opening ++ span⟩, after)

/--
The literal span a text begins with, and what follows it.

Single quotes hold text, double quotes hold a name, and braces or slash and star hold a comment.
An opening that is never closed begins no span.
-/
def literal? : Text → Option (Piece × Text)
  | '\'' :: rest => opened .text ['\''] (quotedEnd? '\'' rest)
  | '"' :: rest => opened .name ['"'] (quotedEnd? '"' rest)
  | '\x7b' :: rest => opened .comment ['\x7b'] (closedBy? ['\x7d'] rest)
  | '/' :: '*' :: rest => opened .comment ['/', '*'] (closedBy? ['*', '/'] rest)
  | _ => none

/-- A quoted span and what follows it are the text that was read. -/
theorem quotedEnd?_append {quote : Char} {text span after : Text}
    (found : quotedEnd? quote text = some (span, after)) : span ++ after = text := by
  -- Each step moves one character, or a doubled quote, into the span.
  fun_induction quotedEnd? quote text generalizing span after with
  | case1 => simp at found
  | case2 => simp_all
  | case3 rest ih =>
    obtain ⟨⟨span', after'⟩, inner, same⟩ := Option.map_eq_some_iff.mp found
    simp only [Prod.mk.injEq] at same
    obtain ⟨rfl, rfl⟩ := same
    simp [ih inner]
  | case4 d rest _ =>
    simp only [Option.some.injEq, Prod.mk.injEq] at found
    obtain ⟨rfl, rfl⟩ := found
    simp
  | case5 c rest _ ih =>
    obtain ⟨⟨span', after'⟩, inner, same⟩ := Option.map_eq_some_iff.mp found
    simp only [Prod.mk.injEq] at same
    obtain ⟨rfl, rfl⟩ := same
    simp [ih inner]

/-- A closed span and what follows it are the text that was read. -/
theorem closedBy?_append {close text span after : Text}
    (found : closedBy? close text = some (span, after)) : span ++ after = text := by
  -- Each step moves one character into the span, and the closing word ends it.
  fun_induction closedBy? close text generalizing span after with
  | case1 => simp at found
  | case2 c rest tail here =>
    simp only [Option.some.injEq, Prod.mk.injEq] at found
    obtain ⟨rfl, rfl⟩ := found
    exact (Text.after?_eq_some.mp here).symm
  | case3 c rest _ ih =>
    obtain ⟨⟨span', after'⟩, inner, same⟩ := Option.map_eq_some_iff.mp found
    simp only [Prod.mk.injEq] at same
    obtain ⟨rfl, rfl⟩ := same
    simp [ih inner]

/-- A literal span and what follows it are the text it was found in. -/
theorem literal?_append {text after : Text} {piece : Piece}
    (found : literal? text = some (piece, after)) : piece.text ++ after = text := by
  -- All four forms put their opening word in front of a span that is read on from there.
  unfold literal? opened at found
  split at found
  case h_5 => simp at found
  all_goals
    obtain ⟨⟨span, tail⟩, inner, same⟩ := Option.map_eq_some_iff.mp found
    simp only [Prod.mk.injEq] at same
    obtain ⟨rfl, rfl⟩ := same
  case h_1 => simpa using quotedEnd?_append inner
  case h_2 => simpa using quotedEnd?_append inner
  case h_3 => simpa using closedBy?_append inner
  case h_4 => simpa using closedBy?_append inner

/-- A literal span is never empty. -/
theorem literal?_text_ne_nil {text after : Text} {piece : Piece}
    (found : literal? text = some (piece, after)) : piece.text ≠ [] := by
  -- It holds at least its opening word.
  unfold literal? opened at found
  split at found
  case h_5 => simp at found
  all_goals
    obtain ⟨⟨span, tail⟩, _, same⟩ := Option.map_eq_some_iff.mp found
    simp only [Prod.mk.injEq] at same
    obtain ⟨rfl, rfl⟩ := same
    simp

/-- What follows a literal span is shorter than the text it was found in. -/
theorem literal?_shorter {text after : Text} {piece : Piece}
    (found : literal? text = some (piece, after)) : after.length < text.length := by
  -- The span takes at least one character away.
  have whole := congrArg List.length (literal?_append found)
  have taken := List.length_pos_iff.mpr (literal?_text_ne_nil found)
  simp only [List.length_append] at whole
  omega

/-- One raw character put in front of the pieces that follow it. -/
def pushRaw (c : Char) : List Piece → List Piece
  -- A raw piece that follows at once takes the character in.
  | ⟨.raw, text⟩ :: pieces => ⟨.raw, c :: text⟩ :: pieces
  | pieces => ⟨.raw, [c]⟩ :: pieces

/-- A text cut into its literal spans and the raw pieces between them. -/
def scan : (text : Text) → List Piece
  | [] => []
  | c :: rest =>
    match _ : literal? (c :: rest) with
    | some (piece, after) => piece :: scan after
    -- A character at which no span begins is raw.
    | none => pushRaw c (scan rest)
termination_by text => text.length
decreasing_by
  · exact literal?_shorter ‹_›
  · simp

end SqlLayout
