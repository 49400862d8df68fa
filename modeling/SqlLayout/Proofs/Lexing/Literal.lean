import Mathlib.Data.List.Basic
import SqlLayout.Lexing.Tokenize

/-! Literal spans: a span that was read once is read again wherever it is written. -/

namespace SqlLayout

/-- A quoted span ends where it ended, with anything but its quote behind it. -/
theorem quotedEnd?_again {quote : Char} {text span after other : Text}
    (found : quotedEnd? quote text = some (span, after)) (stop : other.head? ≠ some quote) :
    quotedEnd? quote (span ++ other) = some (span, other) := by
  -- the closing quote closes again, as long as no further quote follows it
  have ends : quotedEnd? quote (quote :: other) = some ([quote], other) := by
    cases other with
    | nil => simp [quotedEnd?]
    | cons d other =>
      have apart : d ≠ quote := by simpa using stop
      simp [quotedEnd?, apart]
  -- along the scan: a doubled quote and any other character stay inside the span
  fun_induction quotedEnd? quote text generalizing span with
  | case1 => cases found
  | case2 =>
    simp only [Option.some.injEq, Prod.mk.injEq] at found
    obtain ⟨rfl, rfl⟩ := found
    exact ends
  | case3 rest ih =>
    obtain ⟨⟨span', after'⟩, inner, same⟩ := Option.map_eq_some_iff.mp found
    simp only [Prod.mk.injEq] at same
    obtain ⟨rfl, rfl⟩ := same
    simp [quotedEnd?, ih inner]
  | case4 d rest apart =>
    simp only [Option.some.injEq, Prod.mk.injEq] at found
    obtain ⟨rfl, rfl⟩ := found
    exact ends
  | case5 c rest apart ih =>
    obtain ⟨⟨span', after'⟩, inner, same⟩ := Option.map_eq_some_iff.mp found
    simp only [Prod.mk.injEq] at same
    obtain ⟨rfl, rfl⟩ := same
    rw [List.cons_append, quotedEnd?.eq_def]
    simp [apart, ih inner]

/-- A closed span ends with its closing word. -/
theorem closedBy?_suffix {close text span after : Text}
    (found : closedBy? close text = some (span, after)) : close <:+ span := by
  -- the span grows in front only, so it ends as it did where the close was met
  fun_induction closedBy? close text generalizing span after with
  | case1 => cases found
  | case2 c rest tail here =>
    simp only [Option.some.injEq, Prod.mk.injEq] at found
    exact found.1 ▸ List.suffix_rfl
  | case3 c rest absent ih =>
    obtain ⟨⟨span', after'⟩, inner, same⟩ := Option.map_eq_some_iff.mp found
    simp only [Prod.mk.injEq] at same
    obtain ⟨rfl, rfl⟩ := same
    exact (ih inner).trans (List.suffix_cons c span')

/-- A span ends where its closing word first ends, whatever stands behind it. -/
theorem closedBy?_again {close text span after : Text} (solid : close ≠ [])
    (found : closedBy? close text = some (span, after)) (other : Text) :
    closedBy? close (span ++ other) = some (span, other) := by
  -- The span is read again character by character, up to the closing word at its end.
  fun_induction closedBy? close text generalizing span after with
  | case1 => cases found
  | case2 c rest tail here =>
    simp only [Option.some.injEq, Prod.mk.injEq] at found
    obtain ⟨rfl, rfl⟩ := found
    obtain ⟨d, close, rfl⟩ := List.exists_cons_of_ne_nil solid
    rw [List.cons_append, closedBy?, ← List.cons_append, Text.after?_eq_some.mpr rfl]
  | case3 c rest absent ih =>
    obtain ⟨⟨span', after'⟩, inner, same⟩ := Option.map_eq_some_iff.mp found
    simp only [Prod.mk.injEq] at same
    obtain ⟨rfl, rfl⟩ := same
    -- A closing word that began here would end within the span, where none was found before.
    have nowhere : Text.after? close (c :: (span' ++ other)) = none := by
      rcases present : Text.after? close (c :: (span' ++ other)) with _ | rest'
      · rfl
      · have fits : close <+: c :: span' :=
          List.prefix_of_prefix_length_le ⟨rest', (Text.after?_eq_some.mp present).symm⟩
            (List.prefix_append (c :: span') other)
            (Nat.le_succ_of_le (closedBy?_suffix inner).length_le)
        obtain ⟨tail, whole⟩ := fits
        rw [← closedBy?_append inner, ← List.cons_append, ← whole, List.append_assoc,
          Text.after?_eq_some.mpr rfl] at absent
        cases absent
    rw [List.cons_append, closedBy?, nowhere, ih inner]
    rfl

/-- The opening and the closing words of literal spans, with the kind of what they hold. -/
inductive Encloses : Kind → Text → Text → Prop where
  | text : Encloses .text ['\''] ['\'']
  | name : Encloses .name ['"'] ['"']
  | braces : Encloses .comment ['\x7b'] ['\x7d']
  | stars : Encloses .comment ['/', '*'] ['*', '/']

/-- A quoted span ends with its quote. -/
theorem quotedEnd?_suffix {quote : Char} {text span after : Text}
    (found : quotedEnd? quote text = some (span, after)) : [quote] <:+ span := by
  -- Behind a doubled quote and behind any other character the span ends as the rest of it does.
  fun_induction quotedEnd? quote text generalizing span after with
  | case1 => cases found
  | case2 => simp_all
  | case3 rest ih =>
    obtain ⟨⟨span', after'⟩, inner, same⟩ := Option.map_eq_some_iff.mp found
    simp only [Prod.mk.injEq] at same
    obtain ⟨rfl, rfl⟩ := same
    exact (ih inner).trans ⟨[quote, quote], rfl⟩
  | case4 d rest apart => simp_all
  | case5 c rest apart ih =>
    obtain ⟨⟨span', after'⟩, inner, same⟩ := Option.map_eq_some_iff.mp found
    simp only [Prod.mk.injEq] at same
    obtain ⟨rfl, rfl⟩ := same
    exact (ih inner).trans (List.suffix_cons c span')

/-- A literal span stands between an opening and a closing word of its kind. -/
theorem literal?_encloses {text after : Text} {piece : Piece}
    (found : literal? text = some (piece, after)) :
    ∃ opening closing, Encloses piece.kind opening closing ∧ opening <+: piece.text ∧
      closing <:+ piece.text := by
  -- The four openings are tried in turn.
  unfold literal? opened at found
  split at found
  -- one goal for each of the four openings; the fifth branch found nothing
  case h_5 => cases found
  all_goals
    obtain ⟨⟨span, tail⟩, inner, same⟩ := Option.map_eq_some_iff.mp found
    simp only [Prod.mk.injEq] at same
    obtain ⟨rfl, rfl⟩ := same
  case h_1 =>
    exact ⟨_, _, .text, List.prefix_append _ _, (quotedEnd?_suffix inner).trans ⟨_, rfl⟩⟩
  case h_2 =>
    exact ⟨_, _, .name, List.prefix_append _ _, (quotedEnd?_suffix inner).trans ⟨_, rfl⟩⟩
  case h_3 =>
    exact ⟨_, _, .braces, List.prefix_append _ _, (closedBy?_suffix inner).trans ⟨_, rfl⟩⟩
  case h_4 =>
    exact ⟨_, _, .stars, List.prefix_append _ _, (closedBy?_suffix inner).trans ⟨_, rfl⟩⟩

/-- A literal span is read again where it stands, unless the quote it ends with is doubled. -/
theorem literal?_again {text after other : Text} {piece : Piece}
    (found : literal? text = some (piece, after))
    (stop : piece.kind = .comment ∨ other.head? ≠ piece.text.head?) :
    literal? (piece.text ++ other) = some (piece, other) := by
  -- each scan finds its end again, and only a quote asks what stands behind it
  unfold literal? opened at found
  split at found
  case h_5 => cases found
  all_goals
    obtain ⟨⟨span, tail⟩, inner, same⟩ := Option.map_eq_some_iff.mp found
    simp only [Prod.mk.injEq] at same
    obtain ⟨rfl, rfl⟩ := same
  case h_1 =>
    have apart : other.head? ≠ some '\'' := by simpa using stop
    simp [literal?, opened, quotedEnd?_again inner apart]
  case h_2 =>
    have apart : other.head? ≠ some '"' := by simpa using stop
    simp [literal?, opened, quotedEnd?_again inner apart]
  case h_3 => simp [literal?, opened, closedBy?_again (by simp) inner]
  case h_4 => simp [literal?, opened, closedBy?_again (by simp) inner]

/-- A quoted span is followed by anything but its quote. -/
theorem quotedEnd?_stops {quote : Char} {text span after : Text}
    (found : quotedEnd? quote text = some (span, after)) : after.head? ≠ some quote := by
  -- The span ends at a quote with no quote behind it, since two of them stand for one.
  fun_induction quotedEnd? quote text generalizing span after with
  | case1 => cases found
  | case2 =>
    cases found
    simp
  | case3 rest ih =>
    obtain ⟨⟨_, _⟩, inner, same⟩ := Option.map_eq_some_iff.mp found
    cases same
    exact ih inner
  | case4 d rest apart =>
    cases found
    simpa using apart
  | case5 c rest apart ih =>
    obtain ⟨⟨_, _⟩, inner, same⟩ := Option.map_eq_some_iff.mp found
    cases same
    exact ih inner

/-- A literal span is a comment, or else stands in quotes with no further quote behind them. -/
theorem literal?_stops {text after : Text} {piece : Piece}
    (found : literal? text = some (piece, after)) :
    piece.kind = .comment ∨ ∃ quote ∈ ['\'', '"'],
      piece.text.head? = some quote ∧ after.head? ≠ some quote := by
  -- Only the two quoted forms can go on where they seemed to end; the others are comments.
  unfold literal? opened at found
  split at found
  case h_5 => cases found
  all_goals
    obtain ⟨⟨span, tail⟩, inner, same⟩ := Option.map_eq_some_iff.mp found
    cases same
  case h_1 => exact .inr ⟨'\'', by simp, rfl, quotedEnd?_stops inner⟩
  case h_2 => exact .inr ⟨'"', by simp, rfl, quotedEnd?_stops inner⟩
  case h_3 => exact .inl rfl
  case h_4 => exact .inl rfl

/-- Whether a piece is a literal span from its first character to its last. -/
def Piece.IsLiteral (piece : Piece) : Prop :=
  literal? piece.text = some (piece, [])

instance (piece : Piece) : Decidable piece.IsLiteral :=
  inferInstanceAs (Decidable (_ = _))

/-- A span that was cut out of a text is a literal span of its own. -/
theorem isLiteral_of_literal? {text after : Text} {piece : Piece}
    (found : literal? text = some (piece, after)) : piece.IsLiteral := by
  -- A span is read again with nothing behind it.
  obtain ⟨c, rest, split⟩ := List.exists_cons_of_ne_nil (literal?_text_ne_nil found)
  have again := @literal?_again text after [] piece found (.inr (by rw [split]; nofun))
  rwa [List.append_nil] at again

/-- A text without stars, put between slash and star, is a comment. -/
theorem isLiteral_of_stars {body : Text} (plain : '*' ∉ body) :
    Piece.IsLiteral ⟨.comment, '/' :: '*' :: (body ++ ['*', '/'])⟩ := by
  -- A body without stars closes at the first place where a star stands, its own end.
  have closed : closedBy? ['*', '/'] (body ++ ['*', '/']) = some (body ++ ['*', '/'], []) := by
    induction body with
    | nil => rfl
    | cons c body ih =>
      -- A character that is no star does not begin the closing mark.
      obtain ⟨apart, rest⟩ := not_or.mp (mt List.mem_cons.mpr plain)
      simp [closedBy?, Text.after?, apart, ih rest]
  simp [Piece.IsLiteral, literal?, opened, closed]

/-- A literal span begins and ends with one of the characters that enclose spans. -/
theorem Piece.IsLiteral.edges {piece : Piece} (literal : piece.IsLiteral) :
    (∃ c ∈ piece.text.head?, c ∈ ['\'', '"', '\x7b', '/']) ∧
      ∃ c ∈ piece.text.getLast?, c ∈ ['\'', '"', '\x7d', '/'] := by
  -- The two ends are those of the opening and the closing mark of its form.
  obtain ⟨opening, closing, encloses, ⟨rest, front⟩, ⟨before, back⟩⟩ := literal?_encloses literal
  obtain ⟨kind, text⟩ := piece
  refine ⟨?_, ?_⟩
  · rw [← front]
    cases encloses <;> simp
  · rw [← back]
    cases encloses <;> simp

end SqlLayout
