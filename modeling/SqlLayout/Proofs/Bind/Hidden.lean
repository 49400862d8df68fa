import SqlLayout.Proofs.Bind.Scan

/-! Literal spans behind hidden markers: made-up names neither open, close nor move one. -/

namespace SqlLayout

section Quoted

variable {quote c : Char} {text : Text}

/-- A character other than the quote is read on over. -/
theorem quotedEnd?_cons (other : c ≠ quote) :
    quotedEnd? quote (c :: text) = none ↔ quotedEnd? quote text = none := by
  -- A character other than the quote is passed.
  rw [quotedEnd?.eq_def]
  simp [other]

/-- A doubled quote is read on over. -/
theorem quotedEnd?_doubled :
    quotedEnd? quote (quote :: quote :: text) = none ↔ quotedEnd? quote text = none := by
  -- A doubled quote is passed as a whole.
  rw [quotedEnd?.eq_def]
  simp

/-- A quote ends the span, unless another one follows it. -/
theorem quotedEnd?_closes (single : text.head? ≠ some quote) :
    quotedEnd? quote (quote :: text) ≠ none := by
  -- Only a second quote right behind the first one would go on with the span.
  cases text with
  | nil => simp [quotedEnd?]
  | cons d text =>
    have apart : d ≠ quote := by simpa using single
    simp [quotedEnd?, apart]

/-- A text without the quote ends no span. -/
theorem quotedEnd?_of_plain {front : Text} (plain : quote ∉ front)
    (unclosed : quotedEnd? quote text = none) : quotedEnd? quote (front ++ text) = none := by
  -- Every character in front is read on over, as none is the quote.
  induction front with
  | nil => exact unclosed
  | cons c front ih =>
    obtain ⟨other, rest⟩ := not_or.mp (mt List.mem_cons.mpr plain)
    exact (quotedEnd?_cons (Ne.symm other)).mpr (ih rest)

/-- A span that is not closed in a text is not closed in the rest of it either. -/
theorem quotedEnd?_of_append {front : Text} (last : front.getLast? ≠ some quote)
    (unclosed : quotedEnd? quote (front ++ text) = none) : quotedEnd? quote text = none := by
  -- Behind a quote the rest is read on only if a second one follows, so both places are shown.
  suffices general : (front.getLast? ≠ some quote → quotedEnd? quote (front ++ text) = none →
      quotedEnd? quote text = none) ∧
      (front ≠ [] → front.getLast? ≠ some quote →
        quotedEnd? quote (quote :: (front ++ text)) = none → quotedEnd? quote text = none) from
    general.1 last unclosed
  clear last unclosed
  induction front with
  | nil => exact ⟨fun _ unclosed => unclosed, fun bare => absurd rfl bare⟩
  | cons c front ih =>
    have tail : (c :: front).getLast? ≠ some quote → front.getLast? ≠ some quote := by
      intro last same
      rw [List.getLast?_cons, same] at last
      exact last rfl
    refine ⟨fun last unclosed => ?_, fun _ last unclosed => ?_⟩
    · by_cases here : c = quote
      · subst here
        -- The text does not end with the quote, so that something follows it.
        have solid : front ≠ [] := by
          rintro rfl
          exact last rfl
        exact ih.2 solid (tail last) unclosed
      · exact ih.1 (tail last) ((quotedEnd?_cons here).mp unclosed)
    · by_cases here : c = quote
      · subst here
        exact ih.1 (tail last) (quotedEnd?_doubled.mp unclosed)
      · exact absurd unclosed (quotedEnd?_closes (by simpa using here))

end Quoted

/-- A closing word is not found exactly if it stands nowhere in the text. -/
theorem closedBy?_eq_none {close text : Text} (solid : close ≠ []) :
    closedBy? close text = none ↔ ¬close <:+: text := by
  -- The word is looked for at every character, just as an infix is.
  induction text with
  | nil => simp [closedBy?, solid]
  | cons c text ih =>
    rw [closedBy?, List.infix_cons_iff, not_or, ← ih]
    rcases here : Text.after? close (c :: text) with _ | after
    · -- The word does not begin here, so that it is looked for in the rest.
      have absent : ¬close <+: c :: text := by
        rintro ⟨after, whole⟩
        rw [Text.after?_eq_some.mpr whole.symm] at here
        cases here
      simp [absent]
    · have front : close <+: c :: text := ⟨after, (Text.after?_eq_some.mp here).symm⟩
      simp [front]

/-- A word without name characters begins nowhere in a word that has only these. -/
theorem isInfix_of_named {word close text : Text} (named : ∀ c ∈ word, isNameChar c = true)
    (other : ∀ c ∈ close, isNameChar c = false) (solid : close ≠ [])
    (within : close <:+: word ++ text) : close <:+: text := by
  -- The first character of the closing word is none of the characters passed.
  induction word with
  | nil => exact within
  | cons c word ih =>
    obtain ⟨name, names⟩ := List.forall_mem_cons.mp named
    rcases List.infix_cons_iff.mp within with front | behind
    · obtain ⟨d, close, rfl⟩ := List.exists_cons_of_ne_nil solid
      obtain ⟨rfl, _⟩ := List.cons_prefix_cons.mp front
      rw [other d (.head close)] at name
      cases name
    · exact ih names behind

/-- A text, and the same text with words made of name characters in the place of markers. -/
inductive Masks : Text → Text → Prop where
  | nil : Masks [] []
  /-- Any character may be kept. -/
  | keep {text masked : Text} (c : Char) : Masks text masked → Masks (c :: text) (c :: masked)
  /-- A marker becomes a word. -/
  | hide {marker word text masked : Text} : IsMarker marker → word ≠ [] →
    (∀ c ∈ word, isNameChar c = true) → Masks text masked → Masks (marker ++ text) (word ++ masked)

/-- Hiding the markers of a text masks it. -/
theorem masks_encodeItems (previous : Option Char) (text : Text) (number : Nat) :
    Masks text (encodeItems number (bindItems previous text)) := by
  -- Follows the search for markers stretch by stretch.
  fun_induction bindItems previous text generalizing number with
  | case1 => exact .nil
  | case2 previous c rest piece after found ih =>
    -- A literal span is kept character by character.
    have kept : ∀ span : Text,
        Masks (span ++ after) (span ++ encodeItems number (bindItems piece.text.getLast? after)) := by
      intro span
      induction span with
      | nil => exact ih number
      | cons d span ih' => exact .keep d ih'
    rw [← literal?_append found]
    exact kept piece.text
  | case3 previous c rest plain marker after found ih =>
    rw [← (marker?_append found).2]
    exact .hide (isMarker_of_marker? found) (BindCut.code_ne_nil number)
      (fun d member => (BindCut.code_named number d member).1) (ih (number + 1))
  | case4 previous c rest plain unmarked ih => exact .keep c (ih number)

namespace Masks

variable {text masked : Text}

/-- A character that is none of a name was kept. -/
theorem cons_inv {c : Char} (masks : Masks text (c :: masked)) (other : isNameChar c = false) :
    ∃ rest, text = c :: rest ∧ Masks rest masked := by
  -- A made-up word begins with a name character, and nothing else puts one there.
  generalize whole : c :: masked = front at masks
  cases masks with
  | nil => cases whole
  | keep d rest =>
    cases whole
    exact ⟨_, rfl, rest⟩
  | @hide marker word _ _ _ solid named _ =>
    obtain ⟨d, others, rfl⟩ := List.exists_cons_of_ne_nil solid
    cases whole
    rw [named c (.head others)] at other
    cases other

/-- A word without name characters that the masked text begins with is at the front of the text. -/
theorem isPrefix {close : Text} (other : ∀ c ∈ close, isNameChar c = false)
    (masks : Masks text masked) (front : close <+: masked) : close <+: text := by
  -- One character of the closing word is kept after the other.
  obtain ⟨rest, rfl⟩ := front
  induction close generalizing text with
  | nil => exact List.nil_prefix
  | cons c close ih =>
    obtain ⟨here, others⟩ := List.forall_mem_cons.mp other
    obtain ⟨behind, rfl, masks'⟩ := masks.cons_inv here
    exact List.cons_prefix_cons.mpr ⟨rfl, ih others masks'⟩

/-- A word without name characters that stands in the masked text stands in the text. -/
theorem isInfix {close : Text} (other : ∀ c ∈ close, isNameChar c = false) (solid : close ≠ [])
    (masks : Masks text masked) (within : close <:+: masked) : close <:+: text := by
  -- A closing word that begins behind a made-up word begins behind its marker too.
  induction masks with
  | nil => exact within
  | keep c masks ih =>
    rcases List.infix_cons_iff.mp within with front | behind
    · exact (isPrefix other (.keep c masks) front).isInfix
    · exact List.infix_cons (ih behind)
  | @hide marker word text masked _ _ named masks ih =>
    have behind := isInfix_of_named named other solid within
    exact (ih behind).trans (List.suffix_append marker text).isInfix

/-- A closing word that the text does not have is not found in the masked text. -/
theorem closedBy?_none {close : Text} (other : ∀ c ∈ close, isNameChar c = false)
    (solid : close ≠ []) (masks : Masks text masked) (unclosed : closedBy? close text = none) :
    closedBy? close masked = none :=
  -- A closing mark in the masked text would stand in the text too, as masks are name characters.
  (closedBy?_eq_none solid).mpr fun within =>
    (closedBy?_eq_none solid).mp unclosed (masks.isInfix other solid within)

/-- A quoted span that the text does not close is not closed in the masked text. -/
theorem quotedEnd?_none {quote : Char} (sort : quote ∈ ['\'', '"']) (masks : Masks text masked)
    (unclosed : quotedEnd? quote text = none) : quotedEnd? quote masked = none := by
  -- A mask is made of name characters, and so puts no quote into the text.
  have foreign : ∀ quote ∈ ['\'', '"'], isNameChar quote = false ∧ endsMarker quote = false ∧
      quote ∉ [':', '#', '&'] := by decide
  obtain ⟨other, inner, sign⟩ := foreign quote sort
  -- Behind a quote the next character decides, so both places are shown.
  suffices general : (quotedEnd? quote text = none → quotedEnd? quote masked = none) ∧
      (quotedEnd? quote (quote :: text) = none → quotedEnd? quote (quote :: masked) = none) from
    general.1 unclosed
  clear unclosed
  induction masks with
  | nil => exact ⟨id, id⟩
  | keep c _ ih =>
    by_cases here : c = quote
    · subst here
      refine ⟨ih.2, fun unclosed => ?_⟩
      exact quotedEnd?_doubled.mpr (ih.1 (quotedEnd?_doubled.mp unclosed))
    · refine ⟨fun unclosed => ?_, fun unclosed => ?_⟩
      · exact (quotedEnd?_cons here).mpr (ih.1 ((quotedEnd?_cons here).mp unclosed))
      · exact absurd unclosed (quotedEnd?_closes (by simpa using here))
  | @hide marker word text masked found _ named _ ih =>
    obtain ⟨first, front, among⟩ := found.begins
    obtain ⟨last, back, ends⟩ := found.ends
    obtain ⟨rest, rfl⟩ := List.head?_eq_some_iff.mp front
    refine ⟨fun unclosed => ?_, fun unclosed => ?_⟩
    · -- A marker may hold quotes, but it does not end with one.
      have apart : (first :: rest).getLast? ≠ some quote := by
        intro same
        cases back.symm.trans same
        rw [inner] at ends
        cases ends
      refine quotedEnd?_of_plain (fun member => ?_) (ih.1 (quotedEnd?_of_append apart unclosed))
      rw [named quote member] at other
      cases other
    · -- A quote in front of a marker is single.
      refine absurd unclosed (quotedEnd?_closes ?_)
      rintro ⟨⟩
      exact sign among

/-- Where no literal span begins in the text, none begins in the masked text. -/
theorem literal?_none {c : Char} (masks : Masks text masked)
    (plain : literal? (c :: text) = none) : literal? (c :: masked) = none := by
  -- Each opening sign is followed by its own search for the end.
  by_cases quote : c ∈ ['\'', '"']
  · have unclosed : quotedEnd? c text = none := by
      rcases List.mem_pair.mp quote with rfl | rfl
      · simpa [literal?, opened] using plain
      · simpa [literal?, opened] using plain
    have closed := masks.quotedEnd?_none quote unclosed
    rcases List.mem_pair.mp quote with rfl | rfl
    · simp [literal?, opened, closed]
    · simp [literal?, opened, closed]
  · by_cases brace : c = '\x7b'
    · subst brace
      have unclosed : closedBy? ['\x7d'] text = none := by simpa [literal?, opened] using plain
      have closed := masks.closedBy?_none (by decide) (by simp) unclosed
      simp [literal?, opened, closed]
    · by_cases star : c = '/' ∧ masked.head? = some '*'
      · -- The star was kept, and so the text has an opening word here too.
        obtain ⟨rfl, front⟩ := star
        obtain ⟨masked, rfl⟩ := List.head?_eq_some_iff.mp front
        obtain ⟨text, rfl, inner⟩ := masks.cons_inv (by decide)
        have unclosed : closedBy? ['*', '/'] text = none := by
          simpa [literal?, opened] using plain
        have closed := inner.closedBy?_none (by decide) (by simp) unclosed
        simp [literal?, opened, closed]
      · refine literal?_of_plain ?_ fun slash front => star ⟨slash, front⟩
        simp only [List.mem_cons, List.not_mem_nil, or_false, not_or] at quote ⊢
        exact ⟨quote.1, quote.2, brace⟩

end Masks

/-- A literal span of the text is one of the masked text, if it is kept. -/
theorem Masks.literal?_some {text after masked : Text} {piece : Piece} (masks : Masks after masked)
    (found : literal? text = some (piece, after)) :
    literal? (piece.text ++ masked) = some (piece, masked) := by
  refine literal?_again found ((literal?_stops found).imp_right ?_)
  rintro ⟨quote, sort, opening, stops⟩ same
  have other : ∀ quote ∈ ['\'', '"'], isNameChar quote = false := by decide
  -- A quote right behind the span would have been kept from the text.
  obtain ⟨masked, rfl⟩ := List.head?_eq_some_iff.mp (same.trans opening)
  obtain ⟨rest, rfl, _⟩ := masks.cons_inv (other quote sort)
  exact stops rfl

/-- The pieces of stretches: literal spans, and between them raw text with made-up names in it. -/
def itemPieces : (number : Nat) → List BindItem → List Piece
  | _, [] => []
  | number, .literal piece :: items => piece :: itemPieces number items
  | number, .marker _ :: items =>
    (BindCut.code number).foldr pushRaw (itemPieces (number + 1) items)
  | number, .plain c :: items => pushRaw c (itemPieces number items)

/-- The two searches for literal spans go in step, one on the text and one on the masked text. -/
theorem scan_encodeItems (previous : Option Char) (text : Text) (number : Nat) :
    scan (encodeItems number (bindItems previous text)) =
      itemPieces number (bindItems previous text) := by
  -- A literal span is found again, a made-up name is raw, and any other character too.
  fun_induction bindItems previous text generalizing number with
  | case1 =>
    rw [encodeItems, scan]
    rfl
  | case2 previous c rest piece after found ih =>
    have again := (masks_encodeItems piece.text.getLast? after number).literal?_some found
    rw [itemPieces, ← ih]
    exact scan_of_literal? again
  | case3 previous c rest plain marker after found ih =>
    rw [itemPieces, ← ih]
    exact scan_named (fun d member => (BindCut.code_named number d member).1) _
  | case4 previous c rest plain unmarked ih =>
    rw [itemPieces, ← ih]
    exact scan_of_plain ((masks_encodeItems (some c) rest number).literal?_none plain)

/-- The literal span that a stretch is, if it is one. -/
def BindItem.skipped? : BindItem → Option Piece
  | literal piece => some piece
  | _ => none

/-- The literal spans that the search for markers passes over, as byte ranges. -/
def passedRanges (sql : Text) : List ByteRange :=
  (hits 0 none sql.bytes).filterMap Hit.span?

/-- The part of a text that a byte range covers, if the range divides no character. -/
def Text.slice? (text : Text) (range : ByteRange) : Option Text :=
  (text.splitBytes? range.start).bind fun halves =>
    (halves.2.splitBytes? (range.stop - range.start)).map Prod.fst

/-- A part between two others is what a range behind the first covers. -/
theorem Text.slice?_append (front part back : Text) :
    (front ++ (part ++ back)).slice? ⟨front.byteLength, front.byteLength + part.byteLength⟩ =
      some part := by
  -- The text is cut behind the front and then behind the part.
  rw [slice?, splitBytes?_byteLength, Option.bind_some, Nat.add_sub_cancel_left,
    splitBytes?_byteLength]
  rfl

/-- The ranges that are passed over cover the literal spans among stretches. -/
theorem map_slice?_itemHits (items : List BindItem) (front : Text) :
    ((itemHits front.byteLength items).filterMap Hit.span?).map
        (front ++ items.flatMap BindItem.text).slice? =
      (items.filterMap BindItem.skipped?).map fun piece => some piece.text := by
  -- Every stretch goes to what stands in front of the next one.
  induction items generalizing front with
  | nil => rfl
  | cons item items ih =>
    have behind := ih (front ++ item.text)
    rw [Text.byteLength_append, List.append_assoc] at behind
    cases item with
    | literal piece =>
      have here := Text.slice?_append front piece.text (items.flatMap BindItem.text)
      exact congrArg₂ List.cons here behind
    | marker text => exact behind
    | plain c => exact behind

/-- Raw characters bring no literal span. -/
theorem filter_foldr_pushRaw (run : Text) (found : List Piece) :
    (run.foldr pushRaw found).filter (fun piece => piece.kind ≠ .raw) =
      found.filter fun piece => piece.kind ≠ .raw := by
  -- A raw character makes a raw piece or goes into one.
  induction run with
  | nil => rfl
  | cons c run ih =>
    rw [List.foldr_cons, ← ih]
    generalize run.foldr pushRaw found = others
    unfold pushRaw
    split
    · simp
    · simp

/-- The literal spans among the pieces of stretches are those among the stretches. -/
theorem filter_itemPieces {previous : Option Char} {text : Text} (number : Nat) :
    (itemPieces number (bindItems previous text)).filter (fun piece => piece.kind ≠ .raw) =
      (bindItems previous text).filterMap BindItem.skipped? := by
  -- Follows the search for markers, which is where the stretches come from.
  fun_induction bindItems previous text generalizing number with
  | case1 => rfl
  | case2 previous c rest piece after found ih =>
    have known := (isLiteral_of_literal? found).kind_ne_raw
    rw [itemPieces, List.filter_cons_of_pos (by simpa using known), ih]
    rfl
  | case3 previous c rest plain marker after found ih =>
    exact (filter_foldr_pushRaw _ _).trans (ih (number + 1))
  | case4 previous c rest plain unmarked ih =>
    exact (filter_foldr_pushRaw [c] _).trans (ih number)

/-- A word that stands inside one raw piece, with a text in front of it. -/
def RawWithin (before word : Text) (found : List Piece) : Prop :=
  ∃ front left right back, found = front ++ ⟨.raw, left ++ (word ++ right)⟩ :: back ∧
    front.flatMap Piece.text ++ left = before

/-- Raw characters in front leave a word inside its piece. -/
theorem RawWithin.push {before word : Text} {found : List Piece}
    (within : RawWithin before word found) (run : Text) :
    RawWithin (run ++ before) word (run.foldr pushRaw found) := by
  -- The characters go in front of the first piece, or make a piece of their own.
  induction run with
  | nil => exact within
  | cons c run ih =>
    rw [List.foldr_cons, List.cons_append]
    obtain ⟨_ | ⟨⟨kind, text⟩, front⟩, left, right, back, found, ahead⟩ := ih
    · -- The first piece is that of the word.
      exact ⟨[], c :: left, right, back, by rw [found]; rfl, congrArg (c :: ·) ahead⟩
    · rw [found]
      by_cases raw : kind = .raw
      · subst raw
        exact ⟨⟨.raw, c :: text⟩ :: front, left, right, back, rfl, congrArg (c :: ·) ahead⟩
      · refine ⟨⟨.raw, [c]⟩ :: ⟨kind, text⟩ :: front, left, right, back, ?_,
          congrArg (c :: ·) ahead⟩
        rw [List.cons_append, List.cons_append, List.cons_append]
        unfold pushRaw
        split
        · rename_i same
          cases same
          exact absurd rfl raw
        · rfl

/-- A literal span in front leaves a word inside its piece. -/
theorem RawWithin.cons {before word : Text} {found : List Piece}
    (within : RawWithin before word found) (piece : Piece) :
    RawWithin (piece.text ++ before) word (piece :: found) := by
  -- The piece is one more in front of those before the raw piece.
  obtain ⟨front, left, right, back, rfl, rfl⟩ := within
  exact ⟨piece :: front, left, right, back, rfl, by simp⟩

/-- A run of raw characters stands at the front of one piece. -/
theorem rawWithin_foldr {word : Text} (solid : word ≠ []) (found : List Piece) :
    RawWithin [] word (word.foldr pushRaw found) := by
  -- The last character of the run makes the piece, and the others join it.
  suffices general : ∃ right back, word.foldr pushRaw found = ⟨.raw, word ++ right⟩ :: back by
    obtain ⟨right, back, same⟩ := general
    exact ⟨[], [], right, back, same, rfl⟩
  induction word with
  | nil => exact absurd rfl solid
  | cons c word ih =>
    rw [List.foldr_cons]
    cases word with
    | nil =>
      unfold pushRaw
      split
      · exact ⟨_, _, rfl⟩
      · exact ⟨[], _, rfl⟩
    | cons d word =>
      obtain ⟨right, back, same⟩ := ih nofun
      rw [same]
      exact ⟨right, back, rfl⟩

/-- A text put in front of a cut stands in front of every marker. -/
theorem BindCut.split_push {cut : BindCut} {text before marker : Text}
    {front back : List (Text × Text)}
    (split : (cut.push text).segments = front ++ (before, marker) :: back) :
    ∃ front' before', cut.segments = front' ++ (before', marker) :: back ∧
      front'.length = front.length ∧
      ∀ number, encodeFrom number front before = text ++ encodeFrom number front' before' := by
  -- The text goes to the first segment, which is that of the marker or stands before it.
  obtain ⟨_ | ⟨⟨first, marker'⟩, segments⟩, tail⟩ := cut
  · simp [push] at split
  · rw [push] at split
    cases front with
    | nil =>
      cases split
      exact ⟨[], first, rfl, rfl, fun _ => rfl⟩
    | cons segment front =>
      cases split
      exact ⟨(first, marker') :: front, before, rfl, rfl, fun _ => by simp [encodeFrom]⟩

/-- Every made-up name stands inside one raw piece. -/
theorem rawWithin_itemPieces {items : List BindItem} {number : Nat} {before marker : Text}
    {front back : List (Text × Text)}
    (split : (cutOf items).segments = front ++ (before, marker) :: back) :
    RawWithin (BindCut.encodeFrom number front before) (BindCut.code (number + front.length))
      (itemPieces number items) := by
  -- By induction on the stretches, with the number counted on at each marker.
  induction items generalizing number front before with
  | nil => simp [cutOf] at split
  | cons item items ih =>
    cases item with
    | literal piece =>
      obtain ⟨front', before', deeper, length, ahead⟩ := BindCut.split_push split
      rw [ahead, ← length]
      exact (ih deeper).cons piece
    | plain c =>
      obtain ⟨front', before', deeper, length, ahead⟩ := BindCut.split_push split
      rw [ahead, ← length]
      exact (ih deeper).push [c]
    | marker text =>
      cases front with
      | nil =>
        -- The name is that of the first stretch.
        cases split
        exact rawWithin_foldr (BindCut.code_ne_nil number) _
      | cons segment front =>
        obtain ⟨rfl, behind⟩ := List.cons.inj split
        have deeper := @ih (number + 1) before front behind
        rw [List.length_cons, Nat.add_comm front.length, ← Nat.add_assoc]
        exact deeper.push (BindCut.code number)

/--
Hiding markers leaves the literal spans of a text alone.

The literal spans of the encoded text are those that the search for markers passed over in the text.
Every made-up name stands inside one raw piece, right where it was put.
-/
theorem scan_encoded (sql : Text) :
    ((scan (BindSyntax.generic.cut sql).encoded).filter fun piece => piece.kind ≠ .raw).map
        (fun piece => some piece.text) = (passedRanges sql).map sql.slice? ∧
      ∀ front before marker back,
        (BindSyntax.generic.cut sql).segments = front ++ (before, marker) :: back →
        RawWithin (BindCut.encodeFrom 0 front before) (BindCut.code front.length)
          (scan (BindSyntax.generic.cut sql).encoded) := by
  -- The encoded text is the one that the search for literal spans was shown to follow.
  have scanned : scan (BindSyntax.generic.cut sql).encoded = itemPieces 0 (bindItems none sql) := by
    rw [BindCut.encoded, cut_generic, encodeFrom_cutOf, scan_encodeItems]
  have covered := map_slice?_itemHits (bindItems none sql) []
  rw [List.nil_append, flatMap_bindItems, ← filter_itemPieces 0] at covered
  rw [scanned, cut_generic, passedRanges, @hits_bytes none none sql 0 rfl]
  refine ⟨covered.symm, fun front before marker back split => ?_⟩
  have within := @rawWithin_itemPieces _ 0 _ _ _ _ split
  rwa [Nat.zero_add] at within

/-- A marker behind a literal that looks like one is hidden, and the literal is kept. -/
theorem scan_encoded_literal :
    passedRanges "':a'=:b".toList = [⟨0, 4⟩] ∧
      RawWithin "':a'=".toList "___BIND0".toList
        (scan (BindSyntax.generic.cut "':a'=:b".toList).encoded) := by
  -- The one marker is the colon's, as the quoted one was passed over.
  have split : (BindSyntax.generic.cut "':a'=:b".toList).segments =
      [] ++ ("':a'=".toList, ":b".toList) :: [] := by decide +kernel
  exact ⟨by decide +kernel, (scan_encoded "':a'=:b".toList).2 [] _ _ [] split⟩

end SqlLayout
