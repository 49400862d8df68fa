import SqlLayout.Bind.Search
import SqlLayout.Proofs.Bind.Marked
import SqlLayout.Proofs.Lexing.LineBreaks

/-! The search for markers on bytes and the reading on characters, which go in step. -/

namespace SqlLayout

/-- A character of ASCII is one byte. -/
theorem encode_ascii {c : Char} (ascii : c.toNat < 128) :
    String.utf8EncodeChar c = [c.toUInt8] := by
  -- A character of ASCII has size one, and its only byte is its code.
  refine String.utf8EncodeChar_eq_singleton (Char.utf8Size_eq_one_iff.mpr ?_)
  rw [UInt32.le_iff_toNat_le]
  exact Nat.le_of_lt_succ ascii

/-- Every byte of any other character lies beyond ASCII. -/
theorem encode_high {c : Char} (foreign : ¬c.toNat < 128) :
    ∀ b ∈ String.utf8EncodeChar c, 128 ≤ b.toNat := by
  have large : ¬c.val.toNat ≤ 127 := fun small => foreign (Nat.lt_succ_of_le small)
  -- Every byte is one of the marks of its place, all from 128 on, with a few bits added to it.
  simp only [String.utf8EncodeChar, large, if_false]
  split
  · simp only [List.forall_mem_cons, UInt8.toNat_ofNat']
    refine ⟨by omega, by omega, List.forall_mem_nil _⟩
  · split
    · simp only [List.forall_mem_cons, UInt8.toNat_ofNat']
      refine ⟨by omega, by omega, by omega, List.forall_mem_nil _⟩
    · simp only [List.forall_mem_cons, UInt8.toNat_ofNat']
      refine ⟨by omega, by omega, by omega, by omega, List.forall_mem_nil _⟩

/-- The byte of a character of ASCII is its code. -/
theorem toNat_toUInt8 {c : Char} (ascii : c.toNat < 128) : c.toUInt8.toNat = c.toNat := by
  -- A code below 128 fits in a byte.
  have same : c.toUInt8.toNat = c.toNat % 256 := rfl
  omega

/-- Characters of ASCII are told apart by their bytes. -/
theorem toUInt8_inj {c d : Char} (ascii : c.toNat < 128) (other : d.toNat < 128) :
    c.toUInt8 = d.toUInt8 ↔ c = d := by
  -- Below 128 the byte is the code, and the code is the character.
  refine ⟨fun same => ?_, congrArg Char.toUInt8⟩
  have codes := congrArg UInt8.toNat same
  rw [toNat_toUInt8 ascii, toNat_toUInt8 other] at codes
  exact Char.toNat_inj.mp codes

/-- A byte beyond ASCII comes behind those of all characters of ASCII. -/
theorem not_le_toUInt8 {b : UInt8} {c : Char} (high : 128 ≤ b.toNat) (ascii : c.toNat < 128) :
    ¬b ≤ c.toUInt8 := by
  -- Both are compared as numbers.
  rw [UInt8.le_iff_toNat_le, toNat_toUInt8 ascii]
  omega

/-- A byte beyond ASCII is that of no character of ASCII. -/
theorem ne_toUInt8 {b : UInt8} {c : Char} (high : 128 ≤ b.toNat) (ascii : c.toNat < 128) :
    b ≠ c.toUInt8 := by
  -- Equal bytes would be ordered as well.
  rintro rfl
  exact not_le_toUInt8 high ascii (UInt8.le_refl _)

/-- A character beyond ASCII begins with a byte that lies there too. -/
theorem exists_high {c : Char} (foreign : ¬c.toNat < 128) :
    ∃ b others, String.utf8EncodeChar c = b :: others ∧ 128 ≤ b.toNat := by
  -- Every character has a first byte, and all bytes of this one are high.
  obtain ⟨b, others, split⟩ := List.exists_cons_of_ne_nil (@String.utf8EncodeChar_ne_nil c)
  exact ⟨b, others, split, encode_high foreign b (by simp [split])⟩

namespace Text

@[simp]
theorem bytes_nil : bytes [] = [] :=
  rfl

/-- Texts one behind the other have the bytes of both. -/
theorem bytes_append (front back : Text) : (front ++ back).bytes = front.bytes ++ back.bytes :=
  -- Every character is encoded on its own.
  List.flatMap_append

/-- The bytes of a text with a character of ASCII in front. -/
theorem bytes_ascii {c : Char} (ascii : c.toNat < 128) (rest : Text) :
    bytes (c :: rest) = c.toUInt8 :: rest.bytes := by
  -- The character is encoded as one byte.
  rw [bytes, List.flatMap_cons, encode_ascii ascii]
  rfl

/-- There are as many bytes as the text takes. -/
theorem length_bytes (text : Text) : text.bytes.length = text.byteLength := by
  -- Each character has as many bytes as its size says.
  induction text with
  | nil => rfl
  | cons c rest ih =>
    rw [bytes, List.flatMap_cons, List.length_append, String.length_utf8EncodeChar, byteLength]
    exact congrArg (c.utf8Size + ·) ih

/-- A text without bytes is empty. -/
theorem bytes_eq_nil {text : Text} : text.bytes = [] ↔ text = [] := by
  -- Every character has at least one byte.
  refine ⟨fun bare => ?_, by rintro rfl; rfl⟩
  cases text with
  | nil => rfl
  | cons c rest => exact absurd (List.append_eq_nil_iff.mp bare).1 String.utf8EncodeChar_ne_nil

/-- The first byte of a text is that of a character of ASCII exactly if the character comes first. -/
theorem head?_bytes {c : Char} (ascii : c.toNat < 128) (text : Text) :
    text.bytes.head? = some c.toUInt8 ↔ text.head? = some c := by
  -- The first byte of a character beyond ASCII is that of no other character.
  cases text with
  | nil => simp [bytes]
  | cons d rest =>
    by_cases low : d.toNat < 128
    · rw [bytes_ascii low, List.head?_cons, List.head?_cons, Option.some.injEq, Option.some.injEq]
      exact toUInt8_inj low ascii
    · obtain ⟨b, others, split, high⟩ := exists_high low
      rw [bytes, List.flatMap_cons, split]
      refine iff_of_false ?_ ?_
      · rintro ⟨⟩
        exact ne_toUInt8 high ascii rfl
      · rintro ⟨⟩
        exact low ascii

/-- The first byte of a text tells the first character from those of ASCII. -/
theorem exists_first (c : Char) (rest : Text) :
    ∃ b others, bytes (c :: rest) = b :: others ∧
      ∀ {d : Char}, d.toNat < 128 → (b = d.toUInt8 ↔ c = d) := by
  -- no character is written without a byte
  have filled : bytes (c :: rest) ≠ [] := mt bytes_eq_nil.mp (List.cons_ne_nil c rest)
  obtain ⟨b, others, split⟩ := List.exists_cons_of_ne_nil filled
  refine ⟨b, others, split, fun ascii => ?_⟩
  have first := head?_bytes ascii (c :: rest)
  rwa [split, List.head?_cons, List.head?_cons, Option.some.injEq, Option.some.injEq] at first

/-- The bytes of a text of ASCII stand at the front exactly where the text does. -/
theorem bytes_prefix {word : Text} (ascii : ∀ c ∈ word, c.toNat < 128) (text : Text) :
    word.bytes <+: text.bytes ↔ word <+: text := by
  -- The word is compared one character at a time, each of which is one byte.
  induction word generalizing text with
  | nil => exact iff_of_true List.nil_prefix List.nil_prefix
  | cons c word ih =>
    obtain ⟨here, others⟩ := List.forall_mem_cons.mp ascii
    have first := head?_bytes here text
    rw [bytes_ascii here]
    by_cases begins : text.head? = some c
    · obtain ⟨rest, rfl⟩ := List.head?_eq_some_iff.mp begins
      rw [bytes_ascii here, List.cons_prefix_cons, List.cons_prefix_cons, ih others]
      simp
    · refine iff_of_false ?_ ?_
      · rintro ⟨rest, split⟩
        exact begins (first.mp (by rw [← split]; rfl))
      · rintro ⟨rest, rfl⟩
        exact begins rfl

end Text

/-- What holds of the characters with the first 128 codes holds of every character of ASCII. -/
theorem forall_ascii {p : Char → Prop} (all : ∀ code < 128, p (Char.ofNat code)) {c : Char}
    (ascii : c.toNat < 128) : p c := by
  -- A character is that of its own code.
  have here := all c.toNat ascii
  rwa [Char.ofNat_toNat] at here

/-- No byte beyond ASCII is that of a letter or a digit. -/
theorem isAlphanumByte_high {b : UInt8} (high : 128 ≤ b.toNat) : isAlphanumByte b = false := by
  -- A high byte is above the last digit and the last letter of either case.
  have digit := @not_le_toUInt8 b '9' high (by decide)
  have capital := @not_le_toUInt8 b 'Z' high (by decide)
  have small := @not_le_toUInt8 b 'z' high (by decide)
  simp [isAlphanumByte, digit, capital, small]

/-- No byte beyond ASCII is one of a marker's name. -/
theorem isMarkerByte_high {b : UInt8} (high : 128 ≤ b.toNat) : isMarkerByte b = false := by
  -- A high byte is no letter or digit, and none of the two signs.
  have underscore := @ne_toUInt8 b '_' high (by decide)
  have point := @ne_toUInt8 b '.' high (by decide)
  simp [isMarkerByte, isAlphanumByte_high high, underscore, point]

/-- No byte beyond ASCII keeps a colon from beginning a marker. -/
theorem gluesColonByte_high {b : UInt8} (high : 128 ≤ b.toNat) : gluesColonByte b = false := by
  -- A high byte is no letter or digit, and none of the three signs.
  have underscore := @ne_toUInt8 b '_' high (by decide)
  have dollar := @ne_toUInt8 b '$' high (by decide)
  have colon := @ne_toUInt8 b ':' high (by decide)
  simp [gluesColonByte, isAlphanumByte_high high, underscore, dollar, colon]

/-- The bytes of a marker's name are those of its characters. -/
theorem isMarkerByte_toUInt8 {c : Char} (ascii : c.toNat < 128) :
    isMarkerByte c.toUInt8 = isMarkerChar c :=
  -- The two tests are compared on each of the 128 characters.
  @forall_ascii (fun c => isMarkerByte c.toUInt8 = isMarkerChar c) (by decide +kernel) c ascii

/-- The bytes that keep a colon from beginning a marker are those of such characters. -/
theorem gluesColonByte_toUInt8 {c : Char} (ascii : c.toNat < 128) :
    gluesColonByte c.toUInt8 = gluesColon c :=
  -- The two tests are compared on each of the 128 characters.
  @forall_ascii (fun c => gluesColonByte c.toUInt8 = gluesColon c) (by decide +kernel) c ascii

/-- A name character is one of ASCII. -/
theorem isNameChar_foreign {c : Char} (foreign : ¬c.toNat < 128) : isNameChar c = false := by
  -- The codes of name characters all lie below 128.
  refine Bool.eq_false_iff.mpr fun name => ?_
  have range := isNameChar_range name
  omega

/-- So is a character of a marker's name. -/
theorem isMarkerChar_foreign {c : Char} (foreign : ¬c.toNat < 128) : isMarkerChar c = false := by
  -- a character of a marker is one of a name, and those are ASCII
  refine Bool.eq_false_iff.mpr fun marker => ?_
  have name := isNameChar_of_isMarkerChar marker
  rw [isNameChar_foreign foreign] at name
  cases name

/-- So is a character that keeps a colon from beginning a marker. -/
theorem gluesColon_foreign {c : Char} (foreign : ¬c.toNat < 128) : gluesColon c = false := by
  -- What glues a colon is a name character or a colon itself.
  have apart := isNameChar_foreign foreign
  simp only [isNameChar, Bool.or_eq_false_iff] at apart
  simp [gluesColon, apart]

namespace Text

/-- The name that a text begins with is the one that its bytes begin with. -/
theorem takeWhile_bytes (text : Text) :
    text.bytes.takeWhile isMarkerByte = bytes (text.takeWhile isMarkerChar) := by
  -- A name ends at the first character that is none of its own, in front of all its bytes.
  induction text with
  | nil => rfl
  | cons c rest ih =>
    by_cases ascii : c.toNat < 128
    · have same := isMarkerByte_toUInt8 ascii
      rw [bytes_ascii ascii]
      rcases here : isMarkerChar c with _ | _
      · rw [here] at same
        simp [same, here, bytes]
      · rw [here] at same
        rw [List.takeWhile_cons_of_pos same, List.takeWhile_cons_of_pos here, bytes_ascii ascii, ih]
    · -- Neither the character nor the first of its bytes is one of a name.
      obtain ⟨b, others, split, high⟩ := exists_high ascii
      simp [bytes, split, isMarkerByte_high high, isMarkerChar_foreign ascii]

/-- The bytes of a text are all of a marker's name exactly if its characters are. -/
theorem all_bytes (text : Text) : text.bytes.all isMarkerByte = text.all isMarkerChar := by
  induction text with
  | nil => rfl
  | cons c rest ih =>
    -- one byte for an ASCII character; several for another, and neither end takes any of them
    by_cases ascii : c.toNat < 128
    · rw [bytes_ascii ascii, List.all_cons, List.all_cons, isMarkerByte_toUInt8 ascii, ih]
    · obtain ⟨b, others, split, high⟩ := exists_high ascii
      simp [bytes, split, isMarkerByte_high high, isMarkerChar_foreign ascii]

/-- The last byte of a text keeps a colon behind it exactly if the last character does. -/
theorem last_bytes (text : Text) :
    text.bytes.getLast?.any gluesColonByte = text.getLast?.any gluesColon := by
  -- The last character ends with its last byte, and only those of ASCII keep a colon.
  rcases List.eq_nil_or_concat text with rfl | ⟨front, c, rfl⟩
  · rfl
  · rw [List.concat_eq_append, bytes_append, List.getLast?_concat, Option.any_some]
    by_cases ascii : c.toNat < 128
    · rw [bytes_ascii ascii, ← gluesColonByte_toUInt8 ascii]
      simp [bytes]
    · have filled : bytes [c] ≠ [] := mt bytes_eq_nil.mp (List.cons_ne_nil c [])
      have among : (bytes [c]).getLast filled ∈ String.utf8EncodeChar c := by simp [bytes]
      rw [List.getLast?_append_of_ne_nil _ filled, List.getLast?_eq_some_getLast filled,
        gluesColon_foreign ascii]
      exact gluesColonByte_high (encode_high ascii _ among)

end Text

/-- A word that stands at the front is found there. -/
theorem findBytes?_front {word bytes : List UInt8} (solid : word ≠ []) (front : word <+: bytes) :
    findBytes? word bytes = some 0 := by
  -- The front is looked at first.
  cases bytes with
  | nil => exact absurd (List.prefix_nil.mp front) solid
  | cons b rest => rw [findBytes?, if_pos (List.isPrefixOf_iff_prefix.mpr front)]

/-- A word that does not stand at the front is looked for behind the first byte. -/
theorem findBytes?_cons {word rest : List UInt8} {b : UInt8} (absent : ¬word <+: b :: rest) :
    findBytes? word (b :: rest) = (findBytes? word rest).map (· + 1) := by
  -- Where the word does not begin, one byte is passed.
  rw [findBytes?, if_neg (mt List.isPrefixOf_iff_prefix.mp absent)]

/-- Counting on behind some bytes is counting them too. -/
theorem map_add_map (found : Option Nat) (first second : Nat) :
    (found.map (· + first)).map (· + second) = found.map (· + (second + first)) := by
  -- The sizes are added in a row.
  rw [Option.map_map]
  congr 1
  funext size
  simp only [Function.comp_apply]
  omega

/-- The bytes of characters beyond ASCII are passed in the search for a word of ASCII. -/
theorem findBytes?_high {c : Char} (ascii : c.toNat < 128) (word : List UInt8) {front : List UInt8}
    (high : ∀ b ∈ front, 128 ≤ b.toNat) (rest : List UInt8) :
    findBytes? (c.toUInt8 :: word) (front ++ rest) =
      (findBytes? (c.toUInt8 :: word) rest).map (· + front.length) := by
  -- The word begins with a byte of ASCII, so it begins nowhere among these.
  induction front with
  | nil => simp
  | cons b front ih =>
    obtain ⟨here, others⟩ := List.forall_mem_cons.mp high
    have absent : ¬c.toUInt8 :: word <+: b :: (front ++ rest) := by
      rw [List.cons_prefix_cons]
      rintro ⟨same, _⟩
      exact ne_toUInt8 here ascii same.symm
    rw [List.cons_append, findBytes?_cons absent, ih others, map_add_map, List.length_cons,
      Nat.add_comm 1]

/-- The closing word of a span is found in the bytes where it is found in the text. -/
theorem findBytes?_bytes {close : Text} (ascii : ∀ c ∈ close, c.toNat < 128) (solid : close ≠ [])
    (text : Text) :
    (findBytes? close.bytes text.bytes).map (· + close.bytes.length) =
      (closedBy? close text).map fun found => found.1.bytes.length := by
  -- Character by character, with all bytes of a character passed in one step.
  induction text with
  | nil => rfl
  | cons c rest ih =>
    have filled : close.bytes ≠ [] := mt Text.bytes_eq_nil.mp solid
    rw [closedBy?]
    rcases here : Text.after? close (c :: rest) with _ | after
    · have absent : ¬close.bytes <+: Text.bytes (c :: rest) := by
        rw [Text.bytes_prefix ascii]
        rintro ⟨after, split⟩
        rw [Text.after?_eq_some.mpr split.symm] at here
        cases here
      -- The closing word is looked for behind all bytes of the character.
      have step : findBytes? close.bytes (Text.bytes (c :: rest)) =
          (findBytes? close.bytes (Text.bytes rest)).map (· + (String.utf8EncodeChar c).length) := by
        by_cases low : c.toNat < 128
        · rw [Text.bytes_ascii low] at absent ⊢
          rw [findBytes?_cons absent, encode_ascii low]
          rfl
        · obtain ⟨d, close, rfl⟩ := List.exists_cons_of_ne_nil solid
          have first := ascii d (.head close)
          rw [Text.bytes_ascii first]
          exact findBytes?_high first _ (encode_high low) _
      rw [step, map_add_map, Nat.add_comm, ← map_add_map, ih, Option.map_map, Option.map_map]
      congr 1
      funext found
      simp [Text.bytes, Nat.add_comm]
    · have split := Text.after?_eq_some.mp here
      have front : close.bytes <+: Text.bytes (c :: rest) := by
        rw [split, Text.bytes_append]
        exact List.prefix_append _ _
      rw [findBytes?_front filled front]
      simp

/-- A byte that is no quote is passed. -/
theorem quotedSize?_other {quote b : UInt8} (other : b ≠ quote) (rest : List UInt8) :
    quotedSize? quote (b :: rest) = (quotedSize? quote rest).map (· + 1) := by
  -- A byte other than the quote is passed, whatever comes next.
  cases rest with
  | nil => simp [quotedSize?, other]
  | cons d rest => rw [quotedSize?, if_neg other]

/-- A quote that no quote follows ends the span. -/
theorem quotedSize?_single {quote : UInt8} {rest : List UInt8} (other : rest.head? ≠ some quote) :
    quotedSize? quote (quote :: rest) = some 1 := by
  -- The quote closes the span unless another one follows.
  cases rest with
  | nil => simp [quotedSize?]
  | cons d rest =>
    have apart : d ≠ quote := fun same => other (congrArg some same)
    simp [quotedSize?, apart]

/-- The bytes of characters beyond ASCII are passed in the search for a quote. -/
theorem quotedSize?_high {quote : Char} (ascii : quote.toNat < 128) {front : List UInt8}
    (high : ∀ b ∈ front, 128 ≤ b.toNat) (rest : List UInt8) :
    quotedSize? quote.toUInt8 (front ++ rest) =
      (quotedSize? quote.toUInt8 rest).map (· + front.length) := by
  induction front with
  | nil => simp
  | cons b front ih =>
    obtain ⟨here, others⟩ := List.forall_mem_cons.mp high
    -- a byte of a character beyond ASCII is never the quote, and is passed
    rw [List.cons_append, quotedSize?_other (ne_toUInt8 here ascii), ih others, map_add_map,
      List.length_cons, Nat.add_comm 1]

/-- A quoted span ends in the bytes where it ends in the text. -/
theorem quotedSize?_bytes {quote : Char} (ascii : quote.toNat < 128) (text : Text) :
    quotedSize? quote.toUInt8 text.bytes =
      (quotedEnd? quote text).map fun found => found.1.bytes.length := by
  -- Follows the reading on characters, which takes a doubled quote in one step.
  fun_induction quotedEnd? quote text with
  | case1 => rfl
  | case2 =>
    rw [Text.bytes_ascii ascii, quotedSize?_single (by simp [Text.bytes]),
      Option.map_some, Text.bytes_ascii ascii]
    rfl
  | case3 rest ih =>
    rw [Text.bytes_ascii ascii, Text.bytes_ascii ascii, quotedSize?, if_pos rfl]
    simp only [if_pos, ih, Option.map_map]
    congr 1
    funext found
    simp [Text.bytes_ascii ascii]
  | case4 d rest other =>
    have apart : (Text.bytes (d :: rest)).head? ≠ some quote.toUInt8 := by
      rw [ne_eq, Text.head?_bytes ascii]
      rintro ⟨⟩
      exact other rfl
    rw [Text.bytes_ascii ascii, quotedSize?_single apart, Option.map_some, Text.bytes_ascii ascii]
    rfl
  | case5 c rest other ih =>
    -- All bytes of the character are passed.
    have step : quotedSize? quote.toUInt8 (Text.bytes (c :: rest)) =
        (quotedSize? quote.toUInt8 (Text.bytes rest)).map
          (· + (String.utf8EncodeChar c).length) := by
      by_cases low : c.toNat < 128
      · have apart : c.toUInt8 ≠ quote.toUInt8 := mt (toUInt8_inj low ascii).mp other
        rw [Text.bytes_ascii low, quotedSize?_other apart, encode_ascii low]
        rfl
      · exact quotedSize?_high ascii (encode_high low) _
    rw [step, ih, Option.map_map, Option.map_map]
    congr 1
    funext found
    simp [Text.bytes, Nat.add_comm]

/-- A character of ASCII that closes a span is found in the bytes where it is found in the text. -/
theorem findBytes?_char {close : Char} (ascii : close.toNat < 128) (text : Text) :
    (closedBy? [close] text = none ∧ findBytes? [close.toUInt8] text.bytes = none) ∨
    ∃ body after : Text, closedBy? [close] text = some (body ++ [close], after) ∧
      text = body ++ close :: after ∧
      findBytes? [close.toUInt8] text.bytes = some body.bytes.length := by
  -- The place of the character is the number of bytes in front of it.
  have sizes := @findBytes?_bytes [close] (by simpa using ascii) (by simp) text
  have word : Text.bytes [close] = [close.toUInt8] := Text.bytes_ascii ascii []
  rw [word] at sizes
  rcases found : closedBy? [close] text with _ | ⟨span, after⟩
  · rw [found, Option.map_none] at sizes
    exact .inl ⟨rfl, Option.map_eq_none_iff.mp sizes⟩
  · obtain ⟨body, rfl⟩ := closedBy?_suffix found
    have whole := closedBy?_append found
    rw [found, Option.map_some, Text.bytes_append, word, List.length_append] at sizes
    obtain ⟨size, place, total⟩ := Option.map_eq_some_iff.mp sizes
    refine .inr ⟨body, after, rfl, by rw [← whole, List.append_assoc]; rfl, ?_⟩
    rw [place]
    exact congrArg some (Nat.add_right_cancel total)

/-- A span with its opening word takes the bytes of both. -/
theorem size_opened (kind : Kind) (opening : Text) (found : Option (Text × Text)) :
    (opened kind opening found).map (fun found => found.1.text.bytes.length) =
      (found.map fun found => found.1.bytes.length).map (· + opening.bytes.length) := by
  -- The opening word lengthens the span by its own bytes.
  cases found with
  | none => rfl
  | some found => simp [opened, Text.bytes_append, Nat.add_comm]

/-- No literal span begins with a byte that opens none. -/
theorem spanSize?_of_plain {b : UInt8} {rest : List UInt8}
    (plain : ∀ c ∈ ['\'', '"', '\x7b'], b ≠ c.toUInt8)
    (slash : b = '/'.toUInt8 → rest.head? ≠ some '*'.toUInt8) : spanSize? (b :: rest) = none := by
  -- the three bytes that open a span, each ruled out; a slash opens one only before a star
  have single := plain '\'' (by simp)
  have double := plain '"' (by simp)
  have brace := plain '\x7b' (by simp)
  rw [spanSize?, if_neg (not_or.mpr ⟨single, double⟩), if_neg (not_and.mpr slash), if_neg brace]

/-- The literal span that a text begins with takes the bytes that are passed. -/
theorem spanSize?_bytes (text : Text) :
    spanSize? text.bytes = (literal? text).map fun found => found.1.text.bytes.length := by
  -- The four openings come one after the other, and then every other first byte.
  cases text with
  | nil => rfl
  | cons c rest =>
    by_cases quote : c = '\''
    · subst quote
      rw [Text.bytes_ascii (by decide), spanSize?, if_pos (.inl rfl), quotedSize?_bytes (by decide)]
      exact (size_opened .text ['\''] _).symm
    by_cases double : c = '"'
    · subst double
      rw [Text.bytes_ascii (by decide), spanSize?, if_pos (.inr rfl), quotedSize?_bytes (by decide)]
      exact (size_opened .name ['"'] _).symm
    by_cases brace : c = '\x7b'
    · subst brace
      have closed := @findBytes?_bytes ['\x7d'] (by decide) (by simp) rest
      rw [Text.bytes_ascii (by decide), spanSize?, if_neg (by decide),
        if_neg (fun both => absurd both.1 (by decide)), if_pos rfl]
      refine Eq.trans ?_ (size_opened .comment ['\x7b'] _).symm
      rw [← closed, map_add_map]
      rfl
    have plain : c ∉ ['\'', '"', '\x7b'] := by simp [quote, double, brace]
    by_cases star : c = '/' ∧ rest.head? = some '*'
    · obtain ⟨rfl, front⟩ := star
      obtain ⟨rest, rfl⟩ := List.head?_eq_some_iff.mp front
      have closed := @findBytes?_bytes ['*', '/'] (by decide) (by simp) rest
      rw [Text.bytes_ascii (by decide), Text.bytes_ascii (by decide), spanSize?,
        if_neg (by decide), if_pos ⟨rfl, rfl⟩]
      refine Eq.trans ?_ (size_opened .comment ['/', '*'] _).symm
      rw [← closed, map_add_map]
      rfl
    · have single : c = '/' → rest.head? ≠ some '*' := fun slash front => star ⟨slash, front⟩
      rw [literal?_of_plain plain single, Option.map_none]
      obtain ⟨b, others, split, first⟩ := Text.exists_first c rest
      rw [split]
      refine spanSize?_of_plain ?_ ?_
      · intro opening member same
        have low : ∀ c ∈ ['\'', '"', '\x7b'], c.toNat < 128 := by decide
        rw [first (low opening member)] at same
        exact plain (same ▸ member)
      · intro slash
        obtain rfl := (first (by decide)).mp slash
        rw [Text.bytes_ascii (by decide)] at split
        cases split
        rw [ne_eq, Text.head?_bytes (by decide)]
        exact single rfl

/-- The name that a text begins with takes the bytes of its characters. -/
theorem nameSize_bytes (text : Text) :
    nameSize text.bytes = (Text.bytes (text.takeWhile isMarkerChar)).length := by
  -- The run of marker bytes is that of the marker characters.
  rw [nameSize, Text.takeWhile_bytes]

/-- A text begins with no name exactly if its bytes do. -/
theorem nameSize_eq_zero (text : Text) :
    nameSize text.bytes = 0 ↔ text.takeWhile isMarkerChar = [] := by
  -- A run without bytes is one without characters.
  rw [nameSize_bytes, List.length_eq_zero_iff, Text.bytes_eq_nil]

/-- The rest of a colon marker takes the bytes that are found. -/
theorem colonSize?_bytes (text : Text) :
    colonSize? text.bytes = (colonMarker? text).map fun found => found.1.bytes.length := by
  -- A brace and a bracket come first, as no name begins with them.
  cases text with
  | nil => rfl
  | cons c rest =>
    by_cases brace : c = '\x7b'
    · subst brace
      rw [Text.bytes_ascii (by decide), colonSize?, if_pos rfl, colonMarker?]
      rcases @findBytes?_char '\x7d' (by decide) rest with
        ⟨unclosed, absent⟩ | ⟨body, after, closed, rfl, place⟩
      · rw [unclosed, absent]
        rfl
      · have name : (Text.bytes (body ++ '\x7d' :: after)).take body.bytes.length = body.bytes := by
          rw [Text.bytes_append, List.take_left]
        rw [closed, place, Option.bind_some, Option.bind_some, name, Text.all_bytes]
        simp only [List.dropLast_concat, ne_eq, List.length_eq_zero_iff, Text.bytes_eq_nil]
        split
        · have brace : Text.bytes ('\x7b' :: (body ++ ['\x7d'])) =
              '\x7b'.toUInt8 :: (body.bytes ++ ['\x7d'.toUInt8]) := by
            rw [Text.bytes_ascii (by decide), Text.bytes_append, Text.bytes_ascii (by decide)]
            rfl
          simp [brace]
        · rfl
    by_cases bracket : c = '['
    · subst bracket
      rw [Text.bytes_ascii (by decide), colonSize?, if_neg (by decide), if_pos rfl, colonMarker?]
      rcases @findBytes?_char ']' (by decide) rest with
        ⟨unclosed, absent⟩ | ⟨tag, after, closed, rfl, place⟩
      · rw [unclosed, absent]
        rfl
      · have behind : (Text.bytes (tag ++ ']' :: after)).drop (tag.bytes.length + 1) =
            after.bytes := by
          rw [Text.bytes_append, Text.bytes_ascii (by decide), List.drop_append]
          simp
        rw [closed, place, Option.bind_some, Option.bind_some, behind]
        simp only [nameSize_eq_zero]
        split
        · rfl
        · have bracket : Text.bytes ('[' :: (tag ++ [']']) ++ after.takeWhile isMarkerChar) =
              '['.toUInt8 :: (tag.bytes ++ [']'.toUInt8]) ++
                Text.bytes (after.takeWhile isMarkerChar) := by
            rw [Text.bytes_append, Text.bytes_ascii (by decide), Text.bytes_append,
              Text.bytes_ascii (by decide)]
            rfl
          rw [nameSize_bytes, Option.map_some, bracket]
          simp
          omega
    · -- What is left is a name, or no marker at all.
      obtain ⟨b, others, split, first⟩ := Text.exists_first c rest
      have name := nameSize_eq_zero (c :: rest)
      have other : ∀ d ∈ (c :: rest).head?, d ∉ ['\x7b', '['] := by
        rintro d ⟨⟩
        simp [brace, bracket]
      rw [split, colonSize?, if_neg (mt (first (by decide)).mp brace),
        if_neg (mt (first (by decide)).mp bracket), colonMarker?_of_name other, ← split]
      rcases sort : isMarkerByte b with _ | _
      · have bare : nameSize (Text.bytes (c :: rest)) = 0 := by simp [split, nameSize, sort]
        rw [if_pos (name.mp bare)]
        rfl
      · have solid : nameSize (Text.bytes (c :: rest)) ≠ 0 := by simp [split, nameSize, sort]
        rw [if_neg (mt name.mpr solid), nameSize_bytes]
        rfl

/-- The rest of an enclosed marker takes the bytes that are found. -/
theorem enclosedSize?_bytes {sign : Char} (ascii : sign.toNat < 128) (text : Text) :
    enclosedSize? sign.toUInt8 text.bytes =
      (enclosedMarker? sign text).map fun found => found.1.bytes.length := by
  -- The byte behind the name is the first of what is left of the text.
  have behind : text.bytes[nameSize text.bytes]? =
      (Text.bytes (text.dropWhile isMarkerChar)).head? := by
    have parts : text.bytes = Text.bytes (text.takeWhile isMarkerChar) ++
        Text.bytes (text.dropWhile isMarkerChar) := by
      rw [← Text.bytes_append, List.takeWhile_append_dropWhile]
    rw [nameSize_bytes, parts, List.getElem?_append_right (Nat.le_refl _), Nat.sub_self,
      List.head?_eq_getElem?]
  rw [enclosedSize?, enclosedMarker?, behind]
  by_cases bare : text.takeWhile isMarkerChar = []
  · rw [if_pos bare, if_neg fun both => both.1 ((nameSize_eq_zero text).mpr bare)]
    rfl
  · rw [if_neg bare]
    have solid := mt (nameSize_eq_zero text).mp bare
    by_cases closes : (text.dropWhile isMarkerChar).head? = some sign
    · obtain ⟨after, rest⟩ := List.head?_eq_some_iff.mp closes
      rw [if_pos ⟨solid, (Text.head?_bytes ascii _).mpr closes⟩, rest]
      simp [Text.after?, Text.bytes_append, Text.bytes_ascii ascii, nameSize_bytes]
    · rw [if_neg fun both => closes ((Text.head?_bytes ascii _).mp both.2), after?_of_head closes]
      rfl

/-- No marker begins with a byte other than those of the three signs. -/
theorem markerSize?_of_plain {previous : Option UInt8} {b : UInt8} {rest : List UInt8}
    (other : ∀ c ∈ [':', '#', '&'], b ≠ c.toUInt8) : markerSize? previous (b :: rest) = none := by
  -- Every form of marker begins with the byte of one of the three signs.
  have colon := other ':' (by simp)
  have hash := other '#' (by simp)
  have ampersand := other '&' (by simp)
  rw [markerSize?, if_neg colon, if_neg (not_or.mpr ⟨hash, ampersand⟩)]

/-- A marker behind its sign takes one byte more. -/
theorem size_behind {sign : Char} (ascii : sign.toNat < 128) (found : Option (Text × Text)) :
    (found.map fun found => (sign :: found.1, found.2)).map
        (fun found => (Text.bytes found.1).length) =
      (found.map fun found => found.1.bytes.length).map (· + 1) := by
  -- The sign lengthens the marker by its one byte.
  cases found with
  | none => rfl
  | some found => simp [Text.bytes_ascii ascii]

/-- The marker that a text begins with takes the bytes that are found. -/
theorem markerSize?_bytes {prior : Option UInt8} {previous : Option Char}
    (glued : prior.any gluesColonByte = previous.any gluesColon) (text : Text) :
    markerSize? prior text.bytes =
      (marker? previous text).map fun found => found.1.bytes.length := by
  -- Each of the three signs is one byte, which no other character begins with.
  cases text with
  | nil => rfl
  | cons c rest =>
    by_cases colon : c = ':'
    · subst colon
      rw [Text.bytes_ascii (by decide), markerSize?, if_pos rfl, glued, marker?]
      split
      · rfl
      · rw [colonSize?_bytes]
        exact (@size_behind ':' (by decide) _).symm
    by_cases hash : c = '#'
    · subst hash
      rw [Text.bytes_ascii (by decide), markerSize?, if_neg (by decide), if_pos (.inl rfl),
        enclosedSize?_bytes (by decide)]
      exact (@size_behind '#' (by decide) _).symm
    by_cases ampersand : c = '&'
    · subst ampersand
      rw [Text.bytes_ascii (by decide), markerSize?, if_neg (by decide), if_pos (.inr rfl),
        enclosedSize?_bytes (by decide)]
      exact (@size_behind '&' (by decide) _).symm
    have other : c ∉ [':', '#', '&'] := by simp [colon, hash, ampersand]
    obtain ⟨b, others, split, first⟩ := Text.exists_first c rest
    rw [marker?_eq_none other, split]
    refine markerSize?_of_plain fun sign member same => ?_
    have low : ∀ c ∈ [':', '#', '&'], c.toNat < 128 := by decide
    rw [first (low sign member)] at same
    exact other (same ▸ member)

/-- What the search comes upon among stretches that begin at an offset. -/
def itemHits : (offset : Nat) → List BindItem → List Hit
  | _, [] => []
  | offset, .literal piece :: items =>
    .span ⟨offset, offset + piece.text.byteLength⟩ ::
      itemHits (offset + piece.text.byteLength) items
  | offset, .marker text :: items =>
    .marker ⟨offset, offset + text.byteLength⟩ :: itemHits (offset + text.byteLength) items
  -- A character at which neither begins only moves the offset on.
  | offset, .plain c :: items => itemHits (offset + c.utf8Size) items

/-- A literal span at the front is passed as a whole. -/
theorem hits_of_span {offset : Nat} {previous : Option UInt8} {front rest : List UInt8}
    (found : spanSize? (front ++ rest) = some front.length) (solid : front ≠ []) :
    hits offset previous (front ++ rest) =
      .span ⟨offset, offset + front.length⟩ ::
        hits (offset + front.length) front.getLast? rest := by
  -- an empty hit would not advance, so the hit has a first byte to be found at
  obtain ⟨b, front, rfl⟩ := List.exists_cons_of_ne_nil solid
  rw [List.cons_append] at found ⊢
  rw [hits, found]
  simp

/-- A marker at the front is taken as a whole. -/
theorem hits_of_marker {offset : Nat} {previous : Option UInt8} {front rest : List UInt8}
    (plain : spanSize? (front ++ rest) = none)
    (found : markerSize? previous (front ++ rest) = some front.length) (solid : front ≠ []) :
    hits offset previous (front ++ rest) =
      .marker ⟨offset, offset + front.length⟩ ::
        hits (offset + front.length) front.getLast? rest := by
  -- No span begins there, so that the marker is found and passed as a whole.
  obtain ⟨b, front, rfl⟩ := List.exists_cons_of_ne_nil solid
  rw [List.cons_append] at plain found ⊢
  rw [hits, plain, found]
  simp

/-- A byte at which neither begins is passed. -/
theorem hits_of_plain {offset : Nat} {previous : Option UInt8} {b : UInt8} {rest : List UInt8}
    (plain : spanSize? (b :: rest) = none) (unmarked : markerSize? previous (b :: rest) = none) :
    hits offset previous (b :: rest) = hits (offset + 1) (some b) rest := by
  -- With neither a span nor a marker, one byte is passed.
  rw [hits, plain, unmarked]

/-- The last of some things is the one in front of what follows. -/
theorem last_cons {α : Type} (first : α) (front : List α) (previous : Option α) :
    (first :: front).getLast?.or previous = front.getLast?.or (some first) := by
  -- What stood before counts only where the rest is empty.
  rw [List.getLast?_cons]
  cases front.getLast? with
  | none => rfl
  | some last => rfl

/-- The bytes of characters beyond ASCII are passed one by one. -/
theorem hits_high {front : List UInt8} (high : ∀ b ∈ front, 128 ≤ b.toNat) (offset : Nat)
    (previous : Option UInt8) (rest : List UInt8) :
    hits offset previous (front ++ rest) =
      hits (offset + front.length) (front.getLast?.or previous) rest := by
  -- None of these bytes opens a span or begins a marker.
  induction front generalizing offset previous with
  | nil => rfl
  | cons b front ih =>
    obtain ⟨here, others⟩ := List.forall_mem_cons.mp high
    have low : ∀ c ∈ ['\'', '"', '\x7b', ':', '#', '&'], c.toNat < 128 := by decide
    have plain : spanSize? (b :: (front ++ rest)) = none :=
      spanSize?_of_plain (fun c member => ne_toUInt8 here (low c (by simp at member ⊢; tauto)))
        fun slash => absurd slash (ne_toUInt8 here (by decide))
    have unmarked : markerSize? previous (b :: (front ++ rest)) = none :=
      markerSize?_of_plain fun c member => ne_toUInt8 here (low c (by simp at member ⊢; tauto))
    rw [List.cons_append, hits_of_plain plain unmarked, ih others, last_cons, List.length_cons,
      Nat.add_assoc, Nat.add_comm 1]

/-- A character at which neither begins is passed, with all of its bytes. -/
theorem hits_of_char {c : Char} {rest : Text} {prior : Option UInt8} (offset : Nat)
    (plain : spanSize? (Text.bytes (c :: rest)) = none)
    (unmarked : markerSize? prior (Text.bytes (c :: rest)) = none) :
    hits offset prior (Text.bytes (c :: rest)) =
      hits (offset + c.utf8Size) (Text.bytes [c]).getLast? rest.bytes := by
  -- A character of ASCII is one byte, and any other one a run of bytes beyond ASCII.
  by_cases ascii : c.toNat < 128
  · have size : c.utf8Size = 1 := by rw [← String.length_utf8EncodeChar, encode_ascii ascii]; rfl
    rw [Text.bytes_ascii ascii] at plain unmarked ⊢
    rw [hits_of_plain plain unmarked, size, Text.bytes_ascii ascii]
    rfl
  · have passed := hits_high (encode_high ascii) offset prior rest.bytes
    have last : (String.utf8EncodeChar c).getLast?.or prior = (Text.bytes [c]).getLast? := by
      rw [Text.bytes, List.flatMap_singleton,
        List.getLast?_eq_some_getLast String.utf8EncodeChar_ne_nil]
      rfl
    rw [last, String.length_utf8EncodeChar] at passed
    exact passed

/-- The search on bytes comes upon what the reading on characters does. -/
theorem hits_bytes {prior : Option UInt8} {previous : Option Char} {text : Text} (offset : Nat)
    (glued : prior.any gluesColonByte = previous.any gluesColon) :
    hits offset prior text.bytes = itemHits offset (bindItems previous text) := by
  -- Stretch by stretch: the byte in front matters only as far as it keeps a colon.
  fun_induction bindItems previous text generalizing offset prior with
  | case1 =>
    rw [Text.bytes_nil, hits]
    rfl
  | case2 previous c rest piece after found ih =>
    have size := spanSize?_bytes (c :: rest)
    have whole := literal?_append found
    rw [found, ← whole, Text.bytes_append] at size
    have solid : piece.text.bytes ≠ [] := mt Text.bytes_eq_nil.mp (literal?_text_ne_nil found)
    rw [← whole, Text.bytes_append, hits_of_span size solid, ih _ (Text.last_bytes _),
      Text.length_bytes]
    rfl
  | case3 previous c rest plain marker after found ih =>
    have unspanned := spanSize?_bytes (c :: rest)
    have size := markerSize?_bytes glued (c :: rest)
    obtain ⟨filled, whole⟩ := marker?_append found
    rw [plain, ← whole, Text.bytes_append] at unspanned
    rw [found, ← whole, Text.bytes_append] at size
    have solid : marker.bytes ≠ [] := mt Text.bytes_eq_nil.mp filled
    rw [← whole, Text.bytes_append, hits_of_marker unspanned size solid, ih _ (Text.last_bytes _),
      Text.length_bytes]
    rfl
  | case4 previous c rest plain unmarked ih =>
    have unspanned := spanSize?_bytes (c :: rest)
    have size := markerSize?_bytes glued (c :: rest)
    rw [plain] at unspanned
    rw [unmarked] at size
    rw [hits_of_char offset unspanned size, ih _ (Text.last_bytes [c])]
    rfl

/-- The markers of a text are those among its stretches. -/
theorem markers_eq (sql : Text) : markers sql = markerRanges 0 (bindItems none sql) := by
  -- What the search comes upon are the markers once the literal spans are left out.
  have general : ∀ (items : List BindItem) (offset : Nat),
      (itemHits offset items).filterMap Hit.marker? = markerRanges offset items := by
    intro items
    induction items with
    | nil => exact fun _ => rfl
    | cons item items ih =>
      intro offset
      cases item with
      | literal piece => exact ih _
      | marker text => exact congrArg (_ :: ·) (ih _)
      | plain c => exact ih _
  rw [markers, @hits_bytes none none sql 0 rfl, general]

end SqlLayout
