import SqlLayout.Text.Basic

/-! Blank characters, the ends trimmed of them and the runs of them drawn together. -/

namespace SqlLayout

/-- The characters with the Unicode property White_Space. -/
def isBlank (c : Char) : Bool :=
  -- Tab to carriage return, the blank, and the spaces and separators beyond ASCII.
  (0x09 ≤ c.toNat && c.toNat ≤ 0x0D) || c.toNat == 0x20 || c.toNat == 0x85 || c.toNat == 0xA0 ||
    c.toNat == 0x1680 || (0x2000 ≤ c.toNat && c.toNat ≤ 0x200A) || c.toNat == 0x2028 ||
    c.toNat == 0x2029 || c.toNat == 0x202F || c.toNat == 0x205F || c.toNat == 0x3000

/-- Carriage return and line feed. -/
def isLineBreak (c : Char) : Bool :=
  -- No other character ends a line of input.
  c == '\r' || c == '\n'

namespace Text

/-- A text without the blanks it begins with. -/
def trimStart (text : Text) : Text :=
  -- Only the leading run goes, blanks further in stay.
  text.dropWhile isBlank

/-- A text without the characters of one sort that it ends with. -/
def dropEnd (dropped : Char → Bool) (text : Text) : Text :=
  -- The end of a text is the front of its reverse.
  (text.reverse.dropWhile dropped).reverse

/-- A text without the blanks it ends with. -/
def trimEnd (text : Text) : Text :=
  -- Only the trailing run goes.
  text.dropEnd isBlank

/-- A text without the blanks around it. -/
def trim (text : Text) : Text :=
  -- The two ends do not depend on each other.
  text.trimStart.trimEnd

/-- Every run of gap characters drawn together to one blank, where the text may continue a run. -/
def squeezeFrom (gap : Char → Bool) : (inside : Bool) → (text : Text) → Text
  | _, [] => []
  | inside, c :: rest =>
    if gap c then
      -- The first character of a run stands for all of it.
      if inside then squeezeFrom gap true rest else ' ' :: squeezeFrom gap true rest
    else c :: squeezeFrom gap false rest

/-- Every run of gap characters drawn together to one blank. -/
def squeeze (gap : Char → Bool) (text : Text) : Text :=
  -- No run is open in front of a text.
  squeezeFrom gap false text

end Text

end SqlLayout
