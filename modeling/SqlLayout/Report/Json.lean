import SqlLayout.Token

/-! A token tree as JSON, spread over lines that are indented by two blanks a level. -/

namespace SqlLayout

/-- One character as it is written in a JSON string. -/
def jsonChar (c : Char) : Text :=
  match c with
  | '"' => ['\\', '"']
  | '\\' => ['\\', '\\']
  | '\x08' => ['\\', 'b']
  | '\t' => ['\\', 't']
  | '\n' => ['\\', 'n']
  | '\x0c' => ['\\', 'f']
  | '\r' => ['\\', 'r']
  | _ =>
    -- The other control characters are written as four hexadecimal digits.
    if c.toNat < 0x20 then
      ['\\', 'u', '0', '0', Nat.digitChar (c.toNat / 16), Nat.digitChar (c.toNat % 16)]
    else [c]

/-- A JSON string. -/
def jsonString (text : Text) : Text :=
  -- Every character is written for itself.
  '"' :: text.flatMap jsonChar ++ ['"']

/-- The start of a line at a level. -/
def jsonMargin (level : Nat) : Text :=
  -- Each level is two blanks.
  '\n' :: List.replicate (2 * level) ' '

/-- Items between brackets, each on a line one level further in. -/
def jsonBlock (opening closing : Char) (level : Nat) (items : List Text) : Text :=
  -- A comma stands at the end of every line but the last.
  opening :: [','].intercalate (items.map fun item => jsonMargin (level + 1) ++ item) ++
    jsonMargin level ++ [closing]

/-- A field of a JSON object. -/
def jsonField (name : String) (value : Text) : Text :=
  -- One blank stands behind the colon.
  jsonString name.toList ++ ": ".toList ++ value

/-- A field of a JSON object that holds an array, left out when the array is empty. -/
def jsonArrayField (name : String) (level : Nat) (items : List Text) : List Text :=
  -- The array is closed at the level of the field.
  if items.isEmpty then [] else [jsonField name (jsonBlock '[' ']' level items)]

namespace Token

mutual

/-- A tree as a JSON object at a level. -/
def jsonAt (level : Nat) : Token → Text
  | ⟨kind, text, children, comments⟩ =>
    -- Fields without content are left out.
    jsonBlock '\x7b' '\x7d' level
      (jsonField "kind" (jsonString kind.label.toList) ::
        (if text.isEmpty then [] else [jsonField "text" (jsonString text)]) ++
        jsonArrayField "children" (level + 1) (jsonAll (level + 2) children) ++
        jsonArrayField "comments" (level + 1) (comments.map jsonString))

/-- Each tree of a list as a JSON object at a level. -/
def jsonAll (level : Nat) : List Token → List Text
  | [] => []
  | first :: rest => first.jsonAt level :: jsonAll level rest

end

/-- A tree as JSON. -/
def json (token : Token) : Text :=
  -- The outermost object is not indented.
  token.jsonAt 0

end Token

end SqlLayout
