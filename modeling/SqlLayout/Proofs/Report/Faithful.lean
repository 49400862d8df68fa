import SqlLayout.Parse
import SqlLayout.Report.Json

/-!
JSON is faithful.

What is written for a value is told from what is written for any other, with anything behind it.
This passes from characters to strings, from items to blocks and from fields to trees.
-/

namespace SqlLayout

/-- Whether what is written for a value is told from that for others, whatever follows. -/
def ToldApart {α : Type} (written : α → Text) (value : α) : Prop :=
  ∀ other rest rest', written value ++ rest = written other ++ rest' → value = other ∧ rest = rest'

/-- The characters that are written as a sign behind a backslash, each behind its sign. -/
def jsonSigns : List (Char × Char) :=
  [('"', '"'), ('\\', '\\'), ('b', '\x08'), ('t', '\t'), ('n', '\n'), ('f', '\x0c'), ('r', '\r')]

/-- The value of a hexadecimal digit. -/
def hexValue (digit : Char) : Nat :=
  "0123456789abcdef".toList.idxOf digit

/-- The first character that is written in a JSON string, and what follows it. -/
def readJsonChar : Text → Option (Char × Text)
  | [] => none
  | '\\' :: 'u' :: '0' :: '0' :: high :: low :: rest =>
    some (Char.ofNat (16 * hexValue high + hexValue low), rest)
  | '\\' :: sign :: rest => (jsonSigns.lookup sign).map (·, rest)
  | c :: rest => some (c, rest)

/-- The digits that are written for a control character have its number. -/
theorem hexValue_digits {number : Nat} (control : number < 0x20) :
    16 * hexValue (Nat.digitChar (number / 16)) + hexValue (Nat.digitChar (number % 16)) =
      number := by
  -- There are few control characters.
  have all : ∀ number < 0x20,
      16 * hexValue (Nat.digitChar (number / 16)) + hexValue (Nat.digitChar (number % 16)) =
        number := by decide
  exact all number control

/-- A character is read as it was written. -/
theorem readJsonChar_jsonChar (c : Char) (rest : Text) :
    readJsonChar (jsonChar c ++ rest) = some (c, rest) := by
  unfold jsonChar
  split
  case h_8 _ _ other _ _ _ _ _ =>
    split
    · rename_i control
      show some (Char.ofNat _, rest) = some (c, rest)
      rw [hexValue_digits control, Char.ofNat_toNat]
    · -- A character that is written for itself is no backslash.
      show readJsonChar (c :: rest) = some (c, rest)
      unfold readJsonChar
      split <;> simp_all
  all_goals rfl

/-- What is written for a character does not begin with the sign that ends a string. -/
theorem head?_jsonChar (c : Char) : ∃ d ∈ (jsonChar c).head?, d ≠ '"' := by
  unfold jsonChar
  -- every escape begins with a backslash, and the quote itself is one that is escaped
  split
  case h_8 quote _ _ _ _ _ _ =>
    split
    · exact ⟨'\\', rfl, by decide⟩
    · exact ⟨c, rfl, quote⟩
  all_goals exact ⟨'\\', rfl, by decide⟩

/-- A string ends with its first quote that is not written for a character. -/
theorem toldApart_jsonString (text : Text) : ToldApart jsonString text := by
  -- A quote inside the text is written with a backslash, so that no bare one ends it early.
  intro other rest rest' same
  -- Behind the opening quote the strings are compared character by character.
  have inside : text.flatMap jsonChar ++ '"' :: rest = other.flatMap jsonChar ++ '"' :: rest' := by
    simpa [jsonString] using same
  clear same
  have quote : ∀ {c : Char} {rest rest' : Text}, '"' :: rest ≠ jsonChar c ++ rest' := by
    intro c rest rest' same
    obtain ⟨d, first, other⟩ := head?_jsonChar c
    obtain ⟨more, written⟩ := List.head?_eq_some_iff.mp first
    rw [written] at same
    exact other (List.cons.inj same).1.symm
  induction text generalizing other with
  | nil =>
    cases other with
    | nil => exact ⟨rfl, (List.cons.inj inside).2⟩
    | cons d other =>
      rw [List.flatMap_cons, List.append_assoc] at inside
      exact absurd inside quote
  | cons c text ih =>
    cases other with
    | nil =>
      rw [List.flatMap_cons, List.append_assoc] at inside
      exact absurd inside.symm quote
    | cons d other =>
      rw [List.flatMap_cons, List.flatMap_cons, List.append_assoc, List.append_assoc] at inside
      have read := congrArg readJsonChar inside
      rw [readJsonChar_jsonChar, readJsonChar_jsonChar] at read
      obtain ⟨rfl, behind⟩ := Prod.mk.inj (Option.some.inj read)
      obtain ⟨rfl, same⟩ := ih other behind
      exact ⟨rfl, same⟩

/-- A block ends where no comma follows an item. -/
theorem toldApart_jsonBlock {α : Type} {written : α → Text} {opening closing : Char} {level : Nat}
    {values others : List α} (apart : ∀ value ∈ values, ToldApart written value)
    (filled : values ≠ []) (filled' : others ≠ []) {rest rest' : Text}
    (same : jsonBlock opening closing level (values.map written) ++ rest =
      jsonBlock opening closing level (others.map written) ++ rest') :
    values = others ∧ rest = rest' := by
  -- Behind the opening sign stand items that are joined by commas, and then a margin.
  have inside :
      [','].intercalate (values.map fun value => jsonMargin (level + 1) ++ written value) ++
        '\n' :: (List.replicate (2 * level) ' ' ++ closing :: rest) =
      [','].intercalate (others.map fun value => jsonMargin (level + 1) ++ written value) ++
        '\n' :: (List.replicate (2 * level) ' ' ++ closing :: rest') := by
    simpa [jsonBlock, jsonMargin, Function.comp_def] using same
  clear same
  induction values generalizing others with
  | nil => exact absurd rfl filled
  | cons value values ih =>
    obtain ⟨here, later⟩ := List.forall_mem_cons.mp apart
    obtain ⟨other, others, rfl⟩ := List.exists_cons_of_ne_nil filled'
    cases values with
    | nil =>
      cases others with
      | nil =>
        simp only [List.map_cons, List.map_nil, List.intercalate_singleton, List.append_assoc,
          List.append_cancel_left_eq] at inside
        obtain ⟨rfl, behind⟩ := here other _ _ inside
        simp only [List.cons.injEq, List.append_cancel_left_eq, true_and] at behind
        exact ⟨rfl, behind⟩
      | cons next others =>
        -- A line break is no comma.
        simp only [List.map_cons, List.map_nil, List.intercalate_singleton,
          List.intercalate_cons_cons, List.append_assoc, List.append_cancel_left_eq] at inside
        cases (List.cons.inj (here other _ _ inside).2).1
    | cons next values =>
      cases others with
      | nil =>
        simp only [List.map_cons, List.map_nil, List.intercalate_singleton,
          List.intercalate_cons_cons, List.append_assoc, List.append_cancel_left_eq] at inside
        cases (List.cons.inj (here other _ _ inside).2).1
      | cons next' others =>
        simp only [List.map_cons, List.intercalate_cons_cons, List.append_assoc,
          List.append_cancel_left_eq] at inside
        obtain ⟨rfl, behind⟩ := here other _ _ inside
        simp only [List.append_cancel_left_eq] at behind
        obtain ⟨rest, ends⟩ := ih later (List.cons_ne_nil _ _) (List.cons_ne_nil _ _)
          (by simpa only [List.map_cons, List.append_assoc] using behind)
        exact ⟨by rw [rest], ends⟩

/-- A field ends where its value does. -/
theorem jsonField_cancel {name name' : String} {value value' rest rest' : Text}
    (same : jsonField name value ++ rest = jsonField name' value' ++ rest') :
    name = name' ∧ value ++ rest = value' ++ rest' := by
  -- The name is told apart first, and then the marks behind it are the same.
  unfold jsonField at same
  simp only [List.append_assoc] at same
  obtain ⟨names, behind⟩ := toldApart_jsonString _ _ _ _ same
  exact ⟨String.toList_injective names, List.append_cancel_left behind⟩

/-- A kind is found again by its label. -/
theorem Kind.ofLabel?_label (kind : Kind) : ofLabel? kind.label = some kind := by
  -- The labels are read back one by one.
  cases kind <;> decide

/-- Different kinds have different labels. -/
theorem Kind.label_injective : Function.Injective Kind.label := by
  -- What is read back from equal labels is equal.
  intro kind other same
  have found := ofLabel?_label kind
  rw [same, ofLabel?_label] at found
  exact (Option.some.inj found).symm

namespace Token

/-- A field of a tree in JSON. -/
inductive Field where
  /-- The kind of the tree. -/
  | kind (kind : Kind)
  /-- The text of the tree. -/
  | text (text : Text)
  /-- The children of the tree, of which there is at least one. -/
  | children (first : Token) (rest : List Token)
  /-- The comments on the tree, of which there is at least one. -/
  | comments (first : Text) (rest : List Text)

namespace Field

/-- The name of a field. -/
def name : Field → String
  | kind _ => "kind"
  | text _ => "text"
  | children _ _ => "children"
  | comments _ _ => "comments"

/-- The value of a field at a level. -/
def value (level : Nat) : Field → Text
  | .kind sort => jsonString sort.label.toList
  | .text own => jsonString own
  | .children first rest => jsonBlock '[' ']' level ((first :: rest).map (jsonAt (level + 1)))
  | .comments first rest => jsonBlock '[' ']' level ((first :: rest).map jsonString)

/-- A field as it is written at a level. -/
def json (level : Nat) (field : Field) : Text :=
  jsonField field.name (field.value level)

/-- A tree with the content of a field. -/
def fill (tree : Token) : Field → Token
  | .kind sort => { tree with kind := sort }
  | .text own => { tree with text := own }
  | .children first rest => { tree with children := first :: rest }
  | .comments first rest => { tree with comments := first :: rest }

end Field

/-- The fields of a tree that are written, in order. -/
def fields (tree : Token) : List Field :=
  -- A field without content is left out.
  .kind tree.kind :: ((if tree.text.isEmpty then [] else [.text tree.text]) ++
    (match tree.children with | [] => [] | first :: rest => [.children first rest]) ++
    (match tree.comments with | [] => [] | first :: rest => [.comments first rest]))

/-- Every tree has a kind, and so a field. -/
theorem fields_ne_nil (tree : Token) : tree.fields ≠ [] :=
  -- The kind is always written.
  List.cons_ne_nil _ _

/-- A tree has the content of its fields, and no other. -/
theorem foldl_fields (tree : Token) : tree.fields.foldl Field.fill (.node .raw []) = tree := by
  -- A field that is left out is empty in the token that is filled, too.
  obtain ⟨kind, text, children, comments⟩ := tree
  cases text <;> cases children <;> cases comments <;> rfl

/-- The trees in the fields of a tree are its children. -/
theorem children_of_mem_fields {tree first : Token} {rest : List Token}
    (member : .children first rest ∈ tree.fields) : tree.children = first :: rest := by
  -- Only the children's own field can give them.
  obtain ⟨kind, text, children, comments⟩ := tree
  cases text <;> cases children <;> cases comments <;> simp_all [fields]

/-- Each tree of a list is written at the level of the list. -/
theorem jsonAll_eq_map (level : Nat) (trees : List Token) :
    jsonAll level trees = trees.map (jsonAt level) := by
  -- The trees are written one by one.
  induction trees with
  | nil => rfl
  | cons first rest ih => rw [jsonAll, ih, List.map_cons]

/-- A tree is written by its fields. -/
theorem jsonAt_eq (level : Nat) (tree : Token) :
    tree.jsonAt level =
      jsonBlock '\x7b' '\x7d' level (tree.fields.map (Field.json (level + 1))) := by
  obtain ⟨kind, text, children, comments⟩ := tree
  rw [jsonAt, jsonAll_eq_map]
  -- The same fields are left out on both sides.
  cases text <;> cases children <;> cases comments <;> rfl

/-- Fields are told apart by their names and then by their values, if the trees in them are. -/
theorem Field.toldApart {level : Nat} {field : Field}
    (below : ∀ first rest, field = .children first rest →
      ∀ tree ∈ first :: rest, ToldApart (jsonAt (level + 1)) tree) :
    ToldApart (Field.json level) field := by
  intro other rest rest' same
  obtain ⟨name, value⟩ := jsonField_cancel same
  -- the name in front says which field it is, and then the value says what it holds
  cases field with
  | kind sort =>
    cases other with
    | kind sort' =>
      obtain ⟨label, behind⟩ := toldApart_jsonString _ _ _ _ value
      exact ⟨congrArg Field.kind (Kind.label_injective (String.toList_injective label)), behind⟩
    | _ => simp [Field.name] at name
  | text own =>
    cases other with
    | text own' =>
      obtain ⟨text, behind⟩ := toldApart_jsonString _ _ _ _ value
      exact ⟨congrArg Field.text text, behind⟩
    | _ => simp [Field.name] at name
  | children first more =>
    cases other with
    | children first' more' =>
      obtain ⟨trees, behind⟩ := toldApart_jsonBlock (below first more rfl) (List.cons_ne_nil _ _)
        (List.cons_ne_nil _ _) value
      cases trees
      exact ⟨rfl, behind⟩
    | _ => simp [Field.name] at name
  | comments first more =>
    cases other with
    | comments first' more' =>
      obtain ⟨comments, behind⟩ := toldApart_jsonBlock
        (fun comment _ => toldApart_jsonString comment) (List.cons_ne_nil _ _)
        (List.cons_ne_nil _ _) value
      cases comments
      exact ⟨rfl, behind⟩
    | _ => simp [Field.name] at name

mutual

/-- Trees are told apart by what is written for them. -/
theorem toldApart_jsonAt (level : Nat) : (tree : Token) → ToldApart (jsonAt level) tree
  | ⟨kind, text, children, comments⟩ => by
    intro other rest rest' same
    rw [jsonAt_eq, jsonAt_eq] at same
    have below := toldApart_jsonAll (level + 2) children
    have apart : ∀ field ∈ fields ⟨kind, text, children, comments⟩,
        ToldApart (Field.json (level + 1)) field := by
      intro field member
      refine Field.toldApart ?_
      rintro first rest rfl
      rwa [← children_of_mem_fields member]
    obtain ⟨fields, behind⟩ := toldApart_jsonBlock apart (fields_ne_nil _) (fields_ne_nil _) same
    -- the fields written are those that make up the token, so filling them in gives it back
    have filled := congrArg (List.foldl Field.fill (.node .raw [])) fields
    rw [foldl_fields, foldl_fields] at filled
    exact ⟨filled, behind⟩

/-- The same for the trees of a list. -/
theorem toldApart_jsonAll (level : Nat) : (trees : List Token) →
    ∀ tree ∈ trees, ToldApart (jsonAt level) tree
  | [] => nofun
  | first :: rest =>
    -- Each of the trees is told apart on its own, the first and the others.
    List.forall_mem_cons.mpr ⟨toldApart_jsonAt level first, toldApart_jsonAll level rest⟩

end

/-- Different trees are written differently. -/
theorem json_injective : Function.Injective json := by
  -- Two whole trees are told apart with nothing behind them.
  intro left right same
  have apart := toldApart_jsonAt 0 left right [] []
  rw [List.append_nil, List.append_nil] at apart
  exact (apart same).1

end Token

/-- Texts have the same JSON exactly when they have the same tree. -/
theorem json_parse_inj (left right : Text) :
    (parse left).json = (parse right).json ↔ parse left = parse right :=
  -- What holds of all trees holds of those that are parsed.
  Token.json_injective.eq_iff

end SqlLayout
