import SqlLayout.Proofs.Bind.Cut
import SqlLayout.Proofs.Lexing.Seam

/-! Putting markers back: made-up names are told apart, and restored tokens are legible. -/

namespace SqlLayout

namespace BindCut

/-- The made-up name has a fixed front and the digits of its number behind it. -/
theorem code_eq (number : Nat) :
    code number = ['_', '_', '_', 'B', 'I', 'N', 'D'] ++ Nat.toDigits 10 number :=
  -- The front of every code is the same word.
  congrArg (· ++ Nat.toDigits 10 number) (by decide +kernel)

/-- A made-up name begins with an underscore. -/
theorem head?_code (number : Nat) : (code number).head? = some '_' := by
  -- Every code begins with an underscore.
  rw [code_eq]
  rfl

/-- A made-up name is not empty. -/
theorem code_ne_nil (number : Nat) : code number ≠ [] := by
  -- An empty text would have no first character.
  intro bare
  have head := head?_code number
  rw [bare] at head
  cases head

/-- Different numbers have different names. -/
theorem code_injective {number other : Nat} (same : code number = code other) : number = other := by
  -- The digits behind the fixed part determine the number.
  have digits := List.append_cancel_left same
  have value := congrArg (fun digits => Nat.ofDigitChars 10 digits 0) digits
  simpa using value

/-- The made-up names are made of capital characters of a name. -/
theorem code_named (number : Nat) :
    ∀ c ∈ code number, isNameChar c = true ∧ upperChar c = [c] := by
  intro c member
  rcases List.mem_append.mp member with fixed | digit
  · have all : ∀ c ∈ "___BIND".toList, isNameChar c = true ∧ upperChar c = [c] := by decide +kernel
    exact all c fixed
  · have sort := Nat.isDigit_of_mem_toDigits (by decide) (by decide) digit
    -- There are few enough ASCII characters to look at each.
    have all : ∀ code < 0x80, (Char.ofNat code).isDigit = true →
        isNameChar (Char.ofNat code) = true ∧ upperChar (Char.ofNat code) = [Char.ofNat code] := by
      decide +kernel
    have name : isNameChar c = true := by simp [isNameChar, Char.isAlphanum, sort]
    have range := isNameChar_range name
    have here := all c.toNat (by omega)
    rw [Char.ofNat_toNat] at here
    exact here sort

/-- A made-up name is foreign. -/
theorem foreign_code (number : Nat) : Foreign (code number) :=
  -- A code is made of name characters, and an underscore is among them.
  ⟨code_named number, List.mem_of_head? (head?_code number)⟩

end BindCut

namespace Codec

/-- The entries of markers counted from a number are looked up by their made-up names. -/
theorem lookup_entries {found : List Text} {name marker : Text} (start : Nat) :
    ((found.zipIdx start).map fun (marker, number) => (BindCut.code number, marker)).lookup name =
        some marker ↔
      ∃ place, found[place]? = some marker ∧ name = BindCut.code (start + place) := by
  -- The first entry has the first number, and the others are counted on from the next.
  induction found generalizing start with
  | nil => simp
  | cons first found ih =>
    rw [List.zipIdx_cons, List.map_cons, List.lookup_cons]
    by_cases here : name = BindCut.code start
    · -- The first entry is found, and no other has its name.
      rw [beq_iff_eq.mpr here]
      constructor
      · intro same
        exact ⟨0, same, here⟩
      · rintro ⟨place, present, same⟩
        have none := BindCut.code_injective (here.symm.trans same)
        obtain rfl : place = 0 := by omega
        exact present
    · rw [beq_eq_false_iff_ne.mpr here]
      refine (ih (start + 1)).trans ⟨?_, ?_⟩
      · rintro ⟨place, present, same⟩
        exact ⟨place + 1, present, by rw [same]; congr 1; omega⟩
      · rintro ⟨place, present, same⟩
        cases place with
        | zero => exact absurd same here
        | succ place => exact ⟨place, present, by rw [same]; congr 1; omega⟩

/-- A marker is found under its made-up name, and under no other. -/
theorem markerOf?_eq_some {found : List Text} {name marker : Text} :
    (ofMarkers found).markerOf? name = some marker ↔
      ∃ place, found[place]? = some marker ∧ name = BindCut.code place := by
  -- The entries are numbered from zero on.
  have entries := @lookup_entries found name marker 0
  simp only [Nat.zero_add] at entries
  exact entries

/-- A token is put back as it is, or else its text is a made-up name and becomes the marker. -/
theorem restore_cases (found : List Text) (token : Token) :
    (ofMarkers found).restore token = token ∧
        (token.kind = .name → ∀ place < found.length, token.text ≠ BindCut.code place) ∨
    ∃ place marker, token.kind = .name ∧ token.text = BindCut.code place ∧
      found[place]? = some marker ∧
      (ofMarkers found).restore token = { token with text := marker } := by
  unfold restore
  -- only a name is looked up, and only a replacement handed out is found
  split
  · rename_i kind
    rcases lookup : (ofMarkers found).markerOf? token.text with _ | marker
    · refine .inl ⟨rfl, fun _ place within same => ?_⟩
      have present := markerOf?_eq_some.mpr ⟨place, List.getElem?_eq_getElem within, same⟩
      rw [lookup] at present
      cases present
    · obtain ⟨place, present, same⟩ := markerOf?_eq_some.mp lookup
      exact .inr ⟨place, marker, kind, same, present, rfl⟩
  · rename_i kind
    exact .inl ⟨rfl, fun name => absurd name kind⟩

end Codec

/-- A keyword of several words has no colon and no underscore. -/
theorem not_joins_of_foreign {word next : Text} {c : Char} (foreign : c ∈ [':', '_'])
    (member : c ∈ word ∨ c ∈ next.takeWhile isNameChar) : joins word next = false := by
  -- no entry of the lexicon holds a colon or an underscore, so no entry is joined from such a word
  have all : ∀ entry ∈ lexicon, ∀ c ∈ [':', '_'], c ∉ entry := by decide +kernel
  refine Bool.eq_false_iff.mpr fun joined => ?_
  have longer : word ++ ' ' :: next.takeWhile isNameChar ∈ lexicon := by simpa [joins] using joined
  refine all _ longer c foreign ?_
  rcases member with front | back
  · exact List.mem_append_left _ front
  · exact List.mem_append_right _ (.tail _ back)

/-- A foreign text joins no other word. -/
theorem Foreign.not_joins {text : Text} (foreign : Foreign text) (word : Text) :
    joins text word = false ∧ joins word text = false := by
  -- every character of a replacement is one of a name, so the underscore is among those read on
  have sign : '_' ∈ [':', '_'] := by simp
  refine ⟨not_joins_of_foreign sign (.inl foreign.underscore),
    not_joins_of_foreign sign (.inr ?_)⟩
  rw [List.takeWhile_eq_self_iff.mpr fun c member => (foreign.named c member).1]
  exact foreign.underscore

/-- A marker joins no other word. -/
theorem IsMarker.not_joins {marker : Text} (here : IsMarker marker) (word : Text) :
    joins marker word = false ∧ joins word marker = false := by
  -- What joins two words stands in the lexicon or is made of name characters.
  obtain ⟨c, front, sign⟩ := here.begins
  obtain ⟨rest, rfl⟩ := List.head?_eq_some_iff.mp front
  by_cases colon : c = ':'
  · subst colon
    exact ⟨not_joins_of_foreign (.head _) (.inl (.head _)),
      not_joins_of_foreign (.head _) (.inr (by simp [isNameChar]))⟩
  · -- The other signs stand in no name.
    have apart : isNameChar c = false := by
      simp only [List.mem_cons, List.not_mem_nil, or_false, colon, false_or] at sign
      rcases sign with rfl | rfl
      · rfl
      · rfl
    constructor
    · refine Bool.eq_false_iff.mpr fun joined => ?_
      have heads := (heads_of_joins joined).1
      simp [apart] at heads
    · refine Bool.eq_false_iff.mpr fun joined => ?_
      have heads := (heads_of_joins joined).2
      simp [apart] at heads

/-- The tokens of a text are those of its stretches with made-up names, with the markers put back. -/
theorem tokens_generic (sql : Text) :
    BindSyntax.generic.tokens sql =
      (tokenize (encodeItems 0 (bindItems none sql))).map
        (Codec.ofMarkers (foundIn (bindItems none sql))).restore := by
  -- the cut and the scan agree on the encoded text and on the markers
  have encoded : (BindSyntax.generic.cut sql).encoded = encodeItems 0 (bindItems none sql) := by
    rw [cut_generic]
    exact encodeFrom_cutOf 0 _
  have found : (BindSyntax.generic.cut sql).markers = foundIn (bindItems none sql) := by
    rw [cut_generic, markers_cutOf]
  rw [← encoded, ← found]
  rfl

/-- A token that is put back is legible, and has the kind and the comments it had. -/
theorem legible_restore {found : List Text} (markers : ∀ marker ∈ found, IsMarker marker)
    {token : Token} (whole : token.Whole) :
    ((Codec.ofMarkers found).restore token).Legible ∧
      ((Codec.ofMarkers found).restore token).kind = token.kind ∧
      ((Codec.ofMarkers found).restore token).comments = token.comments := by
  -- the token is itself, or a name that now stands for its marker
  rcases Codec.restore_cases found token with ⟨same, _⟩ | ⟨place, marker, kind, _, present, same⟩
  · rw [same]
    exact ⟨whole.legible, rfl, rfl⟩
  · rw [same]
    have sort := markers marker (List.mem_of_getElem? present)
    exact ⟨⟨whole.leaf, .inr ⟨kind, sort⟩, whole.comments⟩, rfl, rfl⟩

/-- Tokens that are put back stay apart. -/
theorem apart_restore {found : List Text} (markers : ∀ marker ∈ found, IsMarker marker)
    {token next : Token} (apart : token.Apart next) :
    ((Codec.ofMarkers found).restore token).Apart ((Codec.ofMarkers found).restore next) := by
  -- where either is a marker nothing joins; elsewhere both are as they were
  rcases Codec.restore_cases found token with ⟨same, _⟩ | ⟨_, marker, _, _, present, same⟩
  · rcases Codec.restore_cases found next with ⟨same', _⟩ | ⟨_, marker', _, _, present', same'⟩
    · rwa [same, same']
    · rw [same, same']
      intro _
      exact ((markers marker' (List.mem_of_getElem? present')).not_joins _).2
  · rw [same]
    intro _
    exact ((markers marker (List.mem_of_getElem? present)).not_joins _).1

/-- The tokens of a text are legible and apart, and none is a comment. -/
theorem tokens_legible (sql : Text) :
    (∀ token ∈ BindSyntax.generic.tokens sql, token.Legible ∧ token.kind ≠ .comment) ∧
      (BindSyntax.generic.tokens sql).IsChain Token.Apart := by
  obtain ⟨whole, apart⟩ := tokenize_whole (encodeItems 0 (bindItems none sql))
  have markers := @isMarker_of_foundIn none sql
  rw [tokens_generic]
  constructor
  · intro token member
    -- no restored token is a comment, for restoring keeps the kind
    obtain ⟨origin, among, rfl⟩ := List.mem_map.mp member
    have restored := legible_restore markers (whole origin among)
    rw [restored.2.1]
    exact ⟨restored.1, (whole origin among).kind⟩
  · rw [List.isChain_map]
    exact apart.imp fun token next => apart_restore markers

/-- The tokens of a text are lexical, whatever its markers are. -/
theorem BindSyntax.tokens_lexical (style : BindSyntax) (sql : Text) :
    ∀ token ∈ style.tokens sql, token.kind.isLexical = true ∧ token.children = [] := by
  intro token member
  obtain ⟨origin, among, rfl⟩ := List.mem_map.mp member
  have legible := ((tokenize_whole _).1 origin among).legible
  -- Putting a marker back changes the text of a token, and nothing else.
  rcases Codec.restore_cases (style.cut sql).markers origin with ⟨same, _⟩ | ⟨_, _, _, _, _, same⟩
  · rw [BindCut.codec, same]
    exact ⟨legible.text.lexical, legible.leaf⟩
  · rw [BindCut.codec, same]
    exact ⟨legible.text.lexical, legible.leaf⟩

end SqlLayout
