import SqlLayout.Command.Run
import SqlLayout.Proofs.Bind.Spelled
import SqlLayout.Proofs.Layout.RoundTrip

/-! Idempotence: a formatted statement is read with its markers in place, and stays as it is. -/

namespace SqlLayout

/-- What has to hold of tokens for their markers, and no others, to be found in a formatted text. -/
structure MarkersStay (tokens : List Token) : Prop where
  /-- No name is one of the made-up names that are in use. -/
  fresh : ∀ token ∈ tokens, token.kind = .name →
    ∀ place < (heldByAll tokens).length, token.text ≠ BindCut.code place
  /-- No token holds a marker other than itself. -/
  settled : ∀ token ∈ tokens, Settled token.text
  /-- No colon at the end of a token begins a marker with the comment behind it. -/
  shut : tokens.IsChain fun token next =>
    ∀ comment ∈ next.comments.head?, Shut none token.text comment

namespace MarkersStay

variable {tokens : List Token}

/-- Whether the markers of tokens stay can be decided. -/
instance : Decidable (MarkersStay tokens) :=
  -- Each of the three conditions goes through the tokens once.
  decidable_of_iff ((∀ token ∈ tokens, token.kind = .name →
      ∀ place < (heldByAll tokens).length, token.text ≠ BindCut.code place) ∧
    (∀ token ∈ tokens, Settled token.text) ∧
    tokens.IsChain fun token next => ∀ comment ∈ next.comments.head?, Shut none token.text comment)
    ⟨fun ⟨fresh, settled, shut⟩ => ⟨fresh, settled, shut⟩,
      fun ⟨fresh, settled, shut⟩ => ⟨fresh, settled, shut⟩⟩

/-- The pieces of tokens whose markers stay are settled. -/
theorem settled_pieces (stay : MarkersStay tokens) (legible : ∀ token ∈ tokens, token.Legible) :
    ∀ piece ∈ tokens.flatMap Token.pieces, Settled piece.text := by
  -- A piece is a comment on a token or the text of one.
  intro piece member
  obtain ⟨token, among, here⟩ := List.mem_flatMap.mp member
  rcases List.mem_append.mp here with comment | text
  · -- A comment holds no markers.
    obtain ⟨word, own, rfl⟩ := List.mem_map.mp comment
    have literal := ((legible token among).comments word own).literal_of_comment.1
    exact .inl (heldBy_of_literal literal)
  · rw [List.mem_singleton.mp text]
    exact stay.settled token among

/-- The pieces of tokens whose markers stay are shut to one another. -/
theorem shut_pieces (stay : MarkersStay tokens)
    (legible : ∀ token ∈ tokens, token.Legible ∧ token.kind ≠ .comment) :
    (tokens.flatMap Token.pieces).IsChain Piece.ShutTo := by
  refine isChain_flatMap_pieces ?_ ?_
  · -- A comment ends with no colon.
    intro token member comment own next _ colon
    have literal := ((legible token member).1.comments comment own).literal_of_comment.1
    obtain ⟨_, c, last, closes⟩ := literal.edges
    cases last.symm.trans colon
    exact absurd closes (by decide)
  · -- What stands right behind a token is the first comment on the next one, if it has any.
    refine stay.shut.imp_of_mem_imp ?_
    intro token next _ member behind piece first kind
    rcases Token.head?_pieces first with ⟨comment, own, rfl⟩ | ⟨_, rfl⟩
    · exact behind comment own
    · exact absurd kind (legible next member).2

end MarkersStay

/-- A spelling of tokens whose markers stay is read as these tokens. -/
theorem Spells.tokens {items : Spelling} {text : Text} {tokens : List Token}
    (spells : Spells items text) (pieces : items.map Prod.snd = tokens.flatMap Token.pieces)
    (legible : ∀ token ∈ tokens, token.Legible ∧ token.kind ≠ .comment)
    (apart : tokens.IsChain Token.Apart) (stay : MarkersStay tokens) :
    BindSyntax.generic.tokens text = tokens := by
  -- The text is read in three steps: its markers are hidden, it is lexed, and they are put back.
  have fit : ∀ token ∈ tokens, token.Legible := fun token member => (legible token member).1
  -- What is known of the pieces of the tokens is known of the words of the spelling.
  have inside : ∀ item ∈ items, item.2 ∈ tokens.flatMap Token.pieces := by
    intro item member
    rw [← pieces]
    exact List.mem_map_of_mem member
  have shut : items.IsChain fun item next => item.2.ShutTo next.2 := by
    have chain := stay.shut_pieces legible
    rwa [← pieces, List.isChain_map] at chain
  -- The text is scanned word by word, so it holds the markers of the tokens and no others.
  obtain ⟨found, hidden⟩ := spells.hide
    (fun item member => legible_pieces fit item.2 (inside item member))
    (fun item member => stay.settled_pieces fit item.2 (inside item member)) shut
  have held : items.flatMap (fun item => heldBy item.2.text) = heldByAll tokens := by
    rw [← flatMap_heldBy_pieces fit, ← pieces, List.flatMap_map]
  -- With its markers hidden the text is lexed to the tokens with theirs hidden.
  have read : SqlLayout.tokenize (encodeItems 0 (bindItems none text)) = hideTokens 0 tokens := by
    refine hidden.tokenize ?_ ?_ ?_
    · rw [map_hideItems, pieces, pieces_hideTokens fit]
    · intro token member
      obtain ⟨⟨number, origin⟩, among, rfl⟩ := List.mem_map.mp member
      have here : origin ∈ tokens := mem_of_mem_numbered among
      exact (fit origin here).whole_hide (legible origin here).2 (stay.settled origin here) number
    · rw [hideTokens, List.isChain_map]
      refine (isChain_numbered apart 0).imp ?_
      rintro ⟨number, token⟩ ⟨number', next⟩ ⟨here, there, between⟩
      exact between.hide (stay.settled token here) (stay.settled next there) number number'
  rw [tokens_generic, read, found, held, hideTokens, List.map_map]
  -- Each token is put back to what it was.
  have back : ∀ entry ∈ numbered Token.text 0 tokens,
      (Codec.ofMarkers (heldByAll tokens)).restore (entry.2.hide entry.1) = entry.2 := by
    rintro ⟨number, token⟩ member
    have here : token ∈ tokens := mem_of_mem_numbered member
    exact restore_hide member (fit token here) (stay.settled token here) (stay.fresh token here)
  exact (List.map_congr_left back).trans (map_snd_numbered 0 tokens)

namespace Token

/-- A reader of trees meets all their leaves. -/
theorem tipsAll_subset_walk (trees : List Token) : tipsAll trees ⊆ walk trees := by
  -- The reader takes the tree on top and puts its children in its place.
  fun_induction walk trees with
  | case1 => exact fun _ => id
  | case2 top stack ih =>
    rw [tipsAll_append] at ih
    intro leaf member
    rw [tipsAll] at member
    rcases List.mem_append.mp member with here | later
    · -- A tree without children is a leaf, and any other has the leaves of its children.
      obtain ⟨kind, text, children, comments⟩ := top
      cases children with
      | nil =>
        rw [List.mem_singleton.mp here]
        exact .head _
      | cons first rest => exact .tail _ (ih (List.mem_append_left _ here))
    · exact .tail _ (ih (List.mem_append_right _ later))

/-- What a check finds no flaw in has no residue behind it and no diagnostics in it. -/
theorem clean_of_checked {root : Token} (ok : checked root = .ok "ok".toList) :
    root.unparsed? = none ∧ root.diagnostics = [] := by
  unfold checked at ok
  split at ok
  · -- A flaw is answered with a failure.
    cases ok
  · rename_i unflawed
    unfold flaw? at unflawed
    split at unflawed
    · cases unflawed
    · -- Without a residue the diagnostics decide.
      rename_i whole
      refine ⟨whole, ?_⟩
      by_contra some
      rw [if_neg some] at unflawed
      cases unflawed

/-- A statement without residue was read to its end. -/
theorem KeepsResidue.eq_nil {root : Token} {left : List Token} (keeps : root.KeepsResidue left)
    (whole : root.unparsed? = none) : left = [] := by
  -- Tokens that were left would be in the residue behind the statement.
  by_contra some
  rw [unparsed?, keeps.last some] at whole
  cases whole

/-- The leaves of a statement that was read to its end are those of all its children. -/
theorem KeepsResidue.statementLeaves_eq {root : Token} (keeps : root.KeepsResidue []) :
    root.statementLeaves = leavesAll root.kind root.children := by
  -- No child is left out as a residue.
  have kept : root.children.filter (fun child => child.kind != .unparsed) = root.children := by
    rw [List.filter_eq_self]
    intro child member
    by_contra residue
    exact keeps.present.mp ⟨child, member, by simpa using residue⟩ rfl
  rw [statementLeaves, kept]

/-- A reader of a statement that was read to its end meets all its leaves. -/
theorem KeepsResidue.mem_descendants {root : Token} (keeps : root.KeepsResidue []) :
    ∀ leaf ∈ root.statementLeaves, leaf.1 ∈ root.descendants := by
  intro leaf member
  -- a leaf of the statement is a leaf of one of the root's children, which the walk meets
  rw [keeps.statementLeaves_eq] at member
  refine tipsAll_subset_walk root.children ?_
  rw [← map_leavesAll root.kind]
  exact List.mem_map_of_mem member

/-- A leaf of a statement without diagnostics is the token it was read as. -/
theorem ReadAs.eq_of_clean {root token : Token} {leaf : Token × Bool} (read : ReadAs leaf token)
    (met : leaf.1 ∈ root.descendants) (clean : root.diagnostics = []) : leaf.1 = token := by
  obtain ⟨leaf, dangles⟩ := leaf
  cases dangles with
  | false => exact read
  | true =>
    -- The warning on an operator that dangles is among the diagnostics.
    have warned : syntaxWarning ∈ root.diagnostics := by
      refine List.mem_filter.mpr ⟨List.mem_flatMap.mpr ⟨leaf, met, ?_⟩, by decide +kernel⟩
      cases read
      simp
    rw [clean] at warned
    cases warned

/-- A statement without a flaw was read to its end, and none of its operators dangles. -/
theorem leaves_of_checked {root : Token} {taken left : List Token}
    (leaves : List.Forall₂ ReadAs root.statementLeaves taken) (keeps : root.KeepsResidue left)
    (ok : checked root = .ok "ok".toList) :
    left = [] ∧ root.statementLeaves.map Prod.fst = taken := by
  obtain ⟨whole, clean⟩ := clean_of_checked ok
  obtain rfl := keeps.eq_nil whole
  refine ⟨rfl, ?_⟩
  have met := keeps.mem_descendants
  -- The leaves are taken one by one, and each is the token that was read.
  generalize root.statementLeaves = found at leaves met
  induction leaves with
  | nil => rfl
  | @cons leaf token found taken here _ ih =>
    obtain ⟨first, others⟩ := List.forall_mem_cons.mp met
    rw [List.map_cons, here.eq_of_clean first clean, ih others]

end Token

/-- A statement without a flaw whose markers stay is formatted to a text of the same tokens. -/
theorem tokens_format {sql : Text} (ok : checked (parse sql) = .ok "ok".toList)
    (stay : MarkersStay (BindSyntax.generic.tokens sql)) (width : IndentWidth) :
    BindSyntax.generic.tokens (format width (parse sql)) = BindSyntax.generic.tokens sql := by
  obtain ⟨legible, apart⟩ := tokens_legible sql
  have result : parse sql = (parseTokens (BindSyntax.generic.tokens sql)).root := by
    rw [parse, BindSyntax.parse]
  rw [result] at ok ⊢
  -- From here on it matters only that the tokens are legible and apart.
  generalize BindSyntax.generic.tokens sql = tokens at *
  obtain ⟨taken, left, split, leaves, keeps, items, pieces, spells⟩ :=
    format_spells (fun token member => (legible token member).1) width
  -- Nothing is left behind the statement, and so the text spells the tokens alone.
  obtain ⟨rfl, same⟩ := Token.leaves_of_checked leaves keeps ok
  rw [same, announced, List.append_nil] at pieces
  rw [List.append_nil] at split
  subst split
  exact spells.tokens pieces legible apart stay

/--
Formatting a statement without a flaw once is as good as formatting it twice, if its markers stay.
-/
theorem format_idempotent (sql : Text) (ok : checked (parse sql) = .ok "ok".toList)
    (stay : MarkersStay (BindSyntax.generic.tokens sql)) (width : IndentWidth) :
    format width (parse (format width (parse sql))) = format width (parse sql) := by
  -- The same tokens make up the same tree, which is laid out the same way.
  have same : parse (format width (parse sql)) = parse sql := by
    rw [parse, BindSyntax.parse, tokens_format ok stay width]
    rfl
  rw [same]

/-- There is such a statement, with markers of several forms and a comment between them. -/
theorem format_idempotent_markers :
    let sql := "select -:x, f(#id#) \x7bwhy\x7d from :[t]y".toList
    heldByAll (BindSyntax.generic.tokens sql) = [":x", "#id#", ":[t]y"].map String.toList ∧
      checked (parse sql) = .ok "ok".toList ∧ MarkersStay (BindSyntax.generic.tokens sql) ∧
      format .default (parse (format .default (parse sql))) = format .default (parse sql) :=
  -- The conditions are computed, and the general law needs no more.
  have ok : checked (parse _) = .ok "ok".toList := by decide +kernel
  have stay : MarkersStay (BindSyntax.generic.tokens _) := by decide +kernel
  ⟨by decide +kernel, ok, stay, format_idempotent _ ok stay .default⟩

/-- Whether a statement is found to have no flaw, and yet is changed by formatting it again. -/
def Drifts (sql : Text) : Prop :=
  checked (parse sql) = .ok "ok".toList ∧
    format .default (parse (format .default (parse sql))) ≠ format .default (parse sql)

instance (sql : Text) : Decidable (Drifts sql) :=
  -- Both texts can be computed.
  inferInstanceAs (Decidable (_ ∧ _))

/-- Each of the three conditions on the markers is needed: a statement may drift without it. -/
theorem drifts_unstayed :
    Drifts "SELECT ___BIND0, ___BIND1, :x".toList ∧ Drifts "SELECT A.:ſ".toList ∧
      Drifts "SELECT : \x7bc\x7d (A)".toList := by
  -- A name is taken for a made-up one, a capital makes a marker, and so does a comment.
  decide +kernel

end SqlLayout
