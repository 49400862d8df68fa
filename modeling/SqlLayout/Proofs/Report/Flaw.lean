import SqlLayout.Proofs.Layout.Idempotence
import SqlLayout.Proofs.Lexing.Comments
import SqlLayout.Proofs.Parsing.Shape

/-!
What a check reports.

A check looks for diagnostics among the comments of the finished tree.
So it reports every flaw of a text that has a token, and it reports written comments that look like
diagnostics as well.
-/

namespace SqlLayout

section Comments

/-- The comments that are written in a text, as they are read between its markers. -/
def writtenComments (sql : Text) : List Text :=
  commentsOf (scan ((BindSyntax.generic.cut sql).encoded.squeeze isLineBreak))

/-- Putting markers back leaves comments as they are. -/
theorem comments_restore (codec : Codec) (token : Token) :
    (codec.restore token).comments = token.comments := by
  -- Only the text of a name is ever replaced.
  unfold Codec.restore
  split
  · split <;> rfl
  · rfl

/-- The comments of a text that has a token are those written in it, and one for each leftover. -/
theorem mem_comments_tokens {sql comment : Text} (some : BindSyntax.generic.tokens sql ≠ []) :
    (∃ token ∈ BindSyntax.generic.tokens sql, comment ∈ token.comments) ↔
      comment ∈ writtenComments sql ∨
        ∃ fragment ∈ leftovers (pieces (BindSyntax.generic.cut sql).encoded),
          comment = unexpectedComment fragment := by
  -- Putting markers back touches no comments, and attaching them loses none.
  rw [BindSyntax.tokens, Codec.decode] at some ⊢
  rw [writtenComments, ← commentsOf_pieces, ← mem_commentsOf_flagged, ← flaggedPieces,
    ← (attached_tokenize (mt List.map_eq_nil_iff.mpr some)).comments, List.mem_flatMap]
  simp only [List.mem_map, exists_exists_and_eq_and, comments_restore]

end Comments

section Diagnostics

/-- The comment for a leftover is a diagnostic. -/
theorem isDiagnostic_unexpectedComment (fragment : Text) :
    isDiagnostic (unexpectedComment fragment) = true := by
  -- the comment begins with the first of the two openings
  have split : "/*XXX unexpected token: ".toList =
      "/*XXX".toList ++ " unexpected token: ".toList := by
    decide
  unfold isDiagnostic diagnosticStarts unexpectedComment
  rw [List.any_cons, Bool.or_eq_true, List.isPrefixOf_iff_prefix, split, List.append_assoc,
    List.append_assoc]
  exact .inl (List.prefix_append _ _)

namespace Token

/-- A token with nothing below it is a leaf of the trees in which a reader meets it. -/
theorem mem_tipsAll_of_mem_walk {trees : List Token} {token : Token} (met : token ∈ walk trees)
    (bare : token.children = []) : token ∈ tipsAll trees := by
  -- The reader takes the tree on top and puts its children in its place.
  fun_induction walk trees with
  | case1 => cases met
  | case2 top stack ih =>
    rw [tipsAll_append] at ih
    rw [tipsAll]
    obtain ⟨kind, text, children, comments⟩ := top
    rcases List.mem_cons.mp met with rfl | later
    · cases bare
      exact List.mem_append_left _ (.head _)
    · rcases List.mem_append.mp (ih later) with below | behind
      · cases children with
        | nil => cases below
        | cons first rest => exact List.mem_append_left _ below
      · exact List.mem_append_right _ behind

/-- A node that fits and has comments has nothing below it. -/
theorem Fits.bare {token : Token} (fits : token.Fits) (commented : token.comments ≠ []) :
    token.children = [] := by
  have own := fits.own
  have allowed := fits.children
  -- a lexical token has no children, and no other one has comments
  split at own
  · rename_i lexical
    cases kind : token.kind <;> simp_all [Kind.isLexical, Kind.allows]
  · exact absurd own.2 commented

/-- The nodes of a tree that have comments are leaves of its statement. -/
theorem FitsRoot.mem_statementLeaves {root token : Token} (fits : root.FitsRoot)
    (met : token ∈ root.descendants) (commented : token.comments ≠ []) :
    ∃ dangling, (token, dangling) ∈ root.statementLeaves := by
  -- A node has comments only if it is a leaf.
  obtain ⟨body, rest, split, _, below, residue⟩ := fits.parts
  -- The residue is left out of the statement, and nothing else is.
  have known : NoResidue body := by
    intro node member kind
    have allowed := (below node member).children
    rw [kind] at allowed
    simp [Kind.allows] at allowed
  have leaves : root.statementLeaves = leavesAll root.kind body := by
    have kept : body.filter (fun child => child.kind != .unparsed) = body := by
      rw [List.filter_eq_self]
      simpa using known.kind_ne
    have gone : rest.filter (fun child => child.kind != .unparsed) = [] := by
      rcases residue with rfl | ⟨text, rfl⟩
      · rfl
      · rfl
    rw [statementLeaves, split, List.filter_append, kept, gone, List.append_nil]
  -- A residue has no comments.
  have inside : token ∈ walk body := by
    rw [descendants, split, walk_append] at met
    refine (List.mem_append.mp met).resolve_right fun behind => ?_
    rcases residue with rfl | ⟨text, rfl⟩
    · simp [walk] at behind
    · simp only [walk, residue, lexical, List.nil_append, List.mem_singleton] at behind
      rw [behind] at commented
      exact commented rfl
  have leaf := mem_tipsAll_of_mem_walk inside ((below token inside).bare commented)
  rw [← map_leavesAll root.kind, List.mem_map] at leaf
  obtain ⟨⟨found, dangling⟩, member, rfl⟩ := leaf
  exact ⟨dangling, by rwa [leaves]⟩

/-- A leaf has a diagnostic when it dangles, or when the token that it was read as has one. -/
theorem ReadAs.diagnostic_iff {token : Token} {leaf : Token × Bool} (read : ReadAs leaf token) :
    (∃ comment ∈ leaf.1.comments, isDiagnostic comment = true) ↔
      leaf.2 = true ∨ ∃ comment ∈ token.comments, isDiagnostic comment = true := by
  obtain ⟨leaf, dangling⟩ := leaf
  cases dangling with
  | false =>
    cases read
    simp
  | true =>
    -- The warning on an operator that dangles is a diagnostic.
    have warns : isDiagnostic syntaxWarning = true := by decide +kernel
    cases read
    simp [warns]

/--
The diagnostics of a tree without residue are those of the tokens that it was read from, and the
warnings on operators that dangle.
-/
theorem FitsRoot.diagnostics_eq_nil_iff {root : Token} {taken : List Token} (fits : root.FitsRoot)
    (keeps : root.KeepsResidue []) (leaves : List.Forall₂ ReadAs root.statementLeaves taken) :
    root.diagnostics = [] ↔ (∀ leaf ∈ root.statementLeaves, leaf.2 = false) ∧
      ∀ token ∈ taken, ∀ comment ∈ token.comments, isDiagnostic comment = false := by
  -- Comments stand on the leaves alone, and a leaf has its token's and maybe a warning.
  have everywhere : root.diagnostics = [] ↔ ∀ leaf ∈ root.statementLeaves,
      ∀ comment ∈ leaf.1.comments, isDiagnostic comment = false := by
    rw [diagnostics, List.filter_eq_nil_iff]
    constructor
    · intro clean leaf member comment own
      have met := keeps.mem_descendants leaf member
      simpa using clean comment (List.mem_flatMap.mpr ⟨leaf.1, met, own⟩)
    · intro clean comment member
      obtain ⟨token, met, own⟩ := List.mem_flatMap.mp member
      obtain ⟨dangling, leaf⟩ := fits.mem_statementLeaves met (List.ne_nil_of_mem own)
      simpa using clean (token, dangling) leaf comment own
  rw [everywhere]
  -- The leaves are taken one by one, each with the token that it was read as.
  generalize root.statementLeaves = found at leaves
  clear everywhere keeps fits
  induction leaves with
  | nil => simp
  | @cons leaf token found taken read _ ih =>
    have one := not_congr read.diagnostic_iff
    simp only [not_exists, not_and, not_or, Bool.not_eq_true] at one
    rw [List.forall_mem_cons, List.forall_mem_cons, List.forall_mem_cons]
    exact (and_congr one ih).trans and_and_and_comm

end Token

end Diagnostics

section Flawless

/-- A text that is read to its end, with no complaint and with a right operand to every operator. -/
structure Flawless (sql : Text) : Prop where
  /-- There is no residue in the tree. -/
  whole : (parse sql).contains .unparsed = false
  /-- No event on the way says that something is wrong. -/
  quiet : ∀ event ∈ (BindSyntax.generic.parse sql).events, event.level ≠ .warn
  /-- No operator is kept that dangles. -/
  joined : ∀ leaf ∈ (parse sql).statementLeaves, leaf.2 = false

/-- Whether a text is flawless can be decided. -/
instance (sql : Text) : Decidable (Flawless sql) :=
  decidable_of_iff ((parse sql).contains .unparsed = false ∧
    (∀ event ∈ (BindSyntax.generic.parse sql).events, event.level ≠ .warn) ∧
    ∀ leaf ∈ (parse sql).statementLeaves, leaf.2 = false)
    ⟨fun ⟨whole, quiet, joined⟩ => ⟨whole, quiet, joined⟩,
      fun ⟨whole, quiet, joined⟩ => ⟨whole, quiet, joined⟩⟩

/-- Parsing complains of leftovers and of nothing else. -/
theorem quiet_iff (style : BindSyntax) (sql : Text) :
    (∀ event ∈ (style.parse sql).events, event.level ≠ .warn) ↔
      leftovers (pieces (style.cut sql).encoded) = [] := by
  -- neither finding markers nor parsing warns, so only what is left over can
  have encoding : ∀ event ∈ (style.cut sql).events, event.level ≠ .warn := by
    intro event member
    obtain ⟨_, _, rfl⟩ := List.mem_map.mp member
    simp [Event.level]
  have reading : ∀ event ∈ (parseTokens (style.tokens sql)).events, event.level ≠ .warn := by
    intro event member
    unfold Descent.events at member
    simp only [List.mem_append, List.mem_map] at member
    rcases member with (⟨_, _, rfl⟩ | dropped) | ⟨_, _, rfl⟩
    · simp [Event.level]
    · split at dropped
      · cases List.mem_singleton.mp dropped
        simp [Event.level]
      · cases dropped
    · simp [Event.level]
  unfold BindSyntax.parse
  simp only [List.forall_mem_append, List.forall_mem_map]
  constructor
  · intro quiet
    refine List.eq_nil_iff_forall_not_mem.mpr fun fragment member => ?_
    exact quiet.1.2 fragment member rfl
  · intro none
    rw [none]
    exact ⟨⟨encoding, nofun⟩, reading⟩

/-- There is residue in a tree exactly when tokens are left behind the statement. -/
theorem Token.KeepsResidue.contains_iff {root : Token} {left : List Token}
    (keeps : root.KeepsResidue left) : root.contains .unparsed = false ↔ left = [] := by
  -- Below the root there is one token for a residue, if anything is left at all.
  have only := keeps.only
  rw [Token.contains, List.any_eq_false, ← List.filter_eq_nil_iff, ← List.length_eq_zero_iff, only]
  split <;> simp_all

/-- A tree has no flaw exactly when it has neither residue nor diagnostics. -/
theorem Token.checked_eq_ok_iff {root : Token} {left : List Token}
    (keeps : root.KeepsResidue left) :
    checked root = .ok "ok".toList ↔ left = [] ∧ root.diagnostics = [] := by
  -- What is reported is the residue first, and the diagnostics only without one.
  constructor
  · intro ok
    obtain ⟨whole, clean⟩ := Token.clean_of_checked ok
    exact ⟨keeps.eq_nil whole, clean⟩
  · rintro ⟨rfl, clean⟩
    -- nothing was left, so there is no residue for the last child to be
    have whole : root.unparsed? = none := by
      unfold Token.unparsed?
      rcases last : root.children.getLast? with _ | child
      · rfl
      · have member := List.mem_of_getLast? last
        have other : child.kind ≠ .unparsed :=
          fun kind => keeps.present.mp ⟨child, member, kind⟩ rfl
        simp [other]
    rw [checked, Token.flaw?, whole, clean]
    rfl

/--
A check answers ok exactly when the text is flawless and no comment in it looks like a diagnostic,
or when the text has no token at all.

Without a token there is nothing that a comment on a leftover could be attached to.
-/
theorem checked_ok_iff (sql : Text) : checked (parse sql) = .ok "ok".toList ↔
    BindSyntax.generic.tokens sql = [] ∨
      Flawless sql ∧ ∀ comment ∈ writtenComments sql, isDiagnostic comment = false := by
  -- Both sides are traced to the leaves of the statement and what was left behind them.
  have result : parse sql = (parseTokens (BindSyntax.generic.tokens sql)).root := by
    rw [parse, BindSyntax.parse]
  by_cases none : BindSyntax.generic.tokens sql = []
  · -- Nothing is parsed as an empty statement, in which there is no flaw.
    rw [result, none]
    exact iff_of_true (by decide +kernel) (.inl rfl)
  have lexical : ∀ token ∈ BindSyntax.generic.tokens sql,
      token.kind.isLexical = true ∧ token.children = [] := by
    intro token member
    have legible := ((tokens_legible sql).1 token member).1
    exact ⟨legible.text.lexical, legible.leaf⟩
  obtain ⟨_, taken, left, split, _, _, _, leaves, keeps⟩ := parseTokens_parts _ lexical
  rw [← result] at leaves keeps
  have fits : (parse sql).FitsRoot := by
    rw [result]
    exact parseTokens_fitsRoot (BindSyntax.generic.tokens_fit sql)
  have comments := @mem_comments_tokens sql
  rw [Token.checked_eq_ok_iff keeps, or_iff_right none]
  constructor
  · rintro ⟨rfl, clean⟩
    rw [List.append_nil] at split
    obtain ⟨joined, plain⟩ := (fits.diagnostics_eq_nil_iff keeps leaves).mp clean
    rw [← split] at plain
    refine ⟨⟨keeps.contains_iff.mpr rfl, (quiet_iff .generic sql).mpr ?_, joined⟩, ?_⟩
    · -- The comment for a leftover would be a diagnostic on some token.
      refine List.eq_nil_iff_forall_not_mem.mpr fun fragment member => ?_
      obtain ⟨token, among, own⟩ := (comments none).mpr (.inr ⟨fragment, member, rfl⟩)
      have clash := plain token among _ own
      rw [isDiagnostic_unexpectedComment] at clash
      cases clash
    · intro comment written
      obtain ⟨token, among, own⟩ := (comments none).mpr (.inl written)
      exact plain token among comment own
  · rintro ⟨⟨whole, quiet, joined⟩, plain⟩
    obtain rfl := keeps.contains_iff.mp whole
    rw [List.append_nil] at split
    refine ⟨rfl, (fits.diagnostics_eq_nil_iff keeps leaves).mpr ⟨joined, ?_⟩⟩
    rw [← split]
    intro token among comment own
    rcases (comments none).mp ⟨token, among, own⟩ with written | ⟨fragment, member, _⟩
    · exact plain comment written
    · rw [(quiet_iff .generic sql).mp quiet] at member
      cases member

/--
A check does not report exactly the flawed texts.

It reports a flawless one for a comment in it, and not a leftover that is all there is.
-/
theorem checked_unlike_flawless :
    Flawless "SELECT A /*XXX later*/".toList ∧
      checked (parse "SELECT A /*XXX later*/".toList) ≠ .ok "ok".toList ∧
      ¬ Flawless ";".toList ∧ checked (parse ";".toList) = .ok "ok".toList := by
  -- All four are computed.
  decide +kernel

end Flawless

end SqlLayout
