import Mathlib.Data.List.Nodup
import SqlLayout.Proofs.Parsing.Outcome

/-! Which bracketed lists the production for brackets reads whole. -/

namespace SqlLayout

open Engine

/-- Whether a production reads a list of tokens whole, from its front and with nothing under way. -/
def Production.Consumes (production : Production) (tokens : List Token) : Prop :=
  (production.parse tokens).1.isSome = true ∧ (production.parse tokens).2.rest = []

/-- Whether tokens are read whole can be decided by reading them. -/
instance (production : Production) (tokens : List Token) :
    Decidable (production.Consumes tokens) :=
  inferInstanceAs (Decidable (_ ∧ _))

/-- Tokens that are read whole are those of a derivation. -/
theorem Production.Consumes.derives {production : Production} {tokens : List Token}
    (whole : production.Consumes tokens) : ∃ tree, Derives (.one production) [tree] tokens := by
  obtain ⟨found, left⟩ := whole
  rcases run : production.parse tokens with ⟨_ | tree, after⟩
  · simp [run] at found
  · -- nothing is left, so the tokens taken are all of them
    obtain ⟨taken, moved, derived⟩ := (parses_descend (nestingLimit tokens)).derives run
    rw [run] at left
    have split : tokens = taken ++ after.rest := moved.rest
    rw [show after.rest = [] from left, List.append_nil] at split
    exact ⟨tree, split ▸ derived⟩

/-- Tokens with one more in front are closed when the brackets of all of them add up. -/
theorem Closed.cons {token : Token} {tokens : List Token} (closed : Closed tokens)
    (adds : countKind .openBracket (token :: tokens) ≤ countKind .closeBracket (token :: tokens)) :
    Closed (token :: tokens) := by
  -- An ending is the whole list or an ending of what follows the token.
  intro ending within
  rcases List.suffix_cons_iff.mp within with rfl | inner
  · exact adds
  · exact closed ending inner

/-- Tokens that are closed one behind the other are closed together. -/
theorem Closed.append {front back : List Token} (first : Closed front) (second : Closed back) :
    Closed (front ++ back) := by
  -- each bracket closed in the front stays closed, and the second list has its own
  induction front with
  | nil => exact second
  | cons token front ih =>
    have one := first (token :: front) List.suffix_rfl
    have other := second back List.suffix_rfl
    refine Closed.cons (ih fun ending within => first ending ?_) ?_
    · exact within.trans (List.suffix_cons token front)
    · show countKind _ ((token :: front) ++ back) ≤ countKind _ ((token :: front) ++ back)
      rw [countKind_append, countKind_append]
      omega

/-- A token other than an opening bracket is closed. -/
theorem closed_singleton {token : Token} (other : token.kind ≠ .openBracket) : Closed [token] :=
  -- Its endings are itself and nothing, and no bracket opens in either.
  Closed.cons (fun ending within => by simp [List.suffix_nil.mp within]) (by simp [other])

/-- In the tokens of a derivation no bracket is left open. -/
theorem Derives.closed {symbol : Symbol} {trees taken : List Token}
    (derived : Derives symbol trees taken) : Closed taken := by
  have none : Closed [] := fun ending within => by simp [List.suffix_nil.mp within]
  -- only the two rules of a bracket take one, and they close what they open
  induction derived with
  | chain _ _ _ head tail => exact head.append tail
  | linksEnd => exact none
  | link rule kind _ _ head tail =>
    have apart : _ ≠ Kind.openBracket := (Production.separator_ne rule).1
    exact ((closed_singleton (kind ▸ apart)).append head).append tail
  | dangling rule _ kind => exact closed_singleton (kind ▸ (Production.separator_ne rule).1)
  | bracketed _ _ inner => exact inner
  | single _ _ _ head tail => exact head.append tail
  | clausesEnd => exact none
  | clause _ _ head tail => exact head.append tail
  | barePart kind => exact closed_singleton (by simp [kind])
  | part kind _ inner => exact (closed_singleton (by simp [kind])).append inner
  | simple _ _ inner => exact inner
  | signed kind _ inner => exact (closed_singleton (by simp [kind])).append inner
  | negated minus _ inner =>
    simp only [Token.is, Bool.and_eq_true, beq_iff_eq] at minus
    exact (closed_singleton (by simp [minus.1])).append inner
  | headTree _ _ inner => exact inner
  | headToken choice =>
    simp only [Token.is, Bool.and_eq_true, beq_iff_eq] at choice
    exact closed_singleton (by rcases choice with kind | kind | ⟨kind, _⟩ <;> simp [kind])
  | @atom _ marker byname _ _ marked named inner =>
    refine inner.append (Closed.append ?_ ?_)
    · cases marker with
      | none => exact none
      | some marker => exact closed_singleton (by simp [marked marker rfl])
    · cases byname with
      | none => exact none
      | some byname => exact closed_singleton (by simp [named byname rfl])
  | emptyBracket opens closes =>
    exact Closed.cons (closed_singleton (by simp [closes])) (by simp [opens, closes])
  | bracket _ opens contents closes inner =>
    have balanced := contents.balanced
    refine Closed.cons (inner.append (closed_singleton (by simp [closes]))) ?_
    simp [opens, closes]
    omega
  | function kind _ inner => exact (closed_singleton (by simp [kind])).append inner

/-- The rule for brackets, run from a cursor. -/
theorem bracketExpr_run (call : Production → Engine Token) (cursor : Cursor) :
    sqlGrammar call .bracketExpr cursor = match take .openBracket cursor with
      | (none, after) => (none, after)
      | (some opening, behind) =>
        match take .closeBracket ((call .statement <|> call .listExpr) behind).2 with
        | (none, after) => (none, after)
        | (some closing, after) => (some (.node .bracketExpr (opening ::
            ((call .statement <|> call .listExpr) behind).1.toList ++ [closing])), after) := by
  -- the contents are optional, so only the two brackets can make it fail
  show (take .openBracket >>= _ : Engine Token) cursor = _
  rw [bind_run]
  rcases take .openBracket cursor with ⟨_ | opening, behind⟩
  · rfl
  · simp only
    rw [bind_run, attempt_run]
    simp only
    rw [bind_run]
    rcases take .closeBracket _ with ⟨_ | closing, after⟩
    · rfl
    · rfl

/--
Behind an opening bracket the descent goes on as from the front of what the bracket holds.

The closing bracket stands where the tokens held by the bracket end.
The productions entered at the opening bracket are under way behind all that follows.
-/
theorem mirrors_behind {tokens : List Token} {opening closing : Token} {behind : Cursor}
    {entered : List Production} (apart : entered.Nodup) (closed : Closed tokens) {limit : Nat}
    (enough : nestingLimit (opening :: tokens ++ [closing]) = limit + entered.length)
    (past : ((Cursor.start (opening :: tokens ++ [closing])).within entered).Moved [opening]
      behind) :
    Mirrors Eq [closing] 0 (nestingLimit tokens) limit (Cursor.start tokens) behind := by
  have rest : behind.rest = tokens ++ [closing] := by
    have rest := past.rest
    simpa [Cursor.start] using rest.symm
  -- behind the opening bracket no production is under way, as at the start
  refine ⟨⟨tokens, rest, by simp [Cursor.start]⟩, fun _ => closed, ?_, ?_, ?_⟩
  · intro production ahead _ within
    have within : ahead ≤ tokens.length := within
    rw [Cursor.busy_moved past, Cursor.busy_within _ _ _ (by simp [Cursor.start]; omega)]
    simp only [List.length_singleton, Nat.add_eq_zero_iff, Nat.one_ne_zero, false_and, and_false,
      decide_false, Bool.false_or]
    rfl
  · exact Nat.le_of_eq (Cursor.room_start tokens)
  · have all := Cursor.room_start (opening :: tokens ++ [closing])
    have taken := Cursor.room_within apart fun production (_ : production ∈ entered) =>
      (rfl : (Cursor.start (opening :: tokens ++ [closing])).busy production 0 = false)
    have moved := Cursor.room_moved past
    omega

/-- Behind the opening bracket of a bracket alone, the descent goes on as from the front. -/
theorem mirrors_inside {tokens : List Token} {opening closing : Token} {behind : Cursor}
    (closed : Closed tokens) {limit : Nat}
    (enough : nestingLimit (opening :: tokens ++ [closing]) = limit + 1)
    (past : ((Cursor.start (opening :: tokens ++ [closing])).within [.bracketExpr]).Moved [opening]
      behind) :
    Mirrors Eq [closing] 0 (nestingLimit tokens) limit (Cursor.start tokens) behind :=
  -- The opening bracket has been read, and its production is the one step under way.
  mirrors_behind (List.nodup_singleton _) closed enough past

/-- What is read at the front of tokens is read inside a bracket, and leaves the closing one. -/
theorem AgreeFrom.rest_inside {tokens : List Token} {closing : Token} {behind : Cursor}
    {move mirrored : Engine Token}
    (agree : AgreeFrom (Cursor.start tokens) behind move mirrored
      fun tree tree' => SameShape Eq [tree] [tree'])
    (rest : behind.rest = tokens ++ [closing]) {tree : Token} {after : Cursor}
    (run : move (Cursor.start tokens) = (some tree, after)) :
    ∃ after', mirrored behind = (some tree, after') ∧ after'.rest = after.rest ++ [closing] := by
  -- as many tokens are taken on both sides, and the bracket stands behind them
  obtain ⟨tree', after', taken, taken', run', shape, length, moved, moved'⟩ := agree.yields run
  cases shape.eq
  refine ⟨after', run', ?_⟩
  have split : tokens = taken ++ after.rest := moved.rest
  have split' := moved'.rest
  rw [rest, split, List.append_assoc] at split'
  exact (List.append_inj_right split' length).symm

/--
Inside a bracket a list that is read whole is read whole again, unless a statement is found there.

A statement at the front of the list takes its place, and leaves what is behind the statement.
-/
theorem rest_of_contents {tokens : List Token} {closing : Token} {behind : Cursor} {limit : Nat}
    (mirrors : Mirrors Eq [closing] 0 (nestingLimit tokens) limit (Cursor.start tokens) behind)
    (closes : closing.kind = .closeBracket) (rest : behind.rest = tokens ++ [closing])
    (whole : Production.listExpr.Consumes tokens) :
    ((descend sqlGrammar limit .statement <|> descend sqlGrammar limit .listExpr) behind).2.rest =
      (if (Production.statement.parse tokens).1.isSome then
        (Production.statement.parse tokens).2.rest else []) ++ [closing] := by
  -- The statement is tried at the cursor behind the bracket as at the front of the list.
  have ending : ∀ token ∈ [closing].head?, token.kind = Kind.closeBracket := by
    rintro token ⟨⟩
    exact closes
  have agree := callsAgree_descend indistinct_eq ending (nestingLimit tokens) limit
  rw [orElse_run]
  rcases statement : Production.statement.parse tokens with ⟨_ | tree, after⟩
  · -- Without a statement the list is read where the statement was tried.
    obtain ⟨behind', absent⟩ := (agree .statement _ _ mirrors).fails statement
    have back := (parses_descend limit).stays absent
    have again := mirrors.moved (.refl _) back rfl (Nat.le_refl 0)
    have rest' : behind'.rest = tokens ++ [closing] := by
      rw [← rest, back.rest, List.nil_append]
    obtain ⟨found, left⟩ := whole
    rcases list : Production.listExpr.parse tokens with ⟨_ | tree, after⟩
    · simp [list] at found
    · obtain ⟨after', run, final⟩ := (agree .listExpr _ _ again).rest_inside rest' list
      rw [list] at left
      simp only [absent, run, final]
      rw [show after.rest = [] from left]
      rfl
  · obtain ⟨after', run, final⟩ := (agree .statement _ _ mirrors).rest_inside rest statement
    simp only [run, final, Option.isSome_some, if_true]

/-- A rule that comes to a tree is read whole when it leaves nothing. -/
theorem consumes_iff {production : Production} {tokens : List Token} {limit : Nat}
    (enough : nestingLimit tokens = limit + 1) :
    production.Consumes tokens ↔
      (sqlGrammar (descend sqlGrammar limit) production
        ((Cursor.start tokens).within [production])).1.isSome = true ∧
      (sqlGrammar (descend sqlGrammar limit) production
        ((Cursor.start tokens).within [production])).2.rest = [] := by
  -- the production is not under way at the start, so its rule is run
  have run := @descend_within_run limit (Cursor.start tokens) production [] rfl List.not_mem_nil
  unfold Production.Consumes Production.parse
  rw [enough]
  rw [Cursor.within] at run
  rw [run]
  rcases sqlGrammar (descend sqlGrammar limit) production
    ((Cursor.start tokens).within [production]) with ⟨_ | tree, after⟩
  · simp
  · simp

/--
A bracket around a list is read whole exactly when no statement stands short in the list.

A statement at the front of the list is preferred to the list, and what it leaves is not read.
-/
theorem consumes_bracketExpr_iff {tokens : List Token} {opening closing : Token}
    (opens : opening.kind = .openBracket) (closes : closing.kind = .closeBracket)
    (whole : Production.listExpr.Consumes tokens) :
    Production.bracketExpr.Consumes (opening :: tokens ++ [closing]) ↔
      ((Production.statement.parse tokens).1.isSome = true →
        Production.statement.Consumes tokens) := by
  -- The bracket is entered at one level, and its contents are tried at those left.
  have levels : nestingLimit (opening :: tokens ++ [closing]) =
    13 * ((opening :: tokens ++ [closing]).length + 1) := rfl
  obtain ⟨limit, enough⟩ : ∃ limit, nestingLimit (opening :: tokens ++ [closing]) = limit + 1 :=
    ⟨nestingLimit (opening :: tokens ++ [closing]) - 1, by omega⟩
  obtain ⟨tree, derived⟩ := whole.derives
  rw [consumes_iff enough, bracketExpr_run]
  rcases opened : take .openBracket ((Cursor.start (opening :: tokens ++ [closing])).within
    [.bracketExpr]) with ⟨_ | first, behind⟩
  · simp [take, takeIf, Cursor.start, opens] at opened
  · have past := moved_of_takeIf opened
    have front := past.rest
    simp only [Cursor.within_rest, Cursor.start, List.cons_append, List.nil_append,
      List.cons.injEq] at front
    obtain ⟨rfl, rest⟩ := front
    have left := rest_of_contents (mirrors_inside derived.closed enough past) closes rest.symm whole
    simp only
    unfold Production.Consumes
    generalize ((descend sqlGrammar limit .statement <|> descend sqlGrammar limit .listExpr)
      behind) = contents at left
    by_cases found : (Production.statement.parse tokens).1.isSome = true
    · rw [if_pos found] at left
      rcases short : (Production.statement.parse tokens).2.rest with _ | ⟨next, others⟩
      · rw [short, List.nil_append] at left
        simp [take, takeIf, left, closes, found]
      · -- Whatever stands behind the statement, it is not the last closing bracket.
        rw [short, List.cons_append] at left
        by_cases same : next.kind = .closeBracket
        · simp [take, takeIf, left, same, found]
        · simp [take, takeIf, left, same, found]
    · rw [if_neg found, List.nil_append] at left
      simp [take, takeIf, left, closes, found]

/-- A select in brackets with an alias is a list, but not one that a bracket around it reads. -/
theorem consumes_bracketExpr_alias :
    Production.listExpr.Consumes
      [.lexical .openBracket ['('], .lexical .partToken "SELECT".toList, .lexical .name ['A'],
        .lexical .closeBracket [')'], .lexical .name ['X']] ∧
    ¬ Production.bracketExpr.Consumes
      [.lexical .openBracket ['('], .lexical .openBracket ['('],
        .lexical .partToken "SELECT".toList, .lexical .name ['A'], .lexical .closeBracket [')'],
        .lexical .name ['X'], .lexical .closeBracket [')']] := by
  -- Both runs are computed.
  decide +kernel

/-- Two names are a list without a statement in it, and a bracket around them is read whole. -/
theorem consumes_bracketExpr_names :
    Production.bracketExpr.Consumes
      (.lexical .openBracket ['('] ::
        [.lexical .name ['A'], .lexical .listSeparator [','], .lexical .name ['B']] ++
          [.lexical .closeBracket [')']]) :=
  -- The list is read whole, and no statement is found at its front.
  (consumes_bracketExpr_iff rfl rfl (by decide +kernel)).mpr fun found =>
    absurd found (by decide +kernel)

end SqlLayout
