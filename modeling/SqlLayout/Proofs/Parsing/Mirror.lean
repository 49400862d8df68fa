import SqlLayout.Proofs.Parsing.Derivation
import SqlLayout.Proofs.Parsing.Room

/-!
Two runs of the descent side by side.

The second run may stand elsewhere in its tokens, may have other steps under way behind it, may be
allowed more levels, may see other names and comments, and may have a closing bracket where the
first one is at its end.
-/

namespace SqlLayout

open Engine

/-- A relation of tokens between which the descent makes no difference. -/
structure Indistinct (alike : Token → Token → Prop) : Prop where
  /-- The tokens are of one kind. -/
  kind : ∀ {left right}, alike left right → left.kind = right.kind
  /-- The texts the descent looks at are the same. -/
  text : ∀ {left right}, alike left right → left.kind = .partToken ∨ left.kind = .mathOp →
    left.text = right.text
  /-- The tokens right below, if there are any, are of the same kinds. -/
  children : ∀ {left right}, alike left right →
    left.children.map Token.kind = right.children.map Token.kind

/-- The descent makes no difference between a token and itself. -/
theorem indistinct_eq : Indistinct Eq :=
  -- Equal tokens have the same kind and text.
  ⟨fun same => by rw [same], fun same _ => by rw [same], fun same => by rw [same]⟩

/-- Tokens of one kind pass for a kind and text together when, in that kind, they have one text. -/
theorem Token.is_congr {left right : Token} {kind : Kind} (same : left.kind = right.kind)
    (spelled : left.kind = kind → left.text = right.text) (text : Text) :
    left.is kind text = right.is kind text := by
  -- The text only matters for a token of the kind that is asked for.
  unfold Token.is
  by_cases asked : left.kind = kind
  · rw [← same, spelled asked]
  · rw [← same, beq_false_of_ne asked, Bool.false_and, Bool.false_and]

/-- Tokens of one kind are root keywords together when, as clause keywords, they have one text. -/
theorem Token.isRootKeyword_congr {left right : Token} (same : left.kind = right.kind)
    (spelled : left.kind = .partToken → left.text = right.text) :
    left.isRootKeyword = right.isRootKeyword := by
  -- The text only matters for a keyword.
  unfold Token.isRootKeyword
  by_cases keyword : left.kind = .partToken
  · rw [← same, spelled keyword]
  · rw [← same, beq_false_of_ne keyword, Bool.false_and, Bool.false_and]

/-- Lists of trees of one shape over tokens that are alike. -/
inductive SameShape (alike : Token → Token → Prop) : (left right : List Token) → Prop where
  | nil : SameShape alike [] []
  | leaf {left right : Token} {lefts rights : List Token} (same : alike left right)
      (others : SameShape alike lefts rights) : SameShape alike (left :: lefts) (right :: rights)
  -- A warning is put on both sides or on none.
  | flagged {left right : Token} {lefts rights : List Token} (same : alike left right)
      (others : SameShape alike lefts rights) :
      SameShape alike (left.addComment syntaxWarning :: lefts)
        (right.addComment syntaxWarning :: rights)
  | node {kind : Kind} {left right lefts rights : List Token} (inner : SameShape alike left right)
      (others : SameShape alike lefts rights) :
      SameShape alike (.node kind left :: lefts) (.node kind right :: rights)

namespace SameShape

variable {alike : Token → Token → Prop}

/-- Lists of trees of one shape one behind the other. -/
theorem append {front front' back back' : List Token} (first : SameShape alike front front')
    (second : SameShape alike back back') : SameShape alike (front ++ back) (front' ++ back') := by
  -- The first list of trees is followed on either side by the second.
  induction first with
  | nil => exact second
  | leaf same _ ih => exact .leaf same ih
  | flagged same _ ih => exact .flagged same ih
  | node inner _ _ ih => exact .node inner ih

/-- A tree of one shape in front of lists of one shape. -/
theorem cons {left right : Token} {lefts rights : List Token}
    (first : SameShape alike [left] [right]) (others : SameShape alike lefts rights) :
    SameShape alike (left :: lefts) (right :: rights) :=
  -- One tree stands in front of the others on either side.
  first.append others

/-- Tokens that are there on both sides or on none, and alike, are of one shape. -/
theorem ofOption {left right : Option Token} (same : Option.Rel alike left right) :
    SameShape alike left.toList right.toList := by
  -- Either there is a token on both sides or on neither.
  cases same with
  | none => exact .nil
  | some same => exact .leaf same .nil

/-- Trees that are there on both sides or on none, and of one shape, are lists of one shape. -/
theorem ofTrees {left right : Option Token}
    (same : Option.Rel (fun tree tree' => SameShape alike [tree] [tree']) left right) :
    SameShape alike left.toList right.toList := by
  -- Either there is a tree on both sides or on neither.
  cases same with
  | none => exact .nil
  | some shape => exact shape

/-- Trees of one shape over the same tokens are the same trees. -/
theorem eq {left right : List Token} (shape : SameShape Eq left right) : left = right := by
  -- Where like leaves are equal ones, the trees above them are equal too.
  induction shape with
  | nil => rfl
  | leaf same _ ih => rw [same, ih]
  | flagged same _ ih => rw [same, ih]
  | node _ _ inner ih => rw [inner, ih]

/-- Trees of one shape are of one kind. -/
theorem kinds (indistinct : Indistinct alike) {left right : List Token}
    (shape : SameShape alike left right) : left.map Token.kind = right.map Token.kind := by
  -- Like leaves share their kinds, and a node has the same kind on either side.
  induction shape with
  | nil => rfl
  | leaf same _ ih => simp [indistinct.kind same, ih]
  | flagged same _ ih => simp [Token.addComment, indistinct.kind same, ih]
  | node _ _ _ ih => simp [Token.node, ih]

/-- A tree of one shape with another has children of the same kinds. -/
theorem children_kinds (indistinct : Indistinct alike) {left right : Token}
    (shape : SameShape alike [left] [right]) :
    left.children.map Token.kind = right.children.map Token.kind := by
  cases shape with
  | leaf same _ => exact indistinct.children same
  | flagged same _ =>
    -- A warning changes nothing below a token.
    simpa [Token.addComment] using indistinct.children same
  | node inner _ => exact inner.kinds indistinct

/-- Brackets of one shape hold a statement together. -/
theorem wrapsStatement (indistinct : Indistinct alike) {left right : Token}
    {taken taken' : List Token} (shape : SameShape alike [left] [right])
    (derived : Derives (.one .bracketExpr) [left] taken)
    (derived' : Derives (.one .bracketExpr) [right] taken') :
    left.wrapsStatement = right.wrapsStatement := by
  -- whether there is a statement in a bracket can be told from the kinds of its children
  have listed : ∀ token : Token, (token.child? .statement).isSome = true ↔
      Kind.statement ∈ token.children.map Token.kind := by
    intro token
    simp [Token.child?, List.find?_isSome]
  rw [derived.wrapsStatement, derived'.wrapsStatement, Bool.eq_iff_iff, listed, listed,
    shape.children_kinds indistinct]

end SameShape

/-- No end of a list of tokens has more opening than closing brackets. -/
def Closed (tokens : List Token) : Prop :=
  ∀ ending, ending <:+ tokens → countKind .openBracket ending ≤ countKind .closeBracket ending

/--
Two cursors that the descent goes on from in the same way.

From a distance on, the same productions are under way ahead of both.
The limits leave room for every step that is not.
-/
structure Mirrors (alike : Token → Token → Prop) (tail : List Token) (skip limit limit' : Nat)
    (cursor mirror : Cursor) : Prop where
  /-- The tokens ahead are alike, up to those behind the end of the first cursor's. -/
  ahead : ∃ front, mirror.rest = front ++ tail ∧ List.Forall₂ alike cursor.rest front
  /-- A closing bracket in the place of an end has no opening one to close. -/
  closed : tail ≠ [] → Closed cursor.rest
  /-- The same productions are under way ahead. -/
  busy : ∀ production ahead, skip ≤ ahead → ahead ≤ cursor.rest.length →
    cursor.busy production ahead = mirror.busy production ahead
  /-- There are levels enough for the first cursor. -/
  room : cursor.room ≤ limit
  /-- There are levels enough for the second cursor. -/
  room' : mirror.room ≤ limit'

/-- From two cursors, two moves fail together, or read as many tokens and yield related values. -/
def AgreeFrom {α β : Type} (cursor mirror : Cursor) (move : Engine α) (mirrored : Engine β)
    (related : α → β → Prop) : Prop :=
  ((move cursor).1 = none → (mirrored mirror).1 = none) ∧
    ∀ value, (move cursor).1 = some value → ∃ value', (mirrored mirror).1 = some value' ∧
      related value value' ∧ ∃ taken taken', taken.length = taken'.length ∧
        cursor.Moved taken (move cursor).2 ∧ mirror.Moved taken' (mirrored mirror).2

section Agree

variable {α β γ δ : Type} {alike : Token → Token → Prop} {tail : List Token}
  {skip limit limit' : Nat} {cursor mirror : Cursor}

/-- Cursors that have moved as far go on in the same way. -/
theorem Mirrors.moved (mirrors : Mirrors alike tail skip limit limit' cursor mirror)
    {after after' : Cursor} {taken taken' : List Token} (moved : cursor.Moved taken after)
    (moved' : mirror.Moved taken' after') (length : taken.length = taken'.length)
    (far : skip ≤ taken.length) : Mirrors alike tail 0 limit limit' after after' := by
  obtain ⟨front, split, same⟩ := mirrors.ahead
  have total := same.length_eq
  have length' := congrArg List.length moved.rest
  rw [List.length_append] at length'
  -- both have dropped as many tokens from lists that are alike
  have rest : after.rest = cursor.rest.drop taken.length := by simp [moved.rest]
  have rest' : after'.rest = mirror.rest.drop taken'.length := by simp [moved'.rest]
  refine ⟨⟨front.drop taken.length, ?_, ?_⟩, ?_, ?_, ?_, ?_⟩
  · rw [rest', split, ← length, List.drop_append_of_le_length (by omega)]
  · rw [rest]
    exact List.forall₂_drop taken.length same
  · intro some ending within
    refine mirrors.closed some ending (within.trans ?_)
    rw [rest]
    exact List.drop_suffix _ _
  · intro production ahead _ within
    rw [Cursor.busy_moved moved, Cursor.busy_moved moved', ← length]
    exact mirrors.busy production _ (by omega) (by omega)
  · exact Nat.le_trans (Cursor.room_moved moved) mirrors.room
  · exact Nat.le_trans (Cursor.room_moved moved') mirrors.room'

/-- Two runs that yield related values and move as far agree. -/
theorem agreeFrom_yields {move : Engine α} {mirrored : Engine β} {related : α → β → Prop}
    {value : α} {value' : β} {after after' : Cursor} {taken taken' : List Token}
    (run : move cursor = (some value, after)) (run' : mirrored mirror = (some value', after'))
    (holds : related value value') (length : taken.length = taken'.length)
    (moved : cursor.Moved taken after) (moved' : mirror.Moved taken' after') :
    AgreeFrom cursor mirror move mirrored related := by
  -- Both moves have an outcome, and it is given.
  unfold AgreeFrom
  rw [run, run']
  refine ⟨nofun, ?_⟩
  rintro other ⟨⟩
  exact ⟨value', rfl, holds, taken, taken', length, moved, moved'⟩

/-- Two runs that fail agree. -/
theorem agreeFrom_fails {move : Engine α} {mirrored : Engine β} {related : α → β → Prop}
    {after after' : Cursor} (run : move cursor = (none, after))
    (run' : mirrored mirror = (none, after')) :
    AgreeFrom cursor mirror move mirrored related := by
  -- Both moves fail, so that nothing is asked of an outcome.
  unfold AgreeFrom
  rw [run, run']
  exact ⟨fun _ => rfl, nofun⟩

/-- What agrees with a run that yields a value yields a related one. -/
theorem AgreeFrom.yields {move : Engine α} {mirrored : Engine β} {related : α → β → Prop}
    (agree : AgreeFrom cursor mirror move mirrored related) {value : α} {after : Cursor}
    (run : move cursor = (some value, after)) :
    ∃ value' after' taken taken', mirrored mirror = (some value', after') ∧ related value value' ∧
      taken.length = taken'.length ∧ cursor.Moved taken after ∧ mirror.Moved taken' after' := by
  -- The other move has an outcome as well.
  unfold AgreeFrom at agree
  rw [run] at agree
  obtain ⟨value', yields', holds, taken, taken', length, moved, moved'⟩ := agree.2 value rfl
  exact ⟨value', (mirrored mirror).2, taken, taken', Prod.ext yields' rfl, holds, length, moved,
    moved'⟩

/-- What agrees with a run that fails fails. -/
theorem AgreeFrom.fails {move : Engine α} {mirrored : Engine β} {related : α → β → Prop}
    (agree : AgreeFrom cursor mirror move mirrored related) {after : Cursor}
    (run : move cursor = (none, after)) : ∃ after', mirrored mirror = (none, after') := by
  -- The other move fails as well.
  unfold AgreeFrom at agree
  rw [run] at agree
  exact ⟨(mirrored mirror).2, Prod.ext (agree.1 rfl) rfl⟩

/-- The relation of what two moves yield may be weakened. -/
theorem AgreeFrom.weaken {move : Engine α} {mirrored : Engine β} {related also : α → β → Prop}
    (agree : AgreeFrom cursor mirror move mirrored related)
    (implies : ∀ value value', related value value' → also value value') :
    AgreeFrom cursor mirror move mirrored also := by
  -- The moves are the same, and less is said of their outcomes.
  refine ⟨agree.1, ?_⟩
  intro value yields
  obtain ⟨value', yields', holds, moves⟩ := agree.2 value yields
  exact ⟨value', yields', implies value value' holds, moves⟩

/-- Yielding related values agrees. -/
theorem agreeFrom_pure {related : α → β → Prop} {value : α} {value' : β}
    (holds : related value value') :
    AgreeFrom cursor mirror (pure value : Engine α) (pure value' : Engine β) related :=
  -- Neither side reads anything.
  agreeFrom_yields rfl rfl holds rfl (.refl cursor) (.refl mirror)

/-- Failing agrees with failing. -/
theorem agreeFrom_fail {related : α → β → Prop} :
    AgreeFrom cursor mirror (fail : Engine α) (fail : Engine β) related :=
  -- Both sides fail at once.
  agreeFrom_fails rfl rfl

/-- Two moves that go on as others do from further on agree when those do. -/
theorem agreeFrom_behind {move more : Engine α} {mirrored more' : Engine β}
    {related : α → β → Prop} {after after' : Cursor} {taken taken' : List Token}
    (run : move cursor = more after) (run' : mirrored mirror = more' after')
    (length : taken.length = taken'.length) (moved : cursor.Moved taken after)
    (moved' : mirror.Moved taken' after') (rest : AgreeFrom after after' more more' related) :
    AgreeFrom cursor mirror move mirrored related := by
  -- What is read by the rest is added to what was read before it.
  rcases further : more after with ⟨_ | value, final⟩
  · obtain ⟨final', further'⟩ := rest.fails further
    exact agreeFrom_fails (run.trans further) (run'.trans further')
  · obtain ⟨value', final', last, last', further', holds, length', onward, onward'⟩ :=
      rest.yields further
    refine agreeFrom_yields (run.trans further) (run'.trans further') holds ?_
      (moved.trans onward) (moved'.trans onward')
    rw [List.length_append, List.length_append, length, length']

/-- Moves made one after the other agree when each of them does. -/
theorem agreeFrom_bind {move : Engine α} {mirrored : Engine β} {next : α → Engine γ}
    {next' : β → Engine δ} {related : α → β → Prop} {also : γ → δ → Prop}
    (first : AgreeFrom cursor mirror move mirrored related)
    (second : ∀ value value' after after' taken taken', taken.length = taken'.length →
      cursor.Moved taken after → mirror.Moved taken' after' →
      move cursor = (some value, after) → mirrored mirror = (some value', after') →
      related value value' → AgreeFrom after after' (next value) (next' value') also) :
    AgreeFrom cursor mirror (move >>= next) (mirrored >>= next') also := by
  -- The first moves fail together, or else the second ones go on from where they end.
  rcases run : move cursor with ⟨_ | value, after⟩
  · obtain ⟨after', run'⟩ := first.fails run
    exact agreeFrom_fails (by rw [bind_run, run]) (by rw [bind_run, run'])
  · obtain ⟨value', after', taken, taken', run', holds, length, moved, moved'⟩ := first.yields run
    exact agreeFrom_behind (by rw [bind_run, run]) (by rw [bind_run, run']) length moved moved'
      (second value value' after after' taken taken' length moved moved' run run' holds)

/-- Looking at the cursor and going on agrees when going on does. -/
theorem agreeFrom_here {next : Cursor → Engine γ} {next' : Cursor → Engine δ}
    {also : γ → δ → Prop} (agree : AgreeFrom cursor mirror (next cursor) (next' mirror) also) :
    AgreeFrom cursor mirror (here >>= next) (here >>= next') also :=
  -- Each side looks at its own cursor.
  agree

/-- Alternatives agree when each of them does. -/
theorem agreeFrom_orElse {first second : Engine α} {first' second' : Engine β}
    {related : α → β → Prop} (restores : Restores first) (restores' : Restores first')
    (one : AgreeFrom cursor mirror first first' related)
    (other : ∀ after after', cursor.Moved [] after → mirror.Moved [] after' →
      AgreeFrom after after' second second' related) :
    AgreeFrom cursor mirror (first <|> second) (first' <|> second') related := by
  -- Where the first moves fail they put both cursors back, and the second ones are tried.
  rcases run : first cursor with ⟨_ | value, after⟩
  · obtain ⟨after', run'⟩ := one.fails run
    have back := restores cursor (congrArg Prod.fst run)
    have back' := restores' mirror (congrArg Prod.fst run')
    rw [run] at back
    rw [run'] at back'
    exact agreeFrom_behind (by rw [orElse_run, run]) (by rw [orElse_run, run']) rfl back back'
      (other after after' back back')
  · obtain ⟨value', after', taken, taken', run', holds, length, moved, moved'⟩ := one.yields run
    refine agreeFrom_yields ?_ ?_ holds length moved moved'
    · rw [orElse_run, run]
    · rw [orElse_run, run']

/-- Attempts agree when the moves attempted do. -/
theorem agreeFrom_attempt {move : Engine α} {mirrored : Engine β} {related : α → β → Prop}
    (restores : Restores move) (restores' : Restores mirrored)
    (agree : AgreeFrom cursor mirror move mirrored related) :
    AgreeFrom cursor mirror (attempt move) (attempt mirrored) (Option.Rel related) := by
  rcases run : move cursor with ⟨_ | value, after⟩
  · obtain ⟨after', run'⟩ := agree.fails run
    -- an attempt that fails is a value all the same, and leaves both where they stood
    have back := restores cursor (congrArg Prod.fst run)
    have back' := restores' mirror (congrArg Prod.fst run')
    rw [run] at back
    rw [run'] at back'
    exact agreeFrom_yields (by rw [attempt_run, run]) (by rw [attempt_run, run']) .none rfl back
      back'
  · obtain ⟨value', after', taken, taken', run', holds, length, moved, moved'⟩ := agree.yields run
    exact agreeFrom_yields (by rw [attempt_run, run]) (by rw [attempt_run, run']) (.some holds)
      length moved moved'

/-- A token passes a test on both sides or on none, if the test ends where the tokens do. -/
theorem agreeFrom_takeIf (mirrors : Mirrors alike tail skip limit limit' cursor mirror)
    {test : Token → Bool} (same : ∀ left right, alike left right → test left = test right)
    (edge : cursor.rest = [] → ∀ token ∈ tail.head?, test token = false) :
    AgreeFrom cursor mirror (takeIf test) (takeIf test) alike := by
  -- Either both cursors have a next token, and the two are alike, or the first one is at its end.
  obtain ⟨front, split, likes⟩ := mirrors.ahead
  unfold AgreeFrom takeIf
  rcases rest : cursor.rest with _ | ⟨token, others⟩
  · -- Only tokens behind the end are left to the second cursor.
    rw [rest] at likes
    cases likes
    refine ⟨fun _ => ?_, fun _ yields => by cases yields⟩
    rw [split, List.nil_append]
    have edge := edge rest
    rcases tail with _ | ⟨closing, _⟩
    · rfl
    · simp [edge closing rfl]
  · rw [rest] at likes
    obtain ⟨token', others', like, likes', rfl⟩ := List.forall₂_cons_left_iff.mp likes
    rw [split, List.cons_append]
    have passes := same token token' like
    simp only
    by_cases pass : test token = true
    · rw [pass] at passes
      rw [if_pos pass, if_pos passes.symm]
      refine ⟨nofun, ?_⟩
      rintro value ⟨⟩
      exact ⟨token', rfl, like, [token], [token'], rfl, ⟨rest, rfl, rfl⟩, ⟨split, rfl, rfl⟩⟩
    · have fails : test token' ≠ true := by rwa [← passes]
      rw [if_neg pass, if_neg fails]
      exact ⟨fun _ => rfl, fun _ yields => by cases yields⟩

/-- A production is refused on both sides or on none, and entered alike where it is not. -/
theorem agreeFrom_guarded {production : Production} {parse parse' : Engine Token}
    {related : Token → Token → Prop}
    (busy : cursor.busy production 0 = mirror.busy production 0)
    (agree : cursor.busy production 0 = false →
      AgreeFrom { cursor with active := cursor.active.enter (cursor.step production) }
        { mirror with active := mirror.active.enter (mirror.step production) } parse parse' related) :
    AgreeFrom cursor mirror (guarded production parse) (guarded production parse') related := by
  have here : cursor.busy production 0 = cursor.active.contains (cursor.step production) := by
    rw [Cursor.step_eq]
    rfl
  have here' : mirror.busy production 0 = mirror.active.contains (mirror.step production) := by
    rw [Cursor.step_eq]
    rfl
  rw [here, here'] at busy
  rw [here] at agree
  -- both are refused, or both enter the step and leave it again
  by_cases refused : cursor.active.contains (cursor.step production) = true
  · exact agreeFrom_fails (by rw [guarded, if_pos refused])
      (by rw [guarded, if_pos (busy ▸ refused)])
  · have idle : cursor.active.contains (cursor.step production) = false := by simpa using refused
    have idle' : mirror.active.contains (mirror.step production) = false := busy ▸ idle
    have left := ActiveSteps.leave_enter idle
    have left' := ActiveSteps.leave_enter idle'
    have inner := agree idle
    rcases run : parse { cursor with active := cursor.active.enter (cursor.step production) }
      with ⟨_ | tree, after⟩
    · obtain ⟨after', run'⟩ := inner.fails run
      exact agreeFrom_fails (by rw [guarded_run parse idle, run])
        (by rw [guarded_run parse' idle', run'])
    · obtain ⟨tree', after', taken, taken', run', holds, length, moved, moved'⟩ := inner.yields run
      have done : guarded production parse cursor = (some tree,
          { after with active := after.active.leave (cursor.step production) }) := by
        rw [guarded_run parse idle, run]
      have done' : guarded production parse' mirror = (some tree',
          { after' with active := after'.active.leave (mirror.step production) }) := by
        rw [guarded_run parse' idle', run']
      refine agreeFrom_yields done done' holds length ⟨moved.rest, moved.pos, ?_⟩
        ⟨moved'.rest, moved'.pos, ?_⟩
      · show after.active.leave _ = _
        rw [moved.active, left]
      · show after'.active.leave _ = _
        rw [moved'.active, left']

/-- Entering a production that is not under way leaves two cursors going on in the same way. -/
theorem Mirrors.enter (mirrors : Mirrors alike tail 0 (limit + 1) (limit' + 1) cursor mirror)
    {production : Production} (idle : cursor.busy production 0 = false) :
    Mirrors alike tail 0 limit limit'
      { cursor with active := cursor.active.enter (cursor.step production) }
      { mirror with active := mirror.active.enter (mirror.step production) } := by
  have same := mirrors.busy production 0 (Nat.le_refl 0) (Nat.zero_le _)
  have less := Cursor.room_enter idle
  have less' := Cursor.room_enter (same.symm.trans idle)
  obtain ⟨front, split, likes⟩ := mirrors.ahead
  -- the same step is entered on both sides, and each has one level less of room
  refine ⟨⟨front, split, likes⟩, mirrors.closed, ?_, ?_, ?_⟩
  · intro other ahead least within
    have within : ahead ≤ cursor.rest.length := within
    have within' : ahead ≤ mirror.rest.length := by
      rw [split, List.length_append, ← likes.length_eq]
      omega
    rw [Cursor.busy_enter cursor production other within,
      Cursor.busy_enter mirror production other within', mirrors.busy other ahead least within]
  · have := mirrors.room
    omega
  · have := mirrors.room'
    omega

end Agree

end SqlLayout
