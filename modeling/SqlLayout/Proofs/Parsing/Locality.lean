import SqlLayout.Proofs.Parsing.Bounds

/-!
Locality: what the descent makes of the tokens ahead does not depend on what lies behind it.

Neither the tokens already passed nor the steps under way at them play a part, only the tokens from
the cursor on.
-/

namespace SqlLayout

open Engine

/--
Steps that are all under way in front of a place.

None of them is at a token from that place on, and none at the end of the input.
-/
def ActiveSteps.Behind (active : ActiveSteps) (place : Nat) : Prop :=
  ∀ step ∈ active.steps, ∃ token ∈ step.token, token < place

/--
What a run comes to behind a number of tokens, and what another comes to at the front.

Both yield the same tree or both fail, and they go equally far in the tokens ahead.
-/
structure Shifted (count : Nat) (outcome front : Option Token × Cursor) : Prop where
  /-- The runs yield the same tree, or both fail. -/
  tree : outcome.1 = front.1
  /-- As many tokens were taken, counted from where each run began. -/
  pos : outcome.2.pos = count + front.2.pos
  /-- The same tokens are left. -/
  rest : outcome.2.rest = front.2.rest

/-- Where all steps are under way behind a cursor, none is under way ahead of it. -/
theorem ActiveSteps.Behind.idle {cursor : Cursor} (behind : cursor.active.Behind cursor.pos)
    (production : Production) (ahead : Nat) : cursor.busy production ahead = false := by
  refine Bool.eq_false_iff.mpr fun busy => ?_
  obtain ⟨token, here, passed⟩ := behind _ (List.contains_iff_mem.mp busy)
  -- A step ahead is at a token from the cursor on, or at the end of the input.
  unfold Cursor.stepAhead at here
  simp only at here
  split at here
  · cases here
    omega
  · cases here

/-- Cursors in front of the same tokens, with nothing under way there, go on in the same way. -/
theorem mirrors_of_idle {cursor front : Cursor} {limit limit' : Nat}
    (same : front.rest = cursor.rest)
    (idle : ∀ production ahead, cursor.busy production ahead = false)
    (idle' : ∀ production ahead, front.busy production ahead = false)
    (room : cursor.room ≤ limit) (room' : front.room ≤ limit') :
    Mirrors Eq [] 0 limit limit' cursor front where
  -- No bracket is closed by anything beyond, and nothing is under way on either side.
  ahead := ⟨cursor.rest, by simp [same], by simp⟩
  closed := fun some => absurd rfl some
  busy := fun production ahead _ _ => by rw [idle, idle']
  room := room
  room' := room'

/-- Runs of the descent from cursors that go on in the same way differ by where they began. -/
theorem shifted_of_mirrors {cursor front : Cursor} {limit limit' count : Nat}
    (mirrors : Mirrors Eq [] 0 limit limit' cursor front) (place : cursor.pos = count + front.pos)
    (production : Production) :
    Shifted count (descend sqlGrammar limit production cursor)
      (descend sqlGrammar limit' production front) := by
  -- As far as both have moved, the same tokens are left.
  have left : ∀ {after after' : Cursor} {taken taken' : List Token},
      cursor.Moved taken after → front.Moved taken' after' → taken.length = taken'.length →
      after.pos = count + after'.pos ∧ after.rest = after'.rest := by
    intro after after' taken taken' moved moved' length
    obtain ⟨_, split, likes⟩ := mirrors.ahead
    rw [List.append_nil] at split
    rw [List.forall₂_eq_eq_eq] at likes
    have parts : taken ++ after.rest = taken' ++ after'.rest := by
      rw [← moved.rest, ← moved'.rest, likes, split]
    refine ⟨?_, (List.append_inj parts length).2⟩
    rw [moved.pos, moved'.pos, place, length, Nat.add_assoc]
  have agree := callsAgree_descend indistinct_eq (by simp) limit limit' production _ _ mirrors
  rcases run : descend sqlGrammar limit production cursor with ⟨_ | tree, after⟩
  · obtain ⟨after', run'⟩ := agree.fails run
    have back := (parses_descend limit).stays run
    have back' := (parses_descend limit').stays run'
    obtain ⟨pos, rest⟩ := left back back' rfl
    rw [run']
    exact ⟨rfl, pos, rest⟩
  · obtain ⟨tree', after', taken, taken', run', shape, length, moved, moved'⟩ := agree.yields run
    obtain ⟨pos, rest⟩ := left moved moved' length
    cases shape.eq
    rw [run']
    exact ⟨rfl, pos, rest⟩

/-- With no clause under way at the end, a descent without bounds is one with levels enough. -/
theorem Unbounded.run_eq_descend {run : Production → Engine Token}
    {loop : Production → Engine (List Token)} (unbounded : Unbounded run loop) {cursor : Cursor}
    (clear : cursor.EndClear) {limit : Nat} (room : cursor.room ≤ limit) (production : Production) :
    run production cursor = descend sqlGrammar limit production cursor := by
  -- Both are equal to the descent that is bounded by a count of tokens.
  rw [descend_eq_descendIn limit production clear (Nat.le_refl _),
    unbounded.run_eq cursor.rest.length limit production]
  exact (descendIn_eq_descendTo production room room (Nat.le_refl _) (Nat.le_refl _)).symm

/--
Parsing is local.

Behind other tokens, with any steps under way at those, every production yields the tree that it
yields at the front of the tokens ahead with nothing under way, and takes as many tokens.
This holds of the descent without bounds, and with any limit that covers the tokens ahead.
-/
theorem descend_local (before tokens : List Token) (active : ActiveSteps)
    (behind : active.Behind before.length) (refusals : List Refusal) (production : Production) :
    (∀ run loop, Unbounded run loop → Shifted before.length
      (run production (.placed (before ++ tokens) before.length active refusals))
      (run production (.start tokens))) ∧
    ∀ limit limit', nestingLimit tokens ≤ limit → nestingLimit tokens ≤ limit' →
      Shifted before.length
        (descend sqlGrammar limit production
          (.placed (before ++ tokens) before.length active refusals))
        (descend sqlGrammar limit' production (.start tokens)) := by
  -- The step at the front is the only place where something could be under way.
  let here : Cursor := .placed (before ++ tokens) before.length active refusals
  have rest : here.rest = tokens := List.drop_left
  have idle : ∀ production ahead, here.busy production ahead = false :=
    ActiveSteps.Behind.idle behind
  have idle' : ∀ production ahead, (Cursor.start tokens).busy production ahead = false :=
    fun _ _ => rfl
  have room : here.room ≤ nestingLimit tokens := rest ▸ here.room_le
  have room' : (Cursor.start tokens).room ≤ nestingLimit tokens :=
    Nat.le_of_eq (Cursor.room_start tokens)
  -- no step is under way at a place ahead, so both cursors mirror each other
  have bounded : ∀ limit limit', nestingLimit tokens ≤ limit → nestingLimit tokens ≤ limit' →
      Shifted before.length (descend sqlGrammar limit production here)
        (descend sqlGrammar limit' production (.start tokens)) := by
    intro limit limit' enough enough'
    exact shifted_of_mirrors (mirrors_of_idle rest.symm idle idle' (Nat.le_trans room enough)
      (Nat.le_trans room' enough')) rfl production
  refine ⟨fun run loop unbounded => ?_, bounded⟩
  rw [unbounded.run_eq_descend (idle .part _) room,
    unbounded.run_eq_descend (idle' .part _) room']
  exact bounded _ _ (Nat.le_refl _) (Nat.le_refl _)

/-- A list behind a keyword and a bracket, both with steps under way, is read as it is alone. -/
theorem descend_local_bracket :
    let before : List Token := [.lexical .partToken "SELECT".toList, .lexical .openBracket ['(']]
    let tokens : List Token :=
      [.lexical .name ['A'], .lexical .listSeparator [','], .lexical .name ['B']]
    let active : ActiveSteps := ⟨[⟨.bracketExpr, some 1⟩, ⟨.listExpr, some 1⟩, ⟨.part, some 0⟩]⟩
    active.Behind before.length ∧ Shifted before.length
      (descendFree .listExpr (.placed (before ++ tokens) before.length active []))
      (descendFree .listExpr (.start tokens)) ∧
      (descend sqlGrammar (nestingLimit tokens) .listExpr (.start tokens)).1.isSome = true := by
  -- The steps under way were all entered before the tokens; the rest is the general law.
  intro before tokens active
  have behind : active.Behind before.length := by
    simp [active, before, ActiveSteps.Behind]
  refine ⟨behind, ?_, by decide +kernel⟩
  exact (descend_local before tokens active behind [] .listExpr).1 _ _ unbounded_descendFree

/-- A step under way at the cursor itself does make a difference. -/
example :
    let tokens : List Token := [.lexical .name ['A']]
    let read := fun active : ActiveSteps =>
      (descend sqlGrammar (nestingLimit tokens) .atom (.placed tokens 0 active [])).1
    read ⟨[⟨.atom, some 0⟩]⟩ = none ∧ (read ⟨[]⟩).isSome = true := by
  decide +kernel

end SqlLayout
