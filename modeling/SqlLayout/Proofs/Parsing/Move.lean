import Mathlib.Data.List.Forall2
import SqlLayout.Parsing.Grammar

/-! Laws of the moves of the descent: what a move reads, and where it leaves the cursor. -/

namespace SqlLayout

namespace ActiveSteps

/-- Leaving a step that has just been entered restores the steps under way. -/
theorem leave_enter {active : ActiveSteps} {step : Step} (idle : active.contains step = false) :
    (active.enter step).leave step = active := by
  -- The step entered last stands in front, and leaving takes the first one of its sort.
  simp [enter, leave, idle]

/-- A step is under way behind an entry when it was before or is the one entered. -/
theorem contains_enter (active : ActiveSteps) (entered step : Step) :
    (active.enter entered).contains step = (step == entered || active.contains step) := by
  unfold enter
  split
  · -- The step was under way already, so nothing new is.
    rename_i busy
    by_cases same : step = entered
    · simp [same, busy]
    · simp [same]
  · simp only [contains, List.contains_cons]

end ActiveSteps

/--
A cursor has moved past some tokens to where another one stands.

The steps under way are the same at both ends.
-/
structure Cursor.Moved (cursor : Cursor) (taken : List Token) (after : Cursor) : Prop where
  /-- The tokens taken and those left are the tokens there were. -/
  rest : cursor.rest = taken ++ after.rest
  /-- Every token taken counts one place. -/
  pos : after.pos = cursor.pos + taken.length
  /-- No step was entered without being left. -/
  active : after.active = cursor.active

namespace Cursor.Moved

/-- A cursor that stays has moved past nothing. -/
theorem refl (cursor : Cursor) : cursor.Moved [] cursor :=
  -- Nothing is taken, and nothing else is changed.
  ⟨rfl, rfl, rfl⟩

/-- Two moves make one move past the tokens of both. -/
theorem trans {first second third : Cursor} {front back : List Token}
    (here : first.Moved front second) (there : second.Moved back third) :
    first.Moved (front ++ back) third := by
  -- The tokens taken add up, and each move leaves the steps under way alone.
  refine ⟨?_, ?_, ?_⟩
  · rw [here.rest, there.rest, List.append_assoc]
  · rw [there.pos, here.pos, List.length_append, Nat.add_assoc]
  · rw [there.active, here.active]

end Cursor.Moved

namespace Engine

variable {α β : Type}

/--
From a cursor, a move keeps the steps under way, and what it reads meets a condition.

The condition is on the value it yields and the tokens it takes.
-/
def ReadsFrom (cursor : Cursor) (move : Engine α) (meets : α → List Token → Prop) : Prop :=
  -- A move that fails may have moved the cursor, but has left every step it entered.
  (move cursor).2.active = cursor.active ∧
    ∀ value, (move cursor).1 = some value →
      ∃ taken, cursor.Moved taken (move cursor).2 ∧ meets value taken

/-- A move that, when it fails, leaves the cursor where it stood. -/
def Restores (move : Engine α) : Prop :=
  -- The refusals it met on the way stay noted.
  ∀ cursor, (move cursor).1 = none → cursor.Moved [] (move cursor).2

/-- A move with another behind it, run from a cursor. -/
theorem bind_run (move : Engine α) (next : α → Engine β) (cursor : Cursor) :
    (move >>= next) cursor = match move cursor with
      | (some value, after) => next value after
      | (none, after) => (none, after) :=
  rfl

/-- Looking at the cursor and going on, run from a cursor. -/
theorem here_bind_run (next : Cursor → Engine β) (cursor : Cursor) :
    (here >>= next) cursor = next cursor cursor :=
  rfl

/-- An attempt, run from a cursor. -/
theorem attempt_run (move : Engine α) (cursor : Cursor) :
    attempt move cursor = (some (move cursor).1, (move cursor).2) :=
  rfl

/-- Two alternatives, run from a cursor. -/
theorem orElse_run (first second : Engine α) (cursor : Cursor) :
    (first <|> second) cursor = match first cursor with
      | (some value, after) => (some value, after)
      | (none, after) => second after :=
  rfl

/-- A production that is not under way, run from a cursor. -/
theorem guarded_run {production : Production} (parse : Engine Token) {cursor : Cursor}
    (idle : cursor.active.contains (cursor.step production) = false) :
    guarded production parse cursor =
      match parse { cursor with active := cursor.active.enter (cursor.step production) } with
      | (some token, after) =>
        (some token, { after with active := after.active.leave (cursor.step production) })
      | (none, after) =>
        (none, { after with active := after.active.leave (cursor.step production) }.rewind cursor) :=
  -- The guard lets the step in, as it is not under way.
  if_neg (Bool.eq_false_iff.mp idle)

/-- The condition on what a move reads may be weakened. -/
theorem ReadsFrom.weaken {cursor : Cursor} {move : Engine α} {meets also : α → List Token → Prop}
    (reads : ReadsFrom cursor move meets)
    (implies : ∀ value taken, meets value taken → also value taken) :
    ReadsFrom cursor move also := by
  -- The move is the same, and less is said of its outcome.
  refine ⟨reads.1, ?_⟩
  intro value yields
  obtain ⟨taken, moved, said⟩ := reads.2 value yields
  exact ⟨taken, moved, implies value taken said⟩

/-- Yielding a value reads nothing. -/
theorem readsFrom_pure {cursor : Cursor} {value : α} {meets : α → List Token → Prop}
    (said : meets value []) : ReadsFrom cursor (pure value : Engine α) meets := by
  -- The cursor stays where it is.
  refine ⟨rfl, ?_⟩
  intro other yields
  cases yields
  exact ⟨[], .refl cursor, said⟩

/-- Failing reads nothing. -/
theorem readsFrom_fail {cursor : Cursor} {meets : α → List Token → Prop} :
    ReadsFrom cursor (fail : Engine α) meets :=
  -- There is no value to say anything of.
  ⟨rfl, fun _ yields => by cases yields⟩

/-- A move with another behind it reads what both read. -/
theorem readsFrom_bind {cursor : Cursor} {move : Engine α} {next : α → Engine β}
    {meets : α → List Token → Prop} {also : β → List Token → Prop}
    (first : ReadsFrom cursor move meets)
    (second : ∀ value taken after, cursor.Moved taken after → meets value taken →
      ReadsFrom after (next value) fun result more => also result (taken ++ more)) :
    ReadsFrom cursor (move >>= next) also := by
  -- The second move runs only when the first one has yielded a value.
  unfold ReadsFrom at first ⊢
  rw [bind_run]
  rcases run : move cursor with ⟨_ | value, after⟩
  · simp only [run] at first ⊢
    exact ⟨first.1, fun _ yields => by cases yields⟩
  · simp only [run] at first ⊢
    obtain ⟨taken, moved, said⟩ := first.2 value rfl
    obtain ⟨steady, reads⟩ := second value taken after moved said
    refine ⟨steady.trans moved.active, ?_⟩
    intro result yields
    obtain ⟨more, further, meets⟩ := reads result yields
    exact ⟨taken ++ more, moved.trans further, meets⟩

/-- Looking at the cursor and going on reads what going on with that cursor reads. -/
theorem readsFrom_here {cursor : Cursor} {next : Cursor → Engine β}
    {also : β → List Token → Prop} (reads : ReadsFrom cursor (next cursor) also) :
    ReadsFrom cursor (here >>= next) also :=
  -- Looking takes nothing and changes nothing.
  reads

/-- Of two alternatives, the one that is taken is what was read. -/
theorem readsFrom_orElse {cursor : Cursor} {first second : Engine α}
    {meets : α → List Token → Prop} (restores : Restores first)
    (reads : ReadsFrom cursor first meets)
    (otherwise : ∀ after, cursor.Moved [] after → ReadsFrom after second meets) :
    ReadsFrom cursor (first <|> second) meets := by
  -- The second alternative begins where the first one began.
  unfold ReadsFrom at reads ⊢
  have restored := restores cursor
  rw [orElse_run]
  rcases run : first cursor with ⟨_ | value, after⟩
  · rw [run] at restored
    have back := restored rfl
    simp only
    obtain ⟨steady, more⟩ := otherwise after back
    refine ⟨steady.trans back.active, ?_⟩
    intro value yields
    obtain ⟨taken, moved, said⟩ := more value yields
    exact ⟨taken, back.trans moved, said⟩
  · simpa only [run] using reads

/-- Two alternatives that both restore the cursor do so together. -/
theorem restores_orElse {first second : Engine α} (one : Restores first)
    (other : Restores second) : Restores (first <|> second) := by
  intro cursor failed
  have restored := one cursor
  rw [orElse_run] at failed ⊢
  -- the whole fails where both do, the second from where the first left the cursor
  rcases run : first cursor with ⟨_ | value, after⟩
  · rw [run] at restored failed
    exact (restored rfl).trans (other after failed)
  · simp [run] at failed

/-- A move that is only attempted reads what it reads, or nothing when it fails. -/
theorem readsFrom_attempt {cursor : Cursor} {move : Engine α} {meets : α → List Token → Prop}
    (restores : Restores move) (reads : ReadsFrom cursor move meets) :
    ReadsFrom cursor (attempt move) fun outcome taken =>
      match outcome with
      | some value => meets value taken
      | none => taken = [] := by
  -- The attempt ends where the move does, and a move that fails puts the cursor back.
  refine ⟨reads.1, ?_⟩
  intro outcome yields
  cases yields
  have restored := restores cursor
  have said := reads.2
  show ∃ taken, cursor.Moved taken (move cursor).2 ∧ _
  rcases run : move cursor with ⟨_ | value, after⟩
  · rw [run] at restored
    exact ⟨[], restored rfl, rfl⟩
  · rw [run] at said
    exact said value rfl

/-- A token that passes a test is taken alone. -/
theorem readsFrom_takeIf (cursor : Cursor) (test : Token → Bool) :
    ReadsFrom cursor (takeIf test) fun token taken => taken = [token] ∧ test token = true := by
  -- There is a token to be taken only if one is left and it passes the test.
  unfold ReadsFrom takeIf
  split
  · exact ⟨rfl, fun _ yields => by cases yields⟩
  · rename_i next rest front
    split
    · rename_i passes
      refine ⟨rfl, ?_⟩
      intro token yields
      cases yields
      exact ⟨[next], ⟨front, rfl, rfl⟩, rfl, passes⟩
    · exact ⟨rfl, fun _ yields => by cases yields⟩

/-- A token that was taken stood at the cursor. -/
theorem moved_of_takeIf {test : Token → Bool} {cursor after : Cursor} {token : Token}
    (run : takeIf test cursor = (some token, after)) : cursor.Moved [token] after := by
  -- The token is the only one that is read.
  have reads := (readsFrom_takeIf cursor test).2
  rw [run] at reads
  obtain ⟨taken, moved, rfl, _⟩ := reads token rfl
  exact moved

/-- A token that does not pass a test is left where it is. -/
theorem restores_takeIf (test : Token → Bool) : Restores (takeIf test) := by
  -- Where nothing is taken the cursor is not touched.
  intro cursor failed
  unfold takeIf at failed ⊢
  split
  · exact .refl cursor
  · rename_i front
    split
    · rename_i passes
      simp [front, passes] at failed
    · exact .refl cursor

/-- A token of a kind is taken alone. -/
theorem readsFrom_take (cursor : Cursor) (kind : Kind) :
    ReadsFrom cursor (take kind) fun token taken => taken = [token] ∧ token.kind = kind :=
  -- The test is for the kind.
  (readsFrom_takeIf cursor _).weaken fun _ _ said => ⟨said.1, by simpa using said.2⟩

/-- A token of a kind with a text is taken alone. -/
theorem readsFrom_takeText (cursor : Cursor) (kind : Kind) (text : Text) :
    ReadsFrom cursor (takeText kind text) fun token taken =>
      taken = [token] ∧ token.is kind text = true :=
  -- The test is for the kind and the text.
  readsFrom_takeIf cursor _

/--
A production under the guard reads what its rule reads from the same place.

It restores the cursor when it fails, whatever its rule does.
-/
theorem readsFrom_guarded {cursor : Cursor} {production : Production} {parse : Engine Token}
    {meets : Token → List Token → Prop}
    (reads : ReadsFrom { cursor with active := cursor.active.enter (cursor.step production) }
      parse meets) :
    ReadsFrom cursor (guarded production parse) meets := by
  unfold ReadsFrom guarded at *
  simp only
  split
  · exact ⟨rfl, fun _ yields => by cases yields⟩
  · rename_i idle
    -- the step entered is left again, so what is under way stays the same
    have left := ActiveSteps.leave_enter (by simpa using idle)
    obtain ⟨steady, said⟩ := reads
    split
    · rename_i token after run
      simp only [run] at steady said
      refine ⟨by rw [steady, left], ?_⟩
      intro value yields
      obtain ⟨taken, moved, holds⟩ := said value yields
      exact ⟨taken, ⟨moved.rest, moved.pos, by rw [steady, left]⟩, holds⟩
    · rename_i after run
      simp only [run] at steady
      exact ⟨by rw [← left, ← steady]; rfl, fun _ yields => by cases yields⟩

/-- A production under the guard restores the cursor when it fails. -/
theorem restores_guarded {production : Production} {parse : Engine Token}
    (steady : ∀ cursor, (parse cursor).2.active = cursor.active) :
    Restores (guarded production parse) := by
  intro cursor failed
  unfold guarded at failed ⊢
  simp only at failed ⊢
  split
  · exact ⟨rfl, rfl, rfl⟩
  · rename_i idle
    -- likewise, and the cursor goes back to where the step was entered
    have left := ActiveSteps.leave_enter (by simpa using idle)
    have kept := steady { cursor with active := cursor.active.enter (cursor.step production) }
    split
    · rename_i token after run
      rw [run] at failed
      simp [idle] at failed
    · rename_i after run
      rw [run] at kept
      have kept : after.active = cursor.active.enter (cursor.step production) := kept
      exact ⟨rfl, rfl, by rw [← left, ← kept]; rfl⟩

end Engine

end SqlLayout
