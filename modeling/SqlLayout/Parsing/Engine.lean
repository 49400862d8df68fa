import SqlLayout.Parsing.Step
import SqlLayout.Token

/-! The engine of the recursive descent: a cursor over tokens and the moves it makes. -/

namespace SqlLayout

/-- A production that was turned away because it was already under way at the same token. -/
structure Refusal where
  /-- The step that was not entered. -/
  step : Step
  /-- The steps under way at that moment. -/
  active : ActiveSteps
  deriving DecidableEq

/-- Where the descent stands. -/
structure Cursor where
  /-- The number of the token that is next. -/
  pos : Nat
  /-- The tokens from the next one on. -/
  rest : List Token
  /-- The steps under way. -/
  active : ActiveSteps
  /-- The refusals so far, the last one in front. -/
  refusals : List Refusal
  deriving DecidableEq

namespace Cursor

/-- A cursor at the front of a list of tokens. -/
def start (tokens : List Token) : Cursor :=
  -- Nothing is under way and nothing has been refused.
  { pos := 0, rest := tokens, active := {}, refusals := [] }

/-- The step that entering a production here would be. -/
def step (cursor : Cursor) (production : Production) : Step :=
  -- At the end of the input there is no token to be entered at.
  { production, token := if cursor.rest.isEmpty then none else some cursor.pos }

/-- A cursor moved back to where an earlier one stands. -/
def rewind (cursor earlier : Cursor) : Cursor :=
  -- Refusals on the way are not undone.
  { cursor with pos := earlier.pos, rest := earlier.rest }

end Cursor

/--
A move of the descent: it changes the cursor and yields a value or fails.

A move that fails may still have changed the cursor.
-/
def Engine (α : Type) := Cursor → Option α × Cursor

namespace Engine

/-- Moves made one after the other, up to the first that fails. -/
instance : Monad Engine where
  pure value := fun cursor => (some value, cursor)
  bind move next := fun cursor =>
    match move cursor with
    | (some value, after) => next value after
    | (none, after) => (none, after)

/-- The move that always fails. -/
def fail {α : Type} : Engine α :=
  -- The cursor stays where it is.
  fun cursor => (none, cursor)

/-- The move that tries a first move and, if that fails, a second one. -/
def orElse {α : Type} (first : Engine α) (second : Unit → Engine α) : Engine α :=
  -- The second move begins where the first one left the cursor.
  fun cursor =>
    match first cursor with
    | (some value, after) => (some value, after)
    | (none, after) => second () after

/-- Alternatives are tried in the order in which they are written. -/
instance {α : Type} : OrElse (Engine α) := ⟨orElse⟩

/-- The move that never fails, and says whether another one did. -/
def attempt {α : Type} (move : Engine α) : Engine (Option α) :=
  -- The outcome of the move becomes the value.
  fun cursor => (some (move cursor).1, (move cursor).2)

/-- The move that tells where the cursor stands. -/
def here : Engine Cursor :=
  -- Looking changes nothing.
  fun cursor => (some cursor, cursor)

/-- The move back to where an earlier cursor stands. -/
def rewind (earlier : Cursor) : Engine Unit :=
  -- Going back always succeeds.
  fun cursor => (some (), cursor.rewind earlier)

/-- The move past the next token, if there is one and it passes a test. -/
def takeIf (test : Token → Bool) : Engine Token :=
  fun cursor =>
    match cursor.rest with
    | [] => (none, cursor)
    -- A token that does not pass is left where it is.
    | next :: rest =>
      if test next then (some next, { cursor with pos := cursor.pos + 1, rest })
      else (none, cursor)

/-- The move past a token of a kind. -/
def take (kind : Kind) : Engine Token :=
  -- The text of the token plays no part.
  takeIf fun token => token.kind == kind

/-- The move past a token of a kind with a text. -/
def takeText (kind : Kind) (text : Text) : Engine Token :=
  -- Both have to agree.
  takeIf fun token => token.is kind text

/--
A production under the guard against re-entry.

It is refused while the same production is under way at the same token.
When it fails, the cursor is moved back to where it stood.
-/
def guarded (production : Production) (parse : Engine Token) : Engine Token :=
  fun cursor =>
    let step := cursor.step production
    if cursor.active.contains step then
      (none, { cursor with refusals := ⟨step, cursor.active⟩ :: cursor.refusals })
    else
      -- The step is under way exactly as long as the production runs.
      match parse { cursor with active := cursor.active.enter step } with
      | (some token, after) => (some token, { after with active := after.active.leave step })
      | (none, after) =>
        (none, { after with active := after.active.leave step }.rewind cursor)

/-- A move made again and again until it fails, but at most a number of times. -/
def repeated (item : Engine Token) : (turns : Nat) → Engine (List Token)
  | 0 => pure []
  | turns + 1 => do
    let some first ← attempt item | return []
    return first :: (← repeated item turns)

end Engine

end SqlLayout
