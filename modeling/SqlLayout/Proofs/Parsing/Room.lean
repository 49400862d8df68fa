import SqlLayout.Proofs.Parsing.Move

/-! The room left for steps ahead of a cursor, which every step entered takes some of. -/

namespace SqlLayout

namespace Cursor

/-- The step that entering a production a number of tokens ahead would be. -/
def stepAhead (cursor : Cursor) (production : Production) (ahead : Nat) : Step :=
  -- Behind the last token there is only the end of the input.
  ⟨production, if ahead < cursor.rest.length then some (cursor.pos + ahead) else none⟩

/-- Whether a production is under way a number of tokens ahead. -/
def busy (cursor : Cursor) (production : Production) (ahead : Nat) : Bool :=
  cursor.active.contains (cursor.stepAhead production ahead)

/-- The step of a production here is its step no token ahead. -/
theorem step_eq (cursor : Cursor) (production : Production) :
    cursor.step production = cursor.stepAhead production 0 := by
  -- There is a token here exactly when there is one left.
  unfold step stepAhead
  cases cursor.rest <;> simp

/-- Two steps ahead of a cursor, one of them here, agree only when both are the same step. -/
theorem stepAhead_eq_iff {cursor : Cursor} (production entered : Production) {ahead : Nat}
    (within : ahead ≤ cursor.rest.length) :
    cursor.stepAhead production ahead = cursor.stepAhead entered 0 ↔
      production = entered ∧ ahead = 0 := by
  unfold stepAhead
  rw [Step.mk.injEq]
  refine and_congr_right fun _ => ?_
  rcases Nat.eq_zero_or_pos ahead with here | further
  · simp [here]
  · -- A later step has another token, or none where there is one here.
    have present : 0 < cursor.rest.length := by omega
    have apart : ahead ≠ 0 := by omega
    simp only [present, if_true, apart, iff_false]
    split
    · simpa using apart
    · simp

/-- A step ahead of a cursor that has moved is one further ahead of where it stood. -/
theorem stepAhead_moved {cursor after : Cursor} {taken : List Token}
    (moved : cursor.Moved taken after) (production : Production) (ahead : Nat) :
    after.stepAhead production ahead = cursor.stepAhead production (taken.length + ahead) := by
  have length := congrArg List.length moved.rest
  rw [List.length_append] at length
  unfold stepAhead
  rw [moved.pos, length]
  -- the end of the tokens is a place of its own, and stays the same one
  by_cases within : ahead < after.rest.length
  · rw [if_pos within, if_pos (by omega), Nat.add_assoc]
  · rw [if_neg within, if_neg (by omega)]

/-- Entering a production here makes it busy here, and changes nothing else ahead. -/
theorem busy_enter (cursor : Cursor) (entered production : Production) {ahead : Nat}
    (within : ahead ≤ cursor.rest.length) :
    ({ cursor with active := cursor.active.enter (cursor.step entered) } : Cursor).busy
      production ahead = (decide (production = entered ∧ ahead = 0) ||
        cursor.busy production ahead) := by
  have same := stepAhead_eq_iff production entered within
  show (cursor.active.enter (cursor.step entered)).contains (cursor.stepAhead production ahead) = _
  -- entering adds one step, which is that of the production at the cursor
  rw [ActiveSteps.contains_enter, step_eq]
  congr 1
  rw [Bool.eq_iff_iff, beq_iff_eq, decide_eq_true_iff]
  exact same

/-- The steps that can be entered ahead of a cursor, those at the end of the input included. -/
def stepsAhead (cursor : Cursor) : List Step :=
  (List.range (cursor.rest.length + 1)).flatMap fun ahead =>
    Production.all.map fun production => cursor.stepAhead production ahead

/-- The number of steps ahead of a cursor that are not under way. -/
def room (cursor : Cursor) : Nat :=
  cursor.stepsAhead.countP fun step => !cursor.active.contains step

/-- The steps ahead of a cursor that has moved are the last ones ahead of where it stood. -/
theorem stepsAhead_moved {cursor after : Cursor} {taken : List Token}
    (moved : cursor.Moved taken after) : after.stepsAhead <:+ cursor.stepsAhead := by
  have length := congrArg List.length moved.rest
  rw [List.length_append] at length
  -- the places ahead are those taken, and then those left
  have places : List.range (cursor.rest.length + 1) = List.range taken.length ++
      (List.range (after.rest.length + 1)).map fun ahead => taken.length + ahead := by
    rw [← List.range_add, length, Nat.add_assoc]
  unfold stepsAhead
  rw [places, List.flatMap_append, List.flatMap_map]
  simp only [stepAhead_moved moved]
  exact List.suffix_append _ _

/-- What is under way ahead of a cursor is under way the same distance ahead of where it moves. -/
theorem busy_moved {cursor after : Cursor} {taken : List Token} (moved : cursor.Moved taken after)
    (production : Production) (ahead : Nat) :
    after.busy production ahead = cursor.busy production (taken.length + ahead) := by
  -- What is ahead of the new place is that much further ahead of the old one.
  unfold busy
  rw [moved.active, stepAhead_moved moved]

/-- A cursor that moves leaves room behind and finds none. -/
theorem room_moved {cursor after : Cursor} {taken : List Token}
    (moved : cursor.Moved taken after) : after.room ≤ cursor.room := by
  -- The steps ahead of the new place are among those ahead of the old one.
  unfold room
  rw [moved.active]
  exact (stepsAhead_moved moved).sublist.countP_le

/-- The step of a production here is one of the steps ahead. -/
theorem step_mem_stepsAhead (cursor : Cursor) (production : Production) :
    cursor.stepAhead production 0 ∈ cursor.stepsAhead := by
  -- Every production has a step at the place itself.
  unfold stepsAhead
  rw [List.mem_flatMap]
  refine ⟨0, by simp, List.mem_map_of_mem ?_⟩
  cases production <;> decide

/-- A production that is not under way here leaves room ahead of the cursor. -/
theorem room_pos {cursor : Cursor} {production : Production}
    (idle : cursor.busy production 0 = false) : 0 < cursor.room := by
  -- The production itself is one for which there is room.
  unfold room
  rw [List.countP_pos_iff]
  unfold busy at idle
  exact ⟨_, step_mem_stepsAhead cursor production, by rw [idle]; rfl⟩

/-- Entering a production takes room. -/
theorem room_enter {cursor : Cursor} {production : Production}
    (idle : cursor.busy production 0 = false) :
    ({ cursor with active := cursor.active.enter (cursor.step production) } : Cursor).room <
      cursor.room := by
  -- The step entered is counted before and not after, and no other step is counted anew.
  obtain ⟨front, back, parts⟩ := List.append_of_mem (step_mem_stepsAhead cursor production)
  have fewer : ∀ steps : List Step,
      (steps.countP fun step => !(cursor.active.enter (cursor.step production)).contains step) ≤
        steps.countP fun step => !cursor.active.contains step := by
    intro steps
    refine List.countP_mono_left fun step _ free => ?_
    rw [ActiveSteps.contains_enter] at free
    simp only [Bool.not_or, Bool.and_eq_true] at free
    exact free.2
  show (cursor.stepsAhead.countP fun step =>
    !(cursor.active.enter (cursor.step production)).contains step) < _
  unfold room
  unfold busy at idle
  have before := fewer front
  have behind := fewer back
  rw [parts]
  simp only [List.countP_append, List.countP_cons, ActiveSteps.contains_enter, step_eq, idle,
    BEq.rfl, Bool.true_or, Bool.not_true, Bool.not_false, if_true, Bool.false_eq_true,
    if_false] at before behind ⊢
  omega

/-- A cursor with productions entered where it stands, the last one in front. -/
def within (cursor : Cursor) : List Production → Cursor
  | [] => cursor
  | entered :: others =>
    { cursor.within others with
      active := (cursor.within others).active.enter ((cursor.within others).step entered) }

/-- Entering productions takes no token. -/
@[simp] theorem within_rest (cursor : Cursor) (entered : List Production) :
    (cursor.within entered).rest = cursor.rest := by
  -- Entering a step takes no tokens.
  induction entered with
  | nil => rfl
  | cons _ _ ih => exact ih

/-- Productions entered are busy where they were entered, and nothing else ahead changes. -/
theorem busy_within (cursor : Cursor) (entered : List Production) (production : Production)
    {ahead : Nat} (within : ahead ≤ cursor.rest.length) :
    (cursor.within entered).busy production ahead =
      (decide (production ∈ entered ∧ ahead = 0) || cursor.busy production ahead) := by
  -- one production after the other, each entered at the same place
  induction entered with
  | nil => simp [Cursor.within]
  | cons first others ih =>
    show ({ cursor.within others with
      active := (cursor.within others).active.enter ((cursor.within others).step first) } :
        Cursor).busy production ahead = _
    rw [busy_enter (cursor.within others) first production (by simpa using within), ih,
      ← Bool.or_assoc]
    congr 1
    by_cases here : ahead = 0
    · simp [here]
    · simp [here]

/-- Every production entered takes room of its own. -/
theorem room_within {cursor : Cursor} {entered : List Production} (apart : entered.Nodup)
    (idle : ∀ production ∈ entered, cursor.busy production 0 = false) :
    (cursor.within entered).room + entered.length ≤ cursor.room := by
  -- each production entered is one that was not under way, and takes one level
  induction entered with
  | nil => exact Nat.le_refl _
  | cons first others ih =>
    obtain ⟨fresh, apart⟩ := List.nodup_cons.mp apart
    have rest := ih apart fun production member => idle production (.tail first member)
    have free : (cursor.within others).busy first 0 = false := by
      rw [busy_within cursor others first (Nat.zero_le _), idle first (.head others)]
      simp [fresh]
    have less : (cursor.within (first :: others)).room < (cursor.within others).room :=
      room_enter free
    rw [List.length_cons]
    omega

/-- At the front of its tokens, with nothing under way, a cursor has all the room there is. -/
theorem room_start (tokens : List Token) : (Cursor.start tokens).room = nestingLimit tokens := by
  -- At the start nothing is under way, so that every pair of a production and a place counts.
  have all : (Cursor.start tokens).room = (Cursor.start tokens).stepsAhead.length := by
    unfold room
    rw [List.countP_eq_length]
    intro step _
    rfl
  rw [all, nestingLimit, Nat.mul_comm, stepsAhead, List.length_flatMap]
  simp only [List.length_map, List.map_const', List.sum_replicate_nat, List.length_range]
  rfl

end Cursor

end SqlLayout
