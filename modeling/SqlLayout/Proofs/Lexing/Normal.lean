import Mathlib.Data.List.Chain
import SqlLayout.Lexing.Tokenize
import SqlLayout.Proofs.Lexing.Trim

/-! Normal text: single blanks and upper case, as raw text is brought to before it is cut. -/

namespace SqlLayout

/-- Whether a text has single blanks only, and no name character that has a capital. -/
structure Text.Normal (text : Text) : Prop where
  /-- The only blank character is the blank. -/
  blanks : ∀ c ∈ text, isBlank c = true → c = ' '
  /-- No blank stands next to another. -/
  single : text.IsChain fun c d => isBlank c = true → isBlank d = false
  /-- The characters of names are as upper-casing leaves them. -/
  capital : ∀ c ∈ text, isNameChar c = true → upperChar c = [c]

/-- The end of a normal text is normal. -/
theorem Text.Normal.back {front back : Text} (normal : Normal (front ++ back)) :
    Normal back := by
  -- Every condition is on single characters or on neighbours, and goes over to a part.
  refine ⟨?_, normal.single.right_of_append, ?_⟩
  · exact fun c member => normal.blanks c (List.mem_append_right front member)
  · exact fun c member => normal.capital c (List.mem_append_right front member)

/-- The front of a normal text is normal. -/
theorem Text.Normal.front {front back : Text} (normal : Normal (front ++ back)) :
    Normal front := by
  -- Every condition is on single characters or on neighbours, and goes over to a part.
  refine ⟨?_, normal.single.left_of_append, ?_⟩
  · exact fun c member => normal.blanks c (List.mem_append_left back member)
  · exact fun c member => normal.capital c (List.mem_append_left back member)

/-- Blanks in front of a normal text are one blank. -/
theorem Text.Normal.eq_blank {front back : Text} (normal : Normal (front ++ back))
    (blank : Blank front) : front = [] ∨ front = [' '] := by
  -- a second blank would follow the first
  rcases front with _ | ⟨c, _ | ⟨d, front⟩⟩
  · exact .inl rfl
  · rw [normal.blanks c (by simp) (blank c (by simp))]
    exact .inr rfl
  · have apart := (List.isChain_cons_cons.mp normal.single).1 (blank c (by simp))
    rw [blank d (by simp)] at apart
    cases apart

section Squeeze

variable {gap : Char → Bool}

/-- Squeezing goes on behind a text as from a run that the text ends in. -/
theorem squeezeFrom_append (inside : Bool) (front back : Text) :
    Text.squeezeFrom gap inside (front ++ back) = Text.squeezeFrom gap inside front ++
      Text.squeezeFrom gap (front.getLast?.elim inside gap) back := by
  -- For a text begun inside a run of gaps as well, since the run may cross the seam.
  induction front generalizing inside with
  | nil => rfl
  | cons c front ih =>
    -- whether a gap is under way behind the front depends on the last character alone
    have last : (c :: front).getLast?.elim inside gap = front.getLast?.elim (gap c) gap := by
      cases front with
      | nil => rfl
      | cons d front =>
        rw [List.getLast?_cons_cons, List.getLast?_eq_some_getLast (List.cons_ne_nil d front)]
        rfl
    rw [List.cons_append, Text.squeezeFrom, Text.squeezeFrom, last]
    rcases within : gap c with _ | _
    · simp [ih]
    · cases inside with
      | false => simp [ih]
      | true => simp [ih]

/-- A text without gaps is left as it is. -/
theorem squeezeFrom_of_solid {inside : Bool} {text : Text} (solid : ∀ c ∈ text, gap c = false) :
    Text.squeezeFrom gap inside text = text := by
  -- Nothing is squeezed, and after every character the text is outside of gaps again.
  induction text generalizing inside with
  | nil => rfl
  | cons c text ih =>
    obtain ⟨first, rest⟩ := List.forall_mem_cons.mp solid
    simp [Text.squeezeFrom, first, ih rest]

/-- Behind a run it makes no difference to a text that begins with no gap. -/
theorem squeezeFrom_of_head {inside : Bool} {text : Text}
    (solid : ∀ c ∈ text.head?, gap c = false) :
    Text.squeezeFrom gap inside text = text.squeeze gap := by
  -- Whether the text is inside a gap only matters to a gap at its front.
  cases text with
  | nil => rfl
  | cons c text =>
    have first : gap c = false := solid c rfl
    simp [Text.squeeze, Text.squeezeFrom, first]

/-- A run of gaps is one blank. -/
theorem squeezeFrom_of_gaps {inside : Bool} {text : Text} (run : ∀ c ∈ text, gap c = true) :
    Text.squeezeFrom gap inside text = if inside || text.isEmpty then [] else [' '] := by
  -- The first gap leaves a blank unless one is already there, and the others leave nothing.
  induction text generalizing inside with
  | nil => simp [Text.squeezeFrom]
  | cons c text ih =>
    obtain ⟨first, rest⟩ := List.forall_mem_cons.mp run
    rw [Text.squeezeFrom, first, ih rest]
    cases inside <;> simp

/-- Every character that squeezing leaves is a blank, or one of the text that is no gap. -/
theorem mem_squeezeFrom {inside : Bool} {text : Text} {c : Char}
    (member : c ∈ Text.squeezeFrom gap inside text) : c = ' ' ∨ (c ∈ text ∧ gap c = false) := by
  induction text generalizing inside with
  | nil => cases member
  | cons d text ih =>
    have later : c ∈ Text.squeezeFrom gap (gap d) text → c = ' ' ∨ (c ∈ d :: text ∧ gap c = false) :=
      fun within => (ih within).imp_right fun found => ⟨.tail d found.1, found.2⟩
    rw [Text.squeezeFrom] at member
    -- a character that is no gap is kept; a gap leaves at most one blank
    rcases within : gap d with _ | _
    · rw [within] at member later
      rcases List.mem_cons.mp member with rfl | member
      · exact .inr ⟨.head text, within⟩
      · exact later member
    · rw [within] at member later
      cases inside with
      | true => exact later member
      | false =>
        rcases List.mem_cons.mp member with rfl | member
        · exact .inl rfl
        · exact later member

end Squeeze

/-- Squeezed blanks are single, and none follows at once on a run that was open. -/
theorem isChain_squeezeFrom (inside : Bool) (text : Text) :
    (Text.squeezeFrom isBlank inside text).IsChain (fun c d => isBlank c = true → isBlank d = false) ∧
      (inside = true → ∀ d ∈ (Text.squeezeFrom isBlank inside text).head?, isBlank d = false) := by
  -- The second half is what the induction needs behind a blank that was kept.
  induction text generalizing inside with
  | nil => exact ⟨.nil, nofun⟩
  | cons c text ih =>
    rw [Text.squeezeFrom]
    -- a blank kept is the first of its run, and the rest of the run is dropped
    split
    · split
      · rename_i open_
        subst open_
        exact ih true
      · rename_i closed
        refine ⟨List.isChain_cons.mpr ⟨fun d front _ => (ih true).2 rfl d front, (ih true).1⟩, ?_⟩
        exact fun open_ => absurd open_ closed
    · rename_i solid
      refine ⟨List.isChain_cons.mpr ⟨fun d _ blank => absurd blank solid, (ih false).1⟩, ?_⟩
      rintro _ d ⟨⟩
      simpa using solid

/-- Whether a character is no blank, and as upper-casing leaves it if it is one of a name. -/
def isCapital (c : Char) : Bool :=
  !isBlank c && (!isNameChar c || upperChar c == [c])

/-- The characters that the tables of cases lead to are capitals. -/
theorem isCapital_tables :
    (∀ entry ∈ caseExpansions, entry.2 ≠ [] ∧ ∀ code ∈ entry.2, isCapital (Char.ofNat code)) ∧
      ∀ run ∈ caseRuns, ∀ offset < run.last - run.first + 1,
        isCapital (Char.ofNat (run.target + offset)) := by
  -- The tables of upper case are finite, and all their entries are checked.
  decide +kernel

/-- A character other than a blank is upper-cased to capitals, at least one. -/
theorem upperChar_capital {c : Char} (solid : isBlank c = false) :
    upperChar c ≠ [] ∧ ∀ d ∈ upperChar c, isCapital d = true := by
  -- Three sorts of characters are mapped: ASCII, those with an entry of their own, those in a run.
  unfold upperChar
  split
  · rename_i ascii
    -- There are few enough ASCII characters to look at each.
    have all : ∀ code < 0x80, isBlank (Char.ofNat code) = false →
        isCapital (Char.ofNat code).toUpper = true := by decide +kernel
    have here := all c.toNat ascii
    rw [Char.ofNat_toNat] at here
    exact ⟨nofun, fun d member => by rw [List.mem_singleton.mp member]; exact here solid⟩
  · rename_i beyond
    split
    · rename_i codes found
      obtain ⟨front, back, split, _⟩ := List.lookup_eq_some_iff.mp found
      obtain ⟨filled, all⟩ := isCapital_tables.1 (c.toNat, codes) (by simp [split])
      refine ⟨by simpa using filled, ?_⟩
      intro d member
      obtain ⟨code, among, rfl⟩ := List.mem_map.mp member
      exact all code among
    · split
      · rename_i run found
        refine ⟨nofun, ?_⟩
        intro d member
        rw [List.mem_singleton.mp member]
        have covers := List.find?_some found
        simp only [CaseRun.covers, Bool.and_eq_true, decide_eq_true_eq] at covers
        exact isCapital_tables.2 run (List.mem_of_find?_eq_some found) _ (by omega)
      · refine ⟨nofun, ?_⟩
        intro d member
        rw [List.mem_singleton.mp member]
        have other : isNameChar c = false := by
          by_contra name
          have range := isNameChar_range (by simpa using name)
          omega
        simp [isCapital, solid, other]

/-- Upper-casing puts no blanks next to each other. -/
theorem isChain_upper {text : Text} (spaced : ∀ c ∈ text, isBlank c = true → c = ' ')
    (single : text.IsChain fun c d => isBlank c = true → isBlank d = false) :
    text.upper.IsChain fun c d => isBlank c = true → isBlank d = false := by
  -- A blank is upper-cased to itself and anything else to capitals, none of which is a blank.
  induction text with
  | nil => exact .nil
  | cons c text ih =>
    obtain ⟨first, rest⟩ := List.forall_mem_cons.mp spaced
    obtain ⟨next, others⟩ := List.isChain_cons.mp single
    have later := ih rest others
    change (upperChar c ++ Text.upper text).IsChain _
    rcases blank : isBlank c with _ | _
    · -- A character that is no blank becomes a run without blanks, which may touch anything.
      have solid : ∀ d ∈ upperChar c, isBlank d = false := by
        intro d member
        have capital := (upperChar_capital blank).2 d member
        simp only [isCapital, Bool.and_eq_true, Bool.not_eq_true'] at capital
        exact capital.1
      generalize upperChar c = run at solid
      induction run with
      | nil => exact later
      | cons d run ih' =>
        obtain ⟨here, there⟩ := List.forall_mem_cons.mp solid
        refine List.isChain_cons.mpr ⟨fun _ _ blank => ?_, ih' there⟩
        rw [here] at blank
        cases blank
    · -- A blank stays one, and the character behind it becomes a run that begins with no blank.
      rw [first blank]
      refine List.isChain_cons.mpr ⟨fun d front _ => ?_, later⟩
      cases text with
      | nil => cases front
      | cons e text =>
        obtain ⟨filled, all⟩ := upperChar_capital (next e rfl blank)
        obtain ⟨f, run, split⟩ := List.exists_cons_of_ne_nil filled
        have capital := all f (by simp [split])
        simp only [isCapital, Bool.and_eq_true, Bool.not_eq_true'] at capital
        change (upperChar e ++ Text.upper text).head? = some d at front
        rw [split] at front
        cases front
        exact capital.1

/-- Raw text is brought to normal text. -/
theorem normal_upper_squeeze (raw : Text) : Text.Normal (raw.squeeze isBlank).upper := by
  -- Squeezing leaves single blanks only, and upper-casing neither adds blanks nor joins them.
  have spaced : ∀ c ∈ raw.squeeze isBlank, isBlank c = true → c = ' ' := by
    intro c member blank
    rcases mem_squeezeFrom member with rfl | ⟨_, solid⟩
    · rfl
    · rw [blank] at solid
      cases solid
  have single := (isChain_squeezeFrom false raw).1
  change (raw.squeeze isBlank).IsChain _ at single
  generalize raw.squeeze isBlank = text at spaced single
  -- Every character of the upper-cased text is a blank of the text, or else a capital.
  have chars : ∀ c ∈ text.upper, c = ' ' ∨ isCapital c = true := by
    intro c member
    obtain ⟨d, among, here⟩ := List.mem_flatMap.mp member
    rcases blank : isBlank d with _ | _
    · exact .inr ((upperChar_capital blank).2 c here)
    · rw [spaced d among blank] at here
      exact .inl (List.mem_singleton.mp here)
  refine ⟨?_, isChain_upper spaced single, ?_⟩
  · intro c member blank
    rcases chars c member with same | capital
    · exact same
    · simp [isCapital, blank] at capital
  · intro c member name
    rcases chars c member with rfl | capital
    · cases name
    · simp only [isCapital, Bool.and_eq_true, Bool.or_eq_true, Bool.not_eq_true', beq_iff_eq,
        name, Bool.true_eq_false, false_or] at capital
      exact capital.2

end SqlLayout
