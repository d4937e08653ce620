import SmallScheme.Proofs.Reader.Progress
import SmallScheme.Regex.Search

namespace SmallScheme

/-!
# The limit on nesting

Main result.  The limit on nesting is all that sets the reader apart from one that has none: where
no datum is begun too deep they agree, in the data as in the errors, and elsewhere the reader
reports that the nesting is too deep, whatever it was in the middle of.
-/

variable {engine : Regex.Engine}

namespace Reader

open Reading

/-- An outcome is what the unlimited reader comes to, unless a datum is nested too deep there. -/
structure DiffersOnlyInDepth
    {Answer : Type}
    (outcome : Except ReadError Answer)
    (unlimited : Reading ReadError Answer) : Prop where
  same :
    unlimited.IsShallow → outcome = unlimited.outcome
  tooDeep :
    ¬unlimited.IsShallow → ∃ error, outcome = .error error ∧ error.kind = .tooDeeplyNested
  accepted :
    ∀ answer, outcome = .ok answer → unlimited.IsShallow ∧ unlimited.outcome = .ok answer

theorem differsOnlyInDepth_of_limited
    {Found Answer : Type}
    {outcome : Except ReadError Answer}
    {reading : Reading Failure Found}
    {conclude : Except Failure Found → Except ReadError Answer}
    (limits : outcome = conclude reading.limited)
    (reports :
      ∀ rest, ∃ error,
        conclude (.error ⟨.nesting, rest⟩) = .error error ∧ error.kind = .tooDeeplyNested) :
    DiffersOnlyInDepth outcome ⟨conclude reading.outcome, reading.begun⟩ := by
  by_cases shallow : reading.IsShallow
  · have same : outcome = conclude reading.outcome := by
      rw [limits, limited_of_isShallow shallow]
    exact ⟨fun _ => same, fun deep => (deep shallow).elim, fun _ isAnswer =>
      ⟨shallow, same.symm.trans isAnswer⟩⟩
  · obtain ⟨rest, stops⟩ := limited_of_not_isShallow shallow
    obtain ⟨error, reported, isTooDeep⟩ := reports rest
    have fails : outcome = .error error := by
      rw [limits, stops, reported]
    refine ⟨fun isShallow => (shallow isShallow).elim, fun _ => ⟨error, fails, isTooDeep⟩, ?_⟩
    intro answer isAnswer
    rw [fails] at isAnswer
    cases isAnswer

end Reader

open Reader

/--
The limit on nesting is the only difference between the reader and an unlimited one, at both entry
points and with however much fuel the unlimited reader is given.  If it begins no datum at a level
that is too deep, the reader comes to the same data or to the same error; otherwise the reader fails
as too deeply nested, and so it accepts no text in which a datum is begun too deep.
-/
theorem nesting_limit_is_the_only_difference
    (source : String)
    (more : Nat) :
    DiffersOnlyInDepth (readOne source) (Unlimited.readOne more source) ∧
      DiffersOnlyInDepth (readAll source) (Unlimited.readAll more source) := by
  constructor
  · unfold Unlimited.readOne
    dsimp only
    rw [unlimited_readDatum_enough]
    refine differsOnlyInDepth_of_limited ?_ fun _ => ⟨_, rfl, rfl⟩
    rw [readOne_eq_conclude, (isLimited _).datum]
  · unfold Unlimited.readAll
    dsimp only
    rw [unlimited_readForms_enough _ _ (Nat.lt_succ_self _)]
    refine differsOnlyInDepth_of_limited ?_ fun _ => ⟨_, rfl, rfl⟩
    rw [readAll_eq_conclude, readForms_eq_limited]

/-- A datum after a mark, after a dot or in a vector is begun one level below what it is part of. -/
example :
    (@Unlimited.readOne .plain 0 "('a . #(b))").begun.map Beginning.depth = [0, 1, 2, 1, 2] := by
  decide +kernel

end SmallScheme
