import Mathlib.Logic.ExistsUnique
import SmallScheme.Proofs.Moment.Unwinding

namespace SmallScheme

/-!
# What is entered and left

A wind encloses the run of its middle procedure, and a handler encloses the run of its thunk.  That
such an enclosure is entered and that it is left are the events of a run.  The events nest if what
is left is always what was entered last and has not been left: then each event that enters has at
most one event that leaves the same enclosure, and each event that leaves has exactly one that
entered.
-/

/-- What encloses the run of a thunk, with all that waits further out. -/
inductive Enclosure : Type 1
  /-- A wind, which calls its last procedure when the thunk has ended. -/
  | wind (thunk after : Value) (below : List Pending)
  /-- A handler, which is called when the thunk has ended with a condition. -/
  | handling (handler thunk : Value) (below : List Pending)

namespace Enclosure

def thunk : Enclosure → Value
  | .wind thunk _ _ => thunk
  | .handling _ thunk _ => thunk

def below : Enclosure → List Pending
  | .wind _ _ below => below
  | .handling _ _ below => below

/-- What waits while the thunk runs. -/
def waiting : Enclosure → List Pending
  | .wind thunk after below => .middle thunk after :: below
  | .handling handler thunk below => .thunk handler thunk :: below

/-- The procedure and the operands of the call that is made when the thunk has ended. -/
def response? : Enclosure → Except Unwind Value → Option (Value × List Value)
  | .wind _ after _, _ => some (after, [])
  | .handling handler _ _, .error (.fault cause) =>
      cause.handled?.map fun condition => (handler, [condition])
  | .handling _ _ _, _ => none

end Enclosure

/-- What happens to an enclosure in a run. -/
inductive Event : Type 1
  /-- The thunk is about to be called. -/
  | entered (enclosure : Enclosure)
  /-- The thunk has ended. -/
  | left (enclosure : Enclosure) (result : Except Unwind Value)

namespace Event

/-- All that is entered is left again, the last one first, and nothing else is left. -/
inductive Balanced : List Event → Prop
  | nil :
      Balanced []
  | enclosed
      {enclosure : Enclosure}
      {result : Except Unwind Value}
      {inside rest : List Event} :
      Balanced inside →
      Balanced rest →
      Balanced (.entered enclosure :: (inside ++ .left enclosure result :: rest))

/-- What has been entered and not been left is what is around, innermost first. -/
inductive Unfinished : List Event → List Enclosure → Prop
  | bare {events : List Event} :
      Balanced events →
      Unfinished events []
  | within
      {enclosure : Enclosure}
      {earlier inside : List Event}
      {around : List Enclosure} :
      Unfinished earlier around →
      Balanced inside →
      Unfinished (earlier ++ .entered enclosure :: inside) (enclosure :: around)

/-- Of the later events, those inside come before the one that leaves the enclosure. -/
def LeftAfter (enclosure : Enclosure) (later inside : List Event) : Prop :=
  Balanced inside ∧ ∃ result rest, later = inside ++ .left enclosure result :: rest

/-- Of the earlier events, those inside come after the one that enters the enclosure. -/
def EnteredBefore (enclosure : Enclosure) (earlier inside : List Event) : Prop :=
  Balanced inside ∧ ∃ before, earlier = before ++ .entered enclosure :: inside

variable
  {enclosure : Enclosure}
  {result : Except Unwind Value}
  {events earlier later inside : List Event}
  {around : List Enclosure}

namespace Balanced

theorem append
    (balanced : Balanced events)
    (balancedLater : Balanced later) :
    Balanced (events ++ later) := by
  induction balanced with
  | nil =>
      exact balancedLater
  | @enclosed enclosure result inside rest balancedInside _ _ inductionHypothesis =>
      have shape :
          .entered enclosure :: (inside ++ .left enclosure result :: rest) ++ later =
            .entered enclosure :: (inside ++ .left enclosure result :: (rest ++ later)) := by
        simp
      rw [shape]
      exact .enclosed balancedInside inductionHypothesis

/-- Whatever is entered is left later, after all that is entered inside. -/
theorem exists_left
    (balanced : Balanced (earlier ++ .entered enclosure :: later)) :
    ∃ inside, LeftAfter enclosure later inside := by
  generalize shape : earlier ++ .entered enclosure :: later = events at balanced
  induction balanced generalizing earlier later with
  | nil =>
      cases List.append_eq_nil_iff.mp shape with
      | intro _ impossible => cases impossible
  | @enclosed outer result inside rest balancedInside _ whenInside whenRest =>
      cases earlier with
      | nil =>
          obtain ⟨sameHead, rfl⟩ := List.cons.inj shape
          cases sameHead
          exact ⟨inside, balancedInside, result, rest, rfl⟩
      | cons first earlier =>
          obtain ⟨rfl, tails⟩ := List.cons.inj shape
          -- The event stands inside the first enclosure or behind it.
          rcases List.append_eq_append_iff.mp tails with
            ⟨between, rfl, split⟩ | ⟨between, rfl, split⟩
          · cases between with
            | nil =>
                cases split
            | cons next between =>
                obtain ⟨rfl, rfl⟩ := List.cons.inj split
                obtain ⟨innermost, balanced, ending, behind, rfl⟩ := whenInside rfl
                exact ⟨innermost, balanced, ending, behind ++ .left outer result :: rest, by simp⟩
          · cases between with
            | nil =>
                cases split
            | cons next between =>
                obtain ⟨rfl, rfl⟩ := List.cons.inj split
                exact whenRest rfl

/-- Whatever is left has been entered, and all that was entered since has been left. -/
theorem exists_entered
    (balanced : Balanced (earlier ++ .left enclosure result :: later)) :
    ∃ inside, EnteredBefore enclosure earlier inside := by
  generalize shape : earlier ++ .left enclosure result :: later = events at balanced
  induction balanced generalizing earlier later with
  | nil =>
      cases List.append_eq_nil_iff.mp shape with
      | intro _ impossible => cases impossible
  | @enclosed outer ending inside rest balancedInside _ whenInside whenRest =>
      cases earlier with
      | nil =>
          obtain ⟨impossible, _⟩ := List.cons.inj shape
          cases impossible
      | cons first earlier =>
          obtain ⟨rfl, tails⟩ := List.cons.inj shape
          rcases List.append_eq_append_iff.mp tails with
            ⟨between, rfl, split⟩ | ⟨between, rfl, split⟩
          · cases between with
            | nil =>
                obtain ⟨same, rfl⟩ := List.cons.inj split
                cases same
                exact ⟨earlier, by simpa using balancedInside, [], by simp⟩
            | cons next between =>
                obtain ⟨rfl, rfl⟩ := List.cons.inj split
                obtain ⟨innermost, balanced, before, rfl⟩ := whenInside rfl
                exact ⟨innermost, balanced, .entered outer :: before, rfl⟩
          · cases between with
            | nil =>
                obtain ⟨same, rfl⟩ := List.cons.inj split
                cases same
                exact ⟨inside, balancedInside, [], by simp⟩
            | cons next between =>
                obtain ⟨rfl, rfl⟩ := List.cons.inj split
                obtain ⟨innermost, balanced, before, rfl⟩ := whenRest rfl
                exact ⟨innermost, balanced,
                  .entered outer :: (inside ++ .left outer ending :: before), by simp⟩

/-- Balanced events end where the first event comes that leaves what they have not entered. -/
theorem unique
    {first second : Enclosure}
    {firstResult secondResult : Except Unwind Value}
    {firstInside secondInside firstRest secondRest : List Event}
    (balancedFirst : Balanced firstInside)
    (balancedSecond : Balanced secondInside)
    (same :
      firstInside ++ .left first firstResult :: firstRest =
        secondInside ++ .left second secondResult :: secondRest) :
    firstInside = secondInside := by
  induction balancedFirst generalizing secondInside first firstResult firstRest second secondResult
      secondRest with
  | nil =>
      cases balancedSecond with
      | nil =>
          rfl
      | enclosed _ _ =>
          cases same
  | @enclosed _ ending inside rest _ _ whenInside whenRest =>
      cases balancedSecond with
      | nil =>
          cases same
      | enclosed balancedInside balancedRest =>
          simp only [List.cons_append, List.append_assoc, List.cons.injEq] at same
          obtain ⟨sameEntered, sameTail⟩ := same
          cases sameEntered
          obtain rfl := whenInside balancedInside sameTail
          obtain ⟨sameLeft, sameRest⟩ := List.cons.inj (List.append_cancel_left sameTail)
          cases sameLeft
          rw [whenRest balancedRest sameRest]

end Balanced

/-- What has been entered is left at most once. -/
theorem LeftAfter.unique
    {first second : List Event}
    (leftFirst : LeftAfter enclosure later first)
    (leftSecond : LeftAfter enclosure later second) :
    first = second := by
  obtain ⟨balancedFirst, _, _, shape⟩ := leftFirst
  obtain ⟨balancedSecond, _, _, shapeSecond⟩ := leftSecond
  exact balancedFirst.unique balancedSecond (shape.symm.trans shapeSecond)

/-- What is left has been entered only once. -/
theorem EnteredBefore.unique
    {first second : List Event}
    (enteredFirst : EnteredBefore enclosure earlier first)
    (enteredSecond : EnteredBefore enclosure earlier second) :
    first = second := by
  -- If one event came after the other, what it enters would be left among the events inside.
  have noneBetween
      {between inside : List Event}
      (balanced : Balanced (between ++ .entered enclosure :: inside))
      (balancedInside : Balanced inside) :
      False := by
    obtain ⟨innermost, balancedInnermost, ending, rest, rfl⟩ := balanced.exists_left
    let whole := innermost ++ .left enclosure ending :: rest
    have leftWhole : LeftAfter enclosure (whole ++ [.left enclosure ending]) whole :=
      ⟨balancedInside, ending, [], rfl⟩
    have leftInnermost : LeftAfter enclosure (whole ++ [.left enclosure ending]) innermost :=
      ⟨balancedInnermost, ending, rest ++ [.left enclosure ending], by simp [whole]⟩
    have lengths := congrArg List.length (leftWhole.unique leftInnermost)
    simp only [whole, List.length_append, List.length_cons] at lengths
    omega
  obtain ⟨balancedFirst, beforeFirst, rfl⟩ := enteredFirst
  obtain ⟨balancedSecond, beforeSecond, same⟩ := enteredSecond
  rcases List.append_eq_append_iff.mp same with ⟨between, _, split⟩ | ⟨between, _, split⟩
  · cases between with
    | nil =>
        exact (List.cons.inj split).2
    | cons next between =>
        obtain ⟨_, rfl⟩ := List.cons.inj split
        exact (noneBetween balancedFirst balancedSecond).elim
  · cases between with
    | nil =>
        exact (List.cons.inj split).2.symm
    | cons next between =>
        obtain ⟨_, rfl⟩ := List.cons.inj split
        exact (noneBetween balancedSecond balancedFirst).elim

namespace Unfinished

/-- Balanced events leave what is around as it is. -/
theorem append
    (unfinished : Unfinished events around)
    (balanced : Balanced later) :
    Unfinished (events ++ later) around := by
  cases unfinished with
  | bare balancedEvents =>
      exact .bare (balancedEvents.append balanced)
  | within unfinished balancedInside =>
      rw [List.append_assoc, List.cons_append]
      exact .within unfinished (balancedInside.append balanced)

theorem entering
    (unfinished : Unfinished events around)
    (enclosure : Enclosure) :
    Unfinished (events ++ [.entered enclosure]) (enclosure :: around) :=
  .within unfinished .nil

theorem leaving
    (unfinished : Unfinished events (enclosure :: around))
    (result : Except Unwind Value) :
    Unfinished (events ++ [.left enclosure result]) around := by
  cases unfinished with
  | @within _ earlier inside _ unfinished balanced =>
      rw [List.append_assoc, List.cons_append]
      exact unfinished.append (.enclosed balanced .nil)

theorem balanced
    (unfinished : Unfinished events []) :
    Balanced events := by
  cases unfinished with
  | bare balanced =>
      exact balanced

/-- Unfinished events are balanced when all that is around is left. -/
theorem exists_balanced
    (unfinished : Unfinished events around) :
    ∃ more, Balanced (events ++ more) := by
  induction around generalizing events with
  | nil =>
      exact ⟨[], by simpa using unfinished.balanced⟩
  | cons enclosure around inductionHypothesis =>
      obtain ⟨more, balanced⟩ := inductionHypothesis (unfinished.leaving (.ok .unspecified))
      rw [List.append_assoc] at balanced
      exact ⟨_, balanced⟩

/-- Each event that leaves comes after exactly one that enters. -/
theorem entered_once
    (unfinished : Unfinished (earlier ++ .left enclosure result :: later) around) :
    ∃! inside, EnteredBefore enclosure earlier inside := by
  obtain ⟨more, balanced⟩ := unfinished.exists_balanced
  rw [List.append_assoc, List.cons_append] at balanced
  obtain ⟨inside, entered⟩ := balanced.exists_entered
  exact ⟨inside, entered, fun _ other => other.unique entered⟩

end Unfinished

end Event

end SmallScheme
