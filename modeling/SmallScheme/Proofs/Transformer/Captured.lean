import SmallScheme.Proofs.Transformer.Reversible
import SmallScheme.Transformer.Pattern

namespace SmallScheme

/-!
# What a match captures

A match captures forms for the variables of its pattern and, where an ellipsis stands alone, for the
ellipsis, and for nothing else.
-/

variable
  {fine : String → Prop}
  {store : Store}
  {literals : List String}
  {captures : Captures}
  {name : String}

/-- All names that stand for something are fine. -/
def Captures.Name (fine : String → Prop) (captures : Captures) : Prop :=
  ∀ entry ∈ captures, fine entry.1

namespace Captures.Name

theorem nil :
    Captures.Name fine [] :=
  fun _ impossible => nomatch impossible

theorem cons
    {capture : Capture}
    (isFine : fine name)
    (names : captures.Name fine) :
    Captures.Name fine ((name, capture) :: captures) :=
  List.forall_mem_cons.mpr ⟨isFine, names⟩

theorem lookup_eq_none
    (names : captures.Name fine)
    (notFine : ¬fine name) :
    captures.lookup name = none := by
  refine Option.eq_none_iff_forall_not_mem.mpr fun capture found => ?_
  obtain ⟨before, after, shape, _⟩ := List.lookup_eq_some_iff.mp found
  exact notFine (names (name, capture) (by simp [shape]))

end Captures.Name

namespace Form

/-- If the names that stood for something were fine, they are after the match. -/
private def KeepsNames
    (fine : String → Prop)
    (matching : Captures → Option Captures) : Prop :=
  ∀ captures result : Captures,
    captures.Name fine →
    matching captures = some result →
    result.Name fine

private theorem fine_of_capturing
    {pattern : Form}
    (isFine : ∀ name ∈ pattern.occurrences literals, fine name)
    (ellipsis : fine Capture.ellipsis)
    (identified : pattern.identifier? = some name)
    (notWildcard : name ≠ Capture.wildcard)
    (notLiteral : ¬literals.contains name) :
    fine name := by
  cases pattern with
  | identifier own value =>
      cases identified
      by_cases isEllipsis : name = Capture.ellipsis
      · exact isEllipsis ▸ ellipsis
      · have isVariable : isVariable literals name :=
          isVariable_iff.mpr ⟨isEllipsis, notWildcard, mt List.contains_iff_mem.mpr notLiteral⟩
        exact isFine name (by simp [occurrences, isVariable])
  | _ => cases identified

private theorem matchOverlay_keepsNames
    {matchAssigned : List Assignment → Captures → Option Captures}
    {matchTail : List Value → Value → Captures → Option Captures}
    {overlay : Overlay}
    (ellipsis : fine Capture.ellipsis)
    (assigned : ∀ assignments, KeepsNames fine (matchAssigned assignments))
    (tails : ∀ items ending, KeepsNames fine (matchTail items ending)) :
    KeepsNames fine (matchOverlay matchAssigned matchTail overlay) := by
  intro captures result names matched
  unfold matchOverlay at matched
  split at matched
  · cases matched
    exact .cons ellipsis names
  · obtain ⟨first, matchedSingles, matched⟩ := Option.bind_eq_some_iff.mp matched
    have firstNames := assigned _ _ _ names matchedSingles
    dsimp only at matched
    split at matched
    · exact assigned _ _ _ firstNames matched
    · obtain ⟨second, matchedTail, matched⟩ := Option.bind_eq_some_iff.mp matched
      have secondNames := tails _ _ _ _ firstNames matchedTail
      exact assigned _ _ _ secondNames matched

private theorem matchRemainder_keepsNames
    {matching : Value → Captures → Option Captures}
    {pattern : Form}
    (matchesEnding : ∀ ending, KeepsNames fine (matching ending))
    (isFine : ∀ name ∈ pattern.occurrences literals, fine name)
    (ellipsis : fine Capture.ellipsis)
    (items : List Value)
    (ending : Value) :
    KeepsNames fine (matchRemainder matching literals pattern items ending) := by
  intro captures result names matched
  unfold matchRemainder at matched
  split at matched
  · exact matchesEnding _ _ _ names matched
  · split at matched
    case h_1 => cases matched
    case h_2 identified =>
      split at matched
      case isTrue =>
        cases matched
        exact names
      case isFalse notWildcard =>
        split at matched
        case isTrue => cases matched
        case isFalse notLiteral =>
          cases matched
          exact .cons (fine_of_capturing isFine ellipsis identified notWildcard notLiteral) names

private theorem collectRepetitions_names
    {repeated : List String}
    (isFine : ∀ name ∈ repeated, fine name)
    (repetitions : List Captures)
    (names : captures.Name fine) :
    (collectRepetitions repeated repetitions captures).Name fine := by
  unfold collectRepetitions
  induction repeated generalizing captures with
  | nil => exact names
  | cons name rest inductionHypothesis =>
      obtain ⟨fineName, fineRest⟩ := List.forall_mem_cons.mp isFine
      exact inductionHypothesis fineRest (.cons fineName names)

mutual

private theorem matchForm_keepsNames
    (ellipsis : fine Capture.ellipsis)
    (pattern : Form)
    (isFine : ∀ name ∈ pattern.occurrences literals, fine name)
    (form : Value) :
    KeepsNames fine (matchForm store literals pattern form) :=
  match pattern with
  | .identifier name value => by
      intro captures result names matched
      unfold matchForm at matched
      split at matched
      case isTrue =>
        cases matched
        exact names
      case isFalse notWildcard =>
        split at matched
        case isTrue =>
          split at matched <;> cases matched
          exact names
        case isFalse notLiteral =>
          cases matched
          exact .cons (fine_of_capturing isFine ellipsis rfl notWildcard notLiteral) names
  | .list patterns tail _ => by
      obtain ⟨finePatterns, fineTail⟩ := List.forall_mem_append.mp isFine
      intro captures result names matched
      unfold matchForm at matched
      simp only [Option.bind_eq_bind, Option.bind_eq_some_iff] at matched
      obtain ⟨_, _, overlay, _, matched⟩ := matched
      refine matchOverlay_keepsNames ellipsis
        (fun assignments => matchAssigned_keepsNames ellipsis patterns finePatterns assignments)
          ?_ _ _ names
        matched
      exact fun items ending =>
        matchRemainder_keepsNames
            (matchForm_keepsNames ellipsis tail fineTail) fineTail ellipsis items ending
  | .vector patterns _ => by
      intro captures result names matched
      unfold matchForm at matched
      split at matched
      · simp only [Option.bind_eq_bind, Option.bind_eq_some_iff] at matched
        obtain ⟨overlay, _, matched⟩ := matched
        refine matchOverlay_keepsNames ellipsis
          (fun assignments => matchAssigned_keepsNames ellipsis patterns isFine assignments) ?_ _ _
          names matched
        intro _ _ _ _ _ impossible
        cases impossible
      · cases matched
  | .atom _ => by
      intro captures result names matched
      unfold matchForm at matched
      split at matched <;> cases matched
      exact names
  | .marked _ _ _ => by
      intro captures result names matched
      unfold matchForm at matched
      split at matched <;> cases matched
      exact names

private theorem matchAssigned_keepsNames
    (ellipsis : fine Capture.ellipsis)
    (patterns : List Form)
    (isFine : ∀ name ∈ allOccurrences literals patterns, fine name)
    (assignments : List Assignment) :
    KeepsNames fine (matchAssigned store literals patterns assignments) :=
  match patterns, assignments with
  | [], _ => by
      intro captures result names matched
      unfold matchAssigned at matched
      cases matched
      exact names
  | _ :: _, [] => by
      intro captures result names matched
      unfold matchAssigned at matched
      cases matched
      exact names
  | pattern :: patterns, assignment :: assignments => by
      obtain ⟨finePattern, finePatterns⟩ := List.forall_mem_append.mp isFine
      intro captures result names matched
      unfold matchAssigned at matched
      split at matched
      · exact matchAssigned_keepsNames ellipsis patterns finePatterns assignments _ _ names matched
      · simp only [Option.bind_eq_bind, Option.bind_eq_some_iff] at matched
        obtain ⟨between, matchedFirst, matchedRest⟩ := matched
        have betweenNames :=
          matchForm_keepsNames ellipsis pattern finePattern _ _ _ names matchedFirst
        exact matchAssigned_keepsNames ellipsis patterns finePatterns assignments _ _ betweenNames
          matchedRest
      · simp only [Option.bind_eq_bind, Option.bind_eq_some_iff] at matched
        obtain ⟨repetitions, _, matchedRest⟩ := matched
        have collected :=
          collectRepetitions_names
            (fun name member => finePattern name
              (((mem_variables pattern [] name).mp member).resolve_left List.not_mem_nil))
            repetitions names
        exact matchAssigned_keepsNames ellipsis patterns finePatterns assignments _ _ collected
          matchedRest

end

/-- A name that is no variable of the pattern stands for nothing after a match. -/
theorem lookup_eq_none_of_matchForm
    {pattern : Form}
    {form : Value}
    (matched : pattern.matchForm store literals form [] = some captures)
    (noVariable : name ∉ pattern.occurrences literals)
    (ordinary : name ≠ Capture.ellipsis) :
    captures.lookup name = none := by
  have names :
      captures.Name fun name => name ∈ pattern.occurrences literals ∨ name = Capture.ellipsis :=
    matchForm_keepsNames (.inr rfl) pattern (fun _ => .inl) form [] captures .nil matched
  exact names.lookup_eq_none fun isFine => isFine.elim noVariable ordinary

end Form

end SmallScheme
