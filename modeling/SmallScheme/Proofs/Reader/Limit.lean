import Mathlib.Tactic.SplitIfs
import SmallScheme.Reader.Unlimited

namespace SmallScheme.Reader

/-!
# The reader and the unlimited reader

With the same fuel the reader does what the unlimited reader does up to the first datum that is
nested too deep, where it stops.  The proof follows the five functions of the reader, by induction
on their fuel.
-/

variable {engine : Regex.Engine}

namespace Reading

variable {First Answer : Type}

/-- How a reading ends that stops at the first datum that is nested too deep. -/
def limited (reading : Reading Failure Answer) : Except Failure Answer :=
  match reading.begun.find? (maxNesting ≤ ·.depth) with
  | some beginning => .error ⟨.nesting, beginning.text⟩
  | none => reading.outcome

/-- No datum is begun where it would be nested too deep. -/
def IsShallow {Error : Type} (reading : Reading Error Answer) : Prop :=
  ∀ beginning ∈ reading.begun, beginning.depth < maxNesting

variable
  {reading : Reading Failure Answer}
  {first : Reading Failure First}
  {rest : First → Reading Failure Answer}

theorem limited_of_isShallow
    (shallow : reading.IsShallow) :
    reading.limited = reading.outcome := by
  have never : reading.begun.find? (maxNesting ≤ ·.depth) = none := by
    rw [List.find?_eq_none]
    intro beginning member tooDeep
    exact Nat.not_le_of_lt (shallow beginning member) (of_decide_eq_true tooDeep)
  rw [limited, never]

theorem limited_of_not_isShallow
    (deep : ¬reading.IsShallow) :
    ∃ rest, reading.limited = .error ⟨.nesting, rest⟩ := by
  obtain ⟨beginning, member, tooDeep⟩ :
      ∃ beginning ∈ reading.begun, maxNesting ≤ beginning.depth :=
    Classical.byContradiction fun none =>
      deep fun beginning member =>
        Nat.lt_of_not_le fun tooDeep => none ⟨beginning, member, tooDeep⟩
  have isFound : (reading.begun.find? (maxNesting ≤ ·.depth)).isSome := by
    rw [List.find?_isSome]
    exact ⟨beginning, member, decide_eq_true tooDeep⟩
  obtain ⟨found, isFirst⟩ := Option.isSome_iff_exists.mp isFound
  exact ⟨found.text, by rw [limited, isFirst]⟩

/-- What follows a reading matters only for the answer of the reading. -/
theorem bind_congr_of_outcome
    {other : First → Reading Failure Answer}
    (same : ∀ answer, first.outcome = .ok answer → rest answer = other answer) :
    first >>= rest = first >>= other := by
  obtain ⟨outcome, begun⟩ := first
  cases outcome with
  | error failure => rfl
  | ok answer =>
      change (⟨(rest answer).outcome, begun ++ (rest answer).begun⟩ : Reading Failure Answer) = _
      rw [same answer rfl]
      rfl

theorem limited_plain
    (outcome : Except Failure Answer) :
    (plain outcome).limited = outcome :=
  rfl

theorem limited_bind :
    (first >>= rest).limited = first.limited >>= fun answer => (rest answer).limited := by
  obtain ⟨outcome, begun⟩ := first
  cases outcome with
  | error failure =>
      change limited ⟨.error failure, begun⟩ = _
      unfold limited
      dsimp only
      split <;> rfl
  | ok answer =>
      change limited ⟨(rest answer).outcome, begun ++ (rest answer).begun⟩ = _
      unfold limited
      dsimp only
      rw [List.find?_append]
      cases begun.find? (maxNesting ≤ ·.depth) <;> rfl

/-- What follows a limited reading is limited if it is so after each answer. -/
theorem limited_bind_of_eq
    {firstOutcome : Except Failure First}
    {restOutcome : First → Except Failure Answer}
    (same : firstOutcome = first.limited)
    (sameRest : ∀ answer, restOutcome answer = (rest answer).limited) :
    firstOutcome >>= restOutcome = (first >>= rest).limited := by
  rw [limited_bind, same, funext sameRest]

theorem limited_beginning
    (depth : Nat)
    (text : List Char) :
    (reading.beginning depth text).limited =
      if maxNesting ≤ depth then .error ⟨.nesting, text⟩ else reading.limited := by
  unfold limited beginning
  dsimp only
  rw [List.find?_cons]
  by_cases tooDeep : maxNesting ≤ depth
  · simp [tooDeep]
  · simp [tooDeep]

end Reading

open Reading

/-- With so much fuel each function of the reader is the unlimited one within the limit. -/
structure IsLimited [Regex.Engine] (fuel : Nat) : Prop where
  datum :
    ∀ depth text,
      readDatum fuel depth text = (Unlimited.readDatum fuel depth text).limited
  marked :
    ∀ depth mark text,
      readMarked fuel depth mark text = (Unlimited.readMarked fuel depth mark text).limited
  items :
    ∀ depth text,
      readItems fuel depth text = (Unlimited.readItems fuel depth text).limited
  tail :
    ∀ depth started text,
      readTail fuel depth started text = (Unlimited.readTail fuel depth started text).limited
  element :
    ∀ depth text,
      readElement fuel depth text = (Unlimited.readElement fuel depth text).limited

namespace IsLimited

variable {fuel : Nat}

theorem datum_succ
    (holds : IsLimited fuel)
    (depth : Nat)
    (text : List Char) :
    readDatum (fuel + 1) depth text = (Unlimited.readDatum (fuel + 1) depth text).limited := by
  rw [readDatum_succ, Unlimited.readDatum, limited_beginning]
  congr 1
  cases opening (afterGap text) with
  | mark mark rest => exact holds.marked _ _ _
  | list rest => exact holds.tail _ _ _
  | text rest => rfl
  | vector rest =>
      dsimp only
      exact limited_bind_of_eq (holds.items _ _) fun _ => rfl
  | bytevector rest =>
      dsimp only
      exact limited_bind_of_eq (holds.items _ _) fun _ => rfl
  | regex rest => rfl
  | character rest => rfl
  | constant rest => rfl
  | atom start => rfl

theorem marked_succ
    (holds : IsLimited fuel)
    (depth : Nat)
    (mark : Mark)
    (text : List Char) :
    readMarked (fuel + 1) depth mark text =
      (Unlimited.readMarked (fuel + 1) depth mark text).limited := by
  rw [readMarked, Unlimited.readMarked]
  exact limited_bind_of_eq (holds.datum _ _) fun _ => rfl

theorem items_succ
    (holds : IsLimited fuel)
    (depth : Nat)
    (text : List Char) :
    readItems (fuel + 1) depth text = (Unlimited.readItems (fuel + 1) depth text).limited := by
  rw [readItems_succ, Unlimited.readItems]
  cases upcoming (afterGap text) with
  | nothing => rfl
  | close rest => rfl
  | item start =>
      dsimp only
      refine limited_bind_of_eq (holds.datum _ _) fun _ => ?_
      exact limited_bind_of_eq (holds.items _ _) fun _ => rfl

theorem tail_succ
    (holds : IsLimited fuel)
    (depth : Nat)
    (started : Bool)
    (text : List Char) :
    readTail (fuel + 1) depth started text =
      (Unlimited.readTail (fuel + 1) depth started text).limited := by
  rw [readTail_succ, Unlimited.readTail]
  cases upcoming (afterGap text) with
  | nothing => rfl
  | close rest => rfl
  | item start =>
      dsimp only
      cases afterDot? start with
      | none => exact holds.element _ _
      | some rest =>
          cases started with
          | false => rfl
          | true => exact limited_bind_of_eq (holds.datum _ _) fun _ => rfl

theorem element_succ
    (holds : IsLimited fuel)
    (depth : Nat)
    (text : List Char) :
    readElement (fuel + 1) depth text = (Unlimited.readElement (fuel + 1) depth text).limited := by
  rw [readElement, Unlimited.readElement]
  refine limited_bind_of_eq (holds.datum _ _) fun _ => ?_
  exact limited_bind_of_eq (holds.tail _ _ _) fun _ => rfl

end IsLimited

theorem isLimited
    (fuel : Nat) :
    IsLimited fuel := by
  induction fuel with
  | zero =>
      constructor <;> intros <;>
        simp only [readDatum, readMarked, readItems, readTail, readElement, Unlimited.readDatum,
          Unlimited.readMarked, Unlimited.readItems, Unlimited.readTail, Unlimited.readElement,
          limited_plain]
  | succ fuel inductionHypothesis =>
      exact ⟨inductionHypothesis.datum_succ, inductionHypothesis.marked_succ,
        inductionHypothesis.items_succ, inductionHypothesis.tail_succ,
        inductionHypothesis.element_succ⟩

theorem readForms_eq_limited
    (fuel : Nat)
    (text : List Char) :
    readForms fuel text = (Unlimited.readForms 0 fuel text).limited := by
  induction fuel generalizing text with
  | zero => rfl
  | succ fuel inductionHypothesis =>
      rw [readForms, Unlimited.readForms]
      cases afterGap text with
      | nil => rfl
      | cons first others =>
          refine limited_bind_of_eq ((isLimited _).datum _ _) fun ⟨form, rest⟩ => ?_
          exact limited_bind_of_eq (inductionHypothesis rest) fun _ => rfl

end SmallScheme.Reader
