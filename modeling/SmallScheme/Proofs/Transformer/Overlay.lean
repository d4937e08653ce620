import SmallScheme.Proofs.Transformer.Instance
import SmallScheme.Transformer.Pattern

namespace SmallScheme

/-!
# Sequences laid over forms

A sequence without ellipsis takes one form for each item; one with an ellipsis takes the forms
before, those that are left over, and the forms after.  Matching a sequence is matching these parts
one after the other, the repetitions last.
-/

namespace Form

open Overlay

variable
  {store : Store}
  {literals : List String}
  {forms : List Value}
  {ending : Value}
  {captures : Captures}

/-- Match items against forms, one by one. -/
def matchEach
    (store : Store)
    (literals : List String)
    (items : List Form)
    (forms : List Value)
    (captures : Captures) : Option Captures :=
  matchAssigned store literals items (forms.map .single) captures

theorem matchEach_cons
    {item : Form}
    {items : List Form}
    {form : Value} :
    matchEach store literals (item :: items) (form :: forms) captures =
      (item.matchForm store literals form captures).bind
        (matchEach store literals items forms) :=
  rfl

theorem matchAssigned_nothing
    (items : List Form) :
    matchAssigned store literals items [] captures = some captures := by
  cases items <;> rfl

theorem matchAssigned_append
    {items others : List Form}
    {assignments further : List Assignment}
    (sameLength : items.length = assignments.length) :
    matchAssigned store literals (items ++ others) (assignments ++ further) captures =
      (matchAssigned store literals items assignments captures).bind
        (matchAssigned store literals others further) := by
  induction items generalizing assignments captures with
  | nil =>
      cases assignments with
      | nil => rfl
      | cons assignment assignments => cases sameLength
  | cons item items inductionHypothesis =>
      cases assignments with
      | nil => cases sameLength
      | cons assignment assignments =>
          have rest (captures : Captures) :=
            @inductionHypothesis captures assignments (Nat.succ.inj sameLength)
          cases assignment with
          | ignored => exact rest captures
          | single form =>
              simp only [List.cons_append, matchAssigned, rest]
              exact (Option.bind_assoc _ _ _).symm
          | repeated forms =>
              simp only [List.cons_append, matchAssigned, rest]
              exact (Option.bind_assoc _ _ _).symm

theorem matchAssigned_skipped
    {items others : List Form}
    {assignments : List Assignment} :
    matchAssigned store literals (items ++ others)
        (List.replicate items.length .ignored ++ assignments) captures =
      matchAssigned store literals others assignments captures := by
  induction items with
  | nil => rfl
  | cons item items inductionHypothesis => exact inductionHypothesis

/-! Overlays. -/

theorem ellipsisIndex?_plain
    {items : List Form}
    (plain : NoEllipsis items) :
    ellipsisIndex? items = none :=
  List.findIdx?_eq_none_iff.mpr fun item member => Bool.not_eq_true _ ▸ plain item member

theorem ellipsisIndex?_repeating
    {before after : List Form}
    {repeated dots : Form}
    (plainBefore : NoEllipsis before)
    (plainRepeated : ¬repeated.isNamed Capture.ellipsis)
    (isDots : dots.isNamed Capture.ellipsis) :
    ellipsisIndex? (before ++ repeated :: dots :: after) = some (before.length + 1) := by
  have none : before.findIdx? (fun pattern => pattern.isNamed Capture.ellipsis) = none :=
    ellipsisIndex?_plain plainBefore
  unfold ellipsisIndex?
  rw [List.findIdx?_append, none, List.findIdx?_cons, if_neg plainRepeated, List.findIdx?_cons,
    if_pos isDots]
  simp [Nat.add_comm]

/-- Without an ellipsis the items are matched one by one, and then the tail. -/
theorem matchOverlay_plain
    {items : List Form}
    (matchTail : List Value → Value → Captures → Option Captures)
    (remainder : Option (List Value × Value)) :
    matchOverlay (matchAssigned store literals items) matchTail
        ⟨forms.map .single, [], remainder, none⟩ captures =
      (matchEach store literals items forms captures).bind fun captures =>
        match remainder with
        | none => some captures
        | some (rest, ending) => matchTail rest ending captures := by
  unfold matchOverlay
  change (matchEach store literals items forms captures).bind _ = _
  congr 1
  funext captures
  cases remainder with
  | none => exact matchAssigned_nothing items
  | some rest =>
      change (matchTail rest.1 rest.2 captures).bind _ = _
      rw [Option.bind_congr fun captures _ => matchAssigned_nothing items, Option.bind_fun_some]

/-- With an ellipsis the items before and after it are matched, and then the repetitions. -/
theorem matchOverlay_repeating
    {before after : List Form}
    {repeated dots : Form}
    {start middle last : List Value}
    (sameLength : before.length = start.length)
    (matchTail : List Value → Value → Captures → Option Captures) :
    matchOverlay (matchAssigned store literals (before ++ repeated :: dots :: after)) matchTail
        ⟨start.map .single ++ [.ignored, .ignored] ++ last.map .single,
          List.replicate before.length .ignored ++ [.repeated middle], none, none⟩ captures =
      (matchEach store literals before start captures).bind fun captures =>
        (matchEach store literals after last captures).bind fun captures =>
          (middle.mapM fun form => repeated.matchForm store literals form []).bind
            fun repetitions =>
              some (collectRepetitions (repeated.variables literals []) repetitions captures) := by
  have singles (captures : Captures) :
      matchAssigned store literals (before ++ repeated :: dots :: after)
          (start.map .single ++ [.ignored, .ignored] ++ last.map .single) captures =
        (matchEach store literals before start captures).bind
          (matchEach store literals after last) := by
    rw [List.append_assoc, matchAssigned_append (by rw [List.length_map, sameLength])]
    rfl
  have repetitions (captures : Captures) :
      matchAssigned store literals (before ++ repeated :: dots :: after)
          (List.replicate before.length .ignored ++ [.repeated middle]) captures =
        (middle.mapM fun form => repeated.matchForm store literals form []).bind fun repetitions =>
          some (collectRepetitions (repeated.variables literals []) repetitions captures) := by
    rw [matchAssigned_skipped]
    change Option.bind _ _ = Option.bind _ _
    congr 1
  unfold matchOverlay
  change (matchAssigned _ _ _ _ _).bind _ = _
  rw [singles, Option.bind_assoc]
  congr 1
  funext captures
  congr 1
  funext captures
  exact repetitions captures

/-! Which overlays there are. -/

theorem of?_plain_closed
    {items : List Form}
    (plain : NoEllipsis items) :
    of? items true forms ending =
      if forms.length = items.length ∧ ending.isNil then
        some ⟨forms.map .single, [], none, none⟩
      else
        none := by
  unfold of? plain?
  rw [ellipsisIndex?_plain plain]
  simp

theorem of?_plain_open
    {items : List Form}
    (plain : NoEllipsis items) :
    of? items false forms ending =
      if forms.length < items.length then
        none
      else
        some
          ⟨(forms.take items.length).map .single, [], some (forms.drop items.length, ending),
            none⟩ := by
  unfold of? plain?
  rw [ellipsisIndex?_plain plain]
  simp

theorem of?_repeating
    {before after : List Form}
    {repeated dots : Form}
    (plainBefore : NoEllipsis before)
    (plainRepeated : ¬repeated.isNamed Capture.ellipsis)
    (isDots : dots.isNamed Capture.ellipsis)
    (plainAfter : NoEllipsis after)
    (closed : Bool) :
    of? (before ++ repeated :: dots :: after) closed forms ending =
      if closed ∧ ending.isNil ∧ before.length + after.length ≤ forms.length then
        let middle := forms.length - after.length - before.length
        some
          ⟨(forms.take before.length).map .single ++ [.ignored, .ignored] ++
              (forms.drop (before.length + middle)).map .single,
            List.replicate before.length .ignored ++
              [.repeated ((forms.drop before.length).take middle)], none, none⟩
      else
        none := by
  have rest : (before ++ repeated :: dots :: after).drop (before.length + 1 + 1) = after := by
    rw [Nat.add_assoc, List.drop_append]
    simp
  unfold of? repeating?
  rw [ellipsisIndex?_repeating plainBefore plainRepeated isDots]
  simp only [Nat.add_sub_cancel, rest, ellipsisIndex?_plain plainAfter, Option.isSome_none,
    Bool.or_false, Nat.succ_ne_zero, if_false, decide_eq_true_eq, Bool.and_eq_true]
  by_cases isClosed : closed ∧ ending.isNil
  · rw [if_pos isClosed]
    by_cases enough : before.length + after.length ≤ forms.length
    · rw [if_neg (Nat.not_lt.mpr enough), if_pos ⟨isClosed.1, isClosed.2, enough⟩]
    · rw [if_pos (Nat.not_le.mp enough), if_neg fun all => enough all.2.2]
  · rw [if_neg isClosed, if_neg fun all => isClosed ⟨all.1, all.2.1⟩]

/-- Match the items of a list or a vector against forms. -/
def matchSequence
    (store : Store)
    (literals : List String)
    (items : List Form)
    (closed : Bool)
    (matchTail : List Value → Value → Captures → Option Captures)
    (forms : List Value)
    (ending : Value)
    (captures : Captures) : Option Captures :=
  (of? items closed forms ending).bind fun overlay =>
    matchOverlay (matchAssigned store literals items) matchTail overlay captures

theorem matchSequence_plain_closed
    {items : List Form}
    (plain : NoEllipsis items)
    (matchTail : List Value → Value → Captures → Option Captures)
    {result : Captures} :
    matchSequence store literals items true matchTail forms ending captures = some result ↔
      forms.length = items.length ∧ ending.isNil ∧
        matchEach store literals items forms captures = some result := by
  unfold matchSequence
  rw [of?_plain_closed plain]
  split
  case isTrue fitting =>
    rw [Option.bind_some, matchOverlay_plain, Option.bind_fun_some]
    exact ⟨fun matched => ⟨fitting.1, fitting.2, matched⟩, fun all => all.2.2⟩
  case isFalse unfitting =>
    exact ⟨nofun, fun all => (unfitting ⟨all.1, all.2.1⟩).elim⟩

theorem matchSequence_plain_open
    {items : List Form}
    (plain : NoEllipsis items)
    (matchTail : List Value → Value → Captures → Option Captures)
    {result : Captures} :
    matchSequence store literals items false matchTail forms ending captures = some result ↔
      ∃ start rest between,
        forms = start ++ rest ∧ start.length = items.length ∧
          matchEach store literals items start captures = some between ∧
          matchTail rest ending between = some result := by
  unfold matchSequence
  rw [of?_plain_open plain]
  split
  case isTrue short =>
    refine ⟨nofun, ?_⟩
    rintro ⟨start, rest, _, rfl, size, _⟩
    rw [List.length_append] at short
    omega
  case isFalse enough =>
    rw [Option.bind_some, matchOverlay_plain, Option.bind_eq_some_iff]
    constructor
    · rintro ⟨between, matched, matchedTail⟩
      refine ⟨_, _, between, (List.take_append_drop items.length forms).symm, ?_, matched,
        matchedTail⟩
      rw [List.length_take]
      omega
    · rintro ⟨start, rest, between, rfl, size, matched, matchedTail⟩
      rw [← size, List.take_left, List.drop_left]
      exact ⟨between, matched, matchedTail⟩

/-- The items of which the forms are repetitions are matched from nothing for each of them. -/
def matchRepeatedly
    (store : Store)
    (literals : List String)
    (item : Form)
    (forms : List Value)
    (repetitions : List Captures) : Prop :=
  List.Forall₂ (fun form captures => item.matchForm store literals form [] = some captures) forms
    repetitions

theorem matchSequence_repeating
    {before after : List Form}
    {repeated dots : Form}
    (plainBefore : NoEllipsis before)
    (plainRepeated : ¬repeated.isNamed Capture.ellipsis)
    (isDots : dots.isNamed Capture.ellipsis)
    (plainAfter : NoEllipsis after)
    (matchTail : List Value → Value → Captures → Option Captures)
    {result : Captures} :
    matchSequence store literals (before ++ repeated :: dots :: after) true matchTail forms ending
        captures = some result ↔
      ending.isNil ∧
        ∃ start middle last first second repetitions,
          forms = start ++ (middle ++ last) ∧ start.length = before.length ∧
            last.length = after.length ∧
            matchEach store literals before start captures = some first ∧
            matchEach store literals after last first = some second ∧
            matchRepeatedly store literals repeated middle repetitions ∧
            collectRepetitions (repeated.variables literals []) repetitions second = result := by
  unfold matchSequence
  rw [of?_repeating plainBefore plainRepeated isDots plainAfter]
  split
  case isTrue fitting =>
    obtain ⟨_, isNil, enough⟩ := fitting
    dsimp only
    have startSize : before.length = (forms.take before.length).length := by
      rw [List.length_take]
      omega
    rw [Option.bind_some, matchOverlay_repeating startSize]
    simp only [Option.bind_eq_some_iff, mapM_eq_some_iff, Option.some.injEq]
    constructor
    · rintro ⟨first, matchedBefore, second, matchedAfter, repetitions, matched, same⟩
      refine ⟨isNil, _, _, _, first, second, repetitions, ?_, startSize.symm, ?_, matchedBefore,
        matchedAfter, matched, same⟩
      · rw [← List.drop_drop, List.take_append_drop, List.take_append_drop]
      · rw [List.length_drop]
        omega
    · rintro ⟨_, start, middle, last, first, second, repetitions, rfl, size, sizeLast,
        matchedBefore, matchedAfter, matched, same⟩
      have sizeMiddle :
          (start ++ (middle ++ last)).length - after.length - before.length = middle.length := by
        simp only [List.length_append]
        omega
      rw [sizeMiddle, ← size, ← List.drop_drop, List.take_left, List.drop_left, List.take_left,
        List.drop_left]
      exact ⟨first, matchedBefore, second, matchedAfter, repetitions, matched, same⟩
  case isFalse unfitting =>
    refine ⟨fun matched => (Option.some_ne_none _ matched.symm).elim, ?_⟩
    rintro ⟨isNil, start, middle, last, _, _, _, rfl, size, sizeLast, _⟩
    refine (unfitting ⟨rfl, isNil, ?_⟩).elim
    simp only [List.length_append]
    omega

end Form

end SmallScheme
