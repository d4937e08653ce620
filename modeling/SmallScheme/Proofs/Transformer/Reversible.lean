import SmallScheme.Proofs.Store.Likeness
import SmallScheme.Proofs.Transformer.Settling
import SmallScheme.Transformer.Template

namespace SmallScheme

/-!
# Patterns that can be read backwards

Patterns of variables, literals, exact atoms, lists and vectors, the variables that occur in them,
and the captures of one repetition of these.
-/

namespace Form

/-- The name is neither a literal nor one of the two special identifiers. -/
def isVariable (literals : List String) (name : String) : Bool :=
  !(name = Capture.ellipsis || name = Capture.wildcard || literals.contains name)

mutual

/-- The variables of a pattern, as often as they occur. -/
def occurrences (literals : List String) : Form → List String
  | .atom _ => []
  | .identifier name _ => if isVariable literals name then [name] else []
  | .list items tail _ => allOccurrences literals items ++ occurrences literals tail
  | .vector items _ => allOccurrences literals items
  | .marked _ inner _ => occurrences literals inner

def allOccurrences (literals : List String) : List Form → List String
  | [] => []
  | form :: rest => occurrences literals form ++ allOccurrences literals rest

end

/-- None of the items is an ellipsis. -/
def NoEllipsis (items : List Form) : Prop :=
  ∀ item ∈ items, ¬item.isNamed Capture.ellipsis

/-- The items of a list or a vector, with one ellipsis at most, after an item with a variable. -/
inductive IsSequence (literals : List String) : List Form → Prop
  | plain {items : List Form} : NoEllipsis items → IsSequence literals items
  | repeating {before after : List Form} {repeated dots : Form} :
      NoEllipsis before →
      ¬repeated.isNamed Capture.ellipsis →
      repeated.occurrences literals ≠ [] →
      dots.isNamed Capture.ellipsis →
      NoEllipsis after →
      IsSequence literals (before ++ repeated :: dots :: after)

/--
A pattern of variables, literals, exact atoms, lists and vectors, without ellipsis before a tail
that is not empty.
-/
inductive IsReversible (literals : List String) : Form → Prop
  | atom {value : Value} : value.IsExact → IsReversible literals (.atom value)
  | capturing {name : String} {value : Value} :
      isVariable literals name → IsReversible literals (.identifier name value)
  | literal {name : String} {value : Value} :
      name ∈ literals → name ≠ Capture.wildcard → IsReversible literals (.identifier name value)
  | list {items : List Form} {tail : Form} {value : Value} :
      IsSequence literals items →
      (∀ item ∈ items, ¬item.isNamed Capture.ellipsis → IsReversible literals item) →
      IsReversible literals tail →
      (tail.isNil ∨ NoEllipsis items) →
      IsReversible literals (.list items tail value)
  | vector {items : List Form} {value : Value} :
      IsSequence literals items →
      (∀ item ∈ items, ¬item.isNamed Capture.ellipsis → IsReversible literals item) →
      IsReversible literals (.vector items value)

variable {literals : List String}

/-! The variables of a pattern. -/

/-- A name is a variable unless it is the ellipsis, the wildcard or a literal. -/
theorem isVariable_iff
    {name : String} :
    isVariable literals name ↔
      name ≠ Capture.ellipsis ∧ name ≠ Capture.wildcard ∧ name ∉ literals := by
  simp [isVariable, and_assoc]

mutual

/-- The variables of a form are those found before and those that occur in it. -/
theorem mem_variables
    (form : Form)
    (found : List String)
    (name : String) :
    name ∈ form.variables literals found ↔ name ∈ found ∨ name ∈ form.occurrences literals := by
  match form with
  | .atom value => simp [Form.variables, occurrences]
  | .identifier own value =>
      unfold Form.variables occurrences isVariable
      cases special : own = Capture.ellipsis || own = Capture.wildcard || literals.contains own with
      | true => simp
      | false =>
          rw [Bool.false_or]
          split
          case isTrue present =>
            constructor
            · exact .inl
            · rintro (member | same)
              · exact member
              · rw [List.mem_singleton.mp same]
                exact List.contains_iff_mem.mp present
          case isFalse => simp
  | .list items tail value =>
      rw [Form.variables, mem_variables tail, mem_allVariables items, occurrences, List.mem_append,
        or_assoc]
  | .vector items value => exact mem_allVariables items found name
  | .marked mark inner value => exact mem_variables inner found name

/-- The variables of several forms are those found before and those that occur in them. -/
theorem mem_allVariables
    (forms : List Form)
    (found : List String)
    (name : String) :
    name ∈ allVariables literals found forms ↔
      name ∈ found ∨ name ∈ allOccurrences literals forms := by
  match forms with
  | [] => simp [allVariables, allOccurrences]
  | form :: rest =>
      rw [allVariables, mem_allVariables rest, mem_variables form, allOccurrences,
        List.mem_append, or_assoc]

end

/-- A name occurs in forms if it occurs in one of them. -/
theorem mem_allOccurrences
    {items : List Form}
    {name : String} :
    name ∈ allOccurrences literals items ↔ ∃ item ∈ items, name ∈ item.occurrences literals := by
  induction items with
  | nil => simp [allOccurrences]
  | cons item rest inductionHypothesis => simp [allOccurrences, inductionHypothesis]

/-- No variable occurs in an ellipsis. -/
theorem occurrences_ellipsis
    {form : Form}
    (isDots : form.isNamed Capture.ellipsis) :
    form.occurrences literals = [] := by
  cases form with
  | identifier name value =>
      cases of_decide_eq_true isDots
      rfl
  | _ => cases of_decide_eq_true isDots

/-- What occurs around an ellipsis occurs before, under or after it. -/
theorem allOccurrences_repeating
    {before after : List Form}
    {repeated dots : Form}
    (isDots : dots.isNamed Capture.ellipsis) :
    allOccurrences literals (before ++ repeated :: dots :: after) =
      allOccurrences literals before ++
        (repeated.occurrences literals ++ allOccurrences literals after) := by
  have nothing : dots.occurrences literals = [] := occurrences_ellipsis isDots
  induction before with
  | nil => simp [allOccurrences, nothing]
  | cons item before inductionHypothesis =>
      rw [List.cons_append, allOccurrences, inductionHypothesis, allOccurrences, List.append_assoc]

/-- What occurs in an item occurs in the items. -/
theorem occurrences_subset
    {items : List Form}
    {item : Form}
    (member : item ∈ items) :
    item.occurrences literals ⊆ allOccurrences literals items :=
  fun _ occurs => mem_allOccurrences.mpr ⟨item, member, occurs⟩

/-! Items without an ellipsis. -/

/-- An item that is no ellipsis is no ellipsis at the head. -/
theorem noEllipsis_head_cons
    {item : Form}
    (plain : ¬item.isNamed Capture.ellipsis)
    (rest : List Form) :
    NoEllipsis (item :: rest).head?.toList := by
  intro next member
  cases Option.mem_toList.mp member
  exact plain

/-- Items without an ellipsis do not follow one another as if they had any. -/
theorem NoEllipsis.head_append
    {items others : List Form}
    (plain : NoEllipsis items)
    (notFollowed : NoEllipsis others.head?.toList) :
    NoEllipsis (items ++ others).head?.toList := by
  cases items with
  | nil => exact notFollowed
  | cons item items => exact noEllipsis_head_cons (plain item List.mem_cons_self) _

/-- Items without an ellipsis have none at the head. -/
theorem NoEllipsis.head
    {items : List Form}
    (plain : NoEllipsis items) :
    NoEllipsis items.head?.toList := by
  cases items with
  | nil => exact fun _ member => nomatch member
  | cons item items => exact noEllipsis_head_cons (plain item List.mem_cons_self) _

/-! What holds of all items but an ellipsis. -/

/-- What holds of items that are no ellipsis holds of all where there is none. -/
theorem NoEllipsis.all
    {Holds : Form → Prop}
    {items : List Form}
    (plain : NoEllipsis items)
    (holds : ∀ item ∈ items, ¬item.isNamed Capture.ellipsis → Holds item) :
    ∀ item ∈ items, Holds item :=
  fun item member => holds item member (plain item member)

/-- What holds of items that are no ellipsis holds before, under and after the one there is. -/
theorem all_repeating
    {Holds : Form → Prop}
    {before after : List Form}
    {repeated dots : Form}
    (plainBefore : NoEllipsis before)
    (plainRepeated : ¬repeated.isNamed Capture.ellipsis)
    (plainAfter : NoEllipsis after)
    (holds :
      ∀ item ∈ before ++ repeated :: dots :: after,
        ¬item.isNamed Capture.ellipsis → Holds item) :
    (∀ item ∈ before, Holds item) ∧ Holds repeated ∧ ∀ item ∈ after, Holds item := by
  refine ⟨fun item member => ?_, ?_, fun item member => ?_⟩
  · exact holds item (List.mem_append_left _ member) (plainBefore item member)
  · exact holds repeated (by simp) plainRepeated
  · exact holds item (by simp [member]) (plainAfter item member)

end Form

namespace Captures

/-- Each of the names stands for as many repetitions. -/
def Repeats
    (captures : Captures)
    (names : List String)
    (count : Nat) : Prop :=
  ∀ name ∈ names, ∃ each, captures.lookup name = some (.many each) ∧ each.length = count

/-- The captures of one repetition of the names in front of all captures. -/
def repetition
    (captures : Captures)
    (names : List String)
    (index : Nat) : Captures :=
  captures.atRepetition (captures.repeatedVariables names) index

/-- Where a name has repetitions, one of them stands for it; other names are left as they are. -/
theorem lookup_repetition
    (captures : Captures)
    (names : List String)
    (index : Nat)
    (name : String) :
    (captures.repetition names index).lookup name =
      match captures.lookup name with
      | some (.many each) =>
          if name ∈ names then some (each[index]?.getD (.many [])) else some (.many each)
      | found => found := by
  unfold repetition atRepetition repeatedVariables
  induction names with
  | nil =>
      rcases found : captures.lookup name with _ | value | ⟨items, tail⟩ | each
      all_goals simp only [List.filterMap_nil, List.map_nil, List.nil_append, found]
      rw [if_neg List.not_mem_nil]
  | cons own rest inductionHypothesis =>
      by_cases same : name = own
      · subst same
        rcases found : captures.lookup name with _ | value | ⟨items, tail⟩ | each
        all_goals simp only [found] at inductionHypothesis
        all_goals simp only [List.filterMap_cons, found, inductionHypothesis]
        simp
      · have apart : (name == own) = false := beq_false_of_ne same
        simp only [List.mem_cons, same, false_or]
        rcases found : captures.lookup own with _ | value | ⟨items, tail⟩ | each
        all_goals simp only [List.filterMap_cons, found, inductionHypothesis]
        simp only [List.map_cons, List.cons_append, List.lookup_cons, apart, inductionHypothesis]

/-- A repetition leaves the captures of other names. -/
theorem lookup_repetition_of_not_mem
    (captures : Captures)
    {names : List String}
    {name : String}
    (absent : name ∉ names)
    (index : Nat) :
    (captures.repetition names index).lookup name = captures.lookup name := by
  rw [lookup_repetition]
  split
  case h_1 found =>
    rw [if_neg absent, found]
  case h_2 => rfl

/-- A repetition captures for its names what stands at its index. -/
theorem lookup_repetition_of_mem
    (captures : Captures)
    {names : List String}
    {name : String}
    (member : name ∈ names)
    {each : List Capture}
    (found : captures.lookup name = some (.many each))
    {index : Nat}
    (within : index < each.length) :
    (captures.repetition names index).lookup name = some each[index] := by
  rw [lookup_repetition, found]
  dsimp only
  rw [if_pos member, List.getElem?_eq_getElem within, Option.getD_some]

/-- Captures that agree repeat alike and agree in every repetition. -/
theorem Repeats.agree
    {first second : Captures}
    {names : List String}
    {count : Nat}
    {link : Capture → Capture → Prop}
    (repeats : first.Repeats names count)
    (agree : ∀ name ∈ names, first.Agree link second name) :
    second.Repeats names count ∧
      ∀ index < count, ∀ name ∈ names,
        (first.repetition names index).Agree link (second.repetition names index) name := by
  have each
      {name : String}
      (member : name ∈ names) :
      ∃ firsts seconds,
        first.lookup name = some (.many firsts) ∧ second.lookup name = some (.many seconds) ∧
          firsts.length = count ∧ List.Forall₂ (Capture.Lifts link) firsts seconds := by
    obtain ⟨firsts, foundFirst, size⟩ := repeats name member
    have related := agree name member
    rw [Agree, foundFirst] at related
    generalize foundSecond : second.lookup name = found at related
    cases related with
    | some lifts =>
        cases lifts with
        | leaf isLeaf _ _ => exact isLeaf.elim
        | many related => exact ⟨firsts, _, foundFirst, rfl, size, related⟩
  constructor
  · intro name member
    obtain ⟨firsts, seconds, _, foundSecond, size, related⟩ := each member
    exact ⟨seconds, foundSecond, related.length_eq ▸ size⟩
  · intro index within name member
    obtain ⟨firsts, seconds, foundFirst, foundSecond, size, related⟩ := each member
    have withinFirst : index < firsts.length := size.symm ▸ within
    have withinSecond : index < seconds.length := related.length_eq ▸ withinFirst
    rw [Agree, lookup_repetition_of_mem first member foundFirst withinFirst,
      lookup_repetition_of_mem second member foundSecond withinSecond]
    exact .some (related.get withinFirst withinSecond)

end Captures

end SmallScheme
