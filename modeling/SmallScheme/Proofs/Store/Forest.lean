import Mathlib.Tactic.SplitIfs
import SmallScheme.Store.Forest

namespace SmallScheme

/-!
# What operations make of a forest

An operation adds a scope, gives a name another value in one scope, adds a namespace to one scope,
or changes nothing.  So scopes only grow: no binding is lost, and a root keeps its bindings.
-/

/-- What a later state of a scope keeps of it. -/
structure PlainScope.Grows (plain later : PlainScope) : Prop where
  parent : later.parent = plain.parent
  bindings : ∀ name ∈ plain.bindings, name ∈ later.bindings
  root :
    plain.parent = none →
      ∀ name ∈ plain.bindings, later.bindings.lookup name = plain.bindings.lookup name

namespace PlainScope.Grows

variable {plain later last : PlainScope}

/-- A scope grows to itself. -/
theorem refl
    (plain : PlainScope) :
    plain.Grows plain :=
  ⟨rfl, fun _ present => present, fun _ _ _ => rfl⟩

/-- What grows from a grown scope grows from the first. -/
theorem trans
    (first : plain.Grows later)
    (second : later.Grows last) :
    plain.Grows last where
  parent := second.parent.trans first.parent
  bindings name present := second.bindings name (first.bindings name present)
  root isRoot name present :=
    (second.root (first.parent.trans isRoot) name (first.bindings name present)).trans
      (first.root isRoot name present)

/-- A scope grows by a binding that is new, or that is not in the root. -/
theorem bind
    {name : String}
    (allowed : name ∉ plain.bindings ∨ plain.parent ≠ none)
    (value : Value) :
    plain.Grows (plain.bind name value) where
  parent := rfl
  bindings other present := Finmap.mem_insert.mpr (.inr present)
  root isRoot other present := by
    rcases allowed with absent | hasParent
    · refine Finmap.lookup_insert_of_ne _ ?_
      rintro rfl
      exact absent present
    · exact (hasParent isRoot).elim

/-- A scope grows by a namespace that it uses. -/
theorem use
    (name : String) :
    plain.Grows (plain.use name) := by
  unfold PlainScope.use
  split
  · exact refl plain
  · exact ⟨rfl, fun _ present => present, fun _ _ _ => rfl⟩

end PlainScope.Grows

namespace Forest

variable {forest : Forest}

/-- A name is held by the scope that binds it, or else by what holds it for the parent. -/
theorem holder?_eq
    {number : Nat}
    {plain : PlainScope}
    (found : forest.scopes[number]? = some plain)
    (name : String) :
    forest.holder? name number =
      if name ∈ plain.bindings then some number else plain.parent.bind (forest.holder? name) := by
  rw [holder?]
  split
  case h_1 absent =>
    cases absent.symm.trans found
  case h_2 other foundOther =>
    cases foundOther.symm.trans found
    split_ifs
    · rfl
    · split
      case h_1 isRoot =>
        simp only [isRoot, Option.bind_none]
      case h_2 parent isParent =>
        simp only [isParent, Option.bind_some]

/-- The nearest scope that binds a name is there, and it does. -/
theorem exists_of_holder?
    {name : String}
    {number holder : Nat}
    (held : forest.holder? name number = some holder) :
    ∃ plain, forest.scopes[holder]? = some plain ∧ name ∈ plain.bindings := by
  induction number using Nat.strong_induction_on with
  | _ number inductionHypothesis =>
      cases found : forest.scopes[number]? with
      | none =>
          rw [holder?] at held
          split at held
          case h_1 => cases held
          case h_2 plain isFound =>
            cases found.symm.trans isFound
      | some plain =>
          rw [holder?_eq found] at held
          split_ifs at held with present
          · cases held
            exact ⟨plain, found, present⟩
          · obtain ⟨parent, isParent, heldAbove⟩ := Option.bind_eq_some_iff.mp held
            exact inductionHypothesis parent (forest.ordered found isParent) heldAbove

/-- What an operation may make of a forest. -/
inductive Revises (forest : Forest) : ScopeOperation → Forest → Prop
  | nothing {operation : ScopeOperation} :
      Revises forest operation forest
  | adds
      {operation : ScopeOperation}
      {new : PlainScope}
      (older : ∀ parent, new.parent = some parent → parent < forest.scopes.length) :
      Revises forest operation (forest.add new older)
  /-- The name is new in the scope, or the scope has a parent. -/
  | binds
      {operation : ScopeOperation}
      {number : Nat}
      {name : String}
      {value : Value}
      (allowed :
        ∀ plain,
          forest.scopes[number]? = some plain →
          name ∉ plain.bindings ∨ plain.parent ≠ none) :
      Revises forest operation
        (forest.change number (·.bind name value) (·.parent_bind name value))
  | uses {number : Nat} {name : String} :
      Revises forest (.useNamespace number name)
        (forest.change number (·.use name) (PlainScope.parent_use name))

/-- An operation on a scope revises the forest as it does for the scope that is there. -/
theorem Revises.on
    {operation : ScopeOperation}
    {number : Nat}
    {act : PlainScope → ScopeAnswer × Forest}
    (revises :
      ∀ plain, forest.scopes[number]? = some plain → Revises forest operation (act plain).2) :
    Revises forest operation (forest.on number act).2 := by
  unfold Forest.on
  cases found : forest.scopes[number]? with
  | some plain => exact revises plain found
  | none => exact .nothing

/-- Each operation revises one scope of the forest or adds one. -/
theorem revises_perform
    (forest : Forest)
    (operation : ScopeOperation) :
    Revises forest operation (forest.perform operation).2 := by
  cases operation with
  | newRoot =>
      simp only [Forest.perform]
      exact .adds _
  | newChild number =>
      simp only [Forest.perform, Forest.addChild]
      split
      case h_1 => exact .nothing
      case h_2 plain found =>
        refine .adds ?_
        rintro parent ⟨⟩
        exact (List.getElem?_eq_some_iff.mp found).1
  | define number name value =>
      refine .on fun plain found => ?_
      unfold Forest.define
      split_ifs with present
      · exact .nothing
      · refine .binds fun other foundOther => .inl ?_
        cases found.symm.trans foundOther
        exact present
  | assign number name value =>
      refine .on fun plain found => ?_
      unfold Forest.assign
      split
      case h_1 => exact .nothing
      case h_2 holder held =>
        split
        case h_1 => exact .nothing
        case h_2 parent isParent =>
          refine .binds fun above foundAbove => .inr ?_
          rw [Forest.parent?, foundAbove] at isParent
          exact Option.ne_none_iff_exists'.mpr ⟨parent, isParent⟩
  | useNamespace number name => exact .on fun _ _ => .uses
  | resolve number name => exact .on fun _ _ => .nothing
  | isBound number name => exact .on fun _ _ => .nothing
  | namespaces number => exact .on fun _ _ => .nothing
  | localNames number => exact .on fun _ _ => .nothing

/-- A scope stays as it is when another is added. -/
theorem getElem?_add
    {number : Nat}
    {plain new : PlainScope}
    (older : ∀ parent, new.parent = some parent → parent < forest.scopes.length)
    (found : forest.scopes[number]? = some plain) :
    (forest.add new older).scopes[number]? = some plain := by
  rw [Forest.add, List.getElem?_append_left (List.getElem?_eq_some_iff.mp found).1]
  exact found

/-- A scope stays as it is when another is changed. -/
theorem getElem?_change
    {number other : Nat}
    {plain : PlainScope}
    {revise : PlainScope → PlainScope}
    (keeps : ∀ plain, (revise plain).parent = plain.parent)
    (found : forest.scopes[other]? = some plain) :
    (forest.change number revise keeps).scopes[other]? =
      some (if number = other then revise plain else plain) := by
  rw [Forest.change, List.getElem?_modify, found]
  rfl

/-- A scope only grows in one operation. -/
theorem grows_perform
    {number : Nat}
    {plain : PlainScope}
    (found : forest.scopes[number]? = some plain)
    (operation : ScopeOperation) :
    ∃ grown, (forest.perform operation).2.scopes[number]? = some grown ∧ plain.Grows grown := by
  have revises := revises_perform forest operation
  generalize (forest.perform operation).2 = revised at revises
  cases revises with
  | nothing => exact ⟨plain, found, .refl plain⟩
  | adds older => exact ⟨plain, getElem?_add older found, .refl plain⟩
  | binds allowed =>
      refine ⟨_, getElem?_change _ found, ?_⟩
      split
      case isTrue same =>
        subst same
        exact .bind (allowed plain found) _
      case isFalse => exact .refl plain
  | uses =>
      refine ⟨_, getElem?_change _ found, ?_⟩
      split
      · exact .use _
      · exact .refl plain

/-- A scope only grows in any sequence of operations. -/
theorem grows_performAll
    {number : Nat}
    {plain : PlainScope}
    (found : forest.scopes[number]? = some plain)
    (operations : List ScopeOperation) :
    ∃ grown,
      (performAll Forest.perform operations forest).2.scopes[number]? = some grown ∧
        plain.Grows grown := by
  induction operations generalizing forest plain with
  | nil => exact ⟨plain, found, .refl plain⟩
  | cons operation rest inductionHypothesis =>
      obtain ⟨grown, foundNext, grows⟩ := grows_perform found operation
      obtain ⟨grownMore, foundLast, growsMore⟩ := inductionHypothesis foundNext
      exact ⟨grownMore, foundLast, grows.trans growsMore⟩

/-- The namespaces of a scope stay in each operation but its own use of one. -/
theorem namespacesAt?_perform
    {number : Nat}
    {plain : PlainScope}
    (found : forest.scopes[number]? = some plain)
    {operation : ScopeOperation}
    (elsewhere : ∀ name, operation ≠ .useNamespace number name) :
    (forest.perform operation).2.namespacesAt? number = forest.namespacesAt? number := by
  have revises := revises_perform forest operation
  generalize (forest.perform operation).2 = revised at revises
  unfold namespacesAt?
  cases revises with
  | nothing => rfl
  | adds older => rw [getElem?_add older found, found]
  | binds allowed =>
      rw [getElem?_change _ found, found]
      split <;> rfl
  | @uses other name =>
      have different : other ≠ number := by
        rintro rfl
        exact elsewhere name rfl
      rw [getElem?_change _ found, found, if_neg different]

/-- The namespaces of a scope stay as long as none is used in it. -/
theorem namespacesAt?_performAll
    {number : Nat}
    {plain : PlainScope}
    (found : forest.scopes[number]? = some plain)
    {operations : List ScopeOperation}
    (elsewhere : ∀ name, .useNamespace number name ∉ operations) :
    (performAll Forest.perform operations forest).2.namespacesAt? number =
      forest.namespacesAt? number := by
  induction operations generalizing forest plain with
  | nil => rfl
  | cons operation rest inductionHypothesis =>
      obtain ⟨grown, foundNext, _⟩ := grows_perform found operation
      have sameNext : (forest.perform operation).2.namespacesAt? number = _ :=
        namespacesAt?_perform found fun name same =>
          elsewhere name (by rw [same]; exact List.mem_cons_self)
      have sameRest := inductionHypothesis foundNext fun name member =>
        elsewhere name (List.mem_cons_of_mem _ member)
      exact sameRest.trans sameNext

/-- A binding stays in its scope, and in the root it keeps its value. -/
theorem bindingAt?_performAll
    {number : Nat}
    {name : String}
    {value : Value}
    (bound : forest.bindingAt? number name = some value)
    (operations : List ScopeOperation) :
    ∃ later, (performAll Forest.perform operations forest).2.bindingAt? number name = some later ∧
      (forest.parent? number = none → later = value) := by
  obtain ⟨plain, found, bound⟩ := Option.bind_eq_some_iff.mp bound
  obtain ⟨grown, foundLast, grows⟩ := grows_performAll found operations
  have present : name ∈ plain.bindings := Finmap.mem_iff.mpr ⟨value, bound⟩
  obtain ⟨later, boundLast⟩ := Finmap.mem_iff.mp (grows.bindings name present)
  refine ⟨later, ?_, fun isRoot => ?_⟩
  · rw [bindingAt?, foundLast]
    exact boundLast
  · have isRoot : plain.parent = none := by
      rw [parent?, found] at isRoot
      exact isRoot
    have same := grows.root isRoot name present
    rw [boundLast, bound] at same
    exact Option.some.inj same

end Forest

end SmallScheme
