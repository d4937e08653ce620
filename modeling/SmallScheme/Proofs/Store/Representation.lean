import SmallScheme.Proofs.Store.Binding
import SmallScheme.Proofs.Store.Forest

namespace SmallScheme

/-!
# Scopes and their reference

A store represents a forest of plain scopes: each scope that has been made has a frame of its own,
which binds what the plain scope binds and has its namespaces, and the frames around it are those of
its parent.  Every operation answers as the reference does and keeps the representation.
-/

/-! One frame. -/

/-- A frame holds what a scope of the reference does. -/
structure Frame.Shows (frame : Frame) (plain : PlainScope) : Prop where
  bindings : ∀ name, frame.find? name = plain.bindings.lookup name
  distinct : (frame.bindings.map Prod.fst).Nodup
  namespaces : frame.namespaces = plain.namespaces

namespace Frame

variable
  {frame : Frame}
  {plain : PlainScope}
  {name : String}

/-- The names of a frame are those that it finds. -/
theorem mem_names_iff
    (frame : Frame)
    (name : String) :
    name ∈ frame.bindings.map Prod.fst ↔ (frame.find? name).isSome := by
  unfold find?
  induction frame.bindings with
  | nil => simp
  | cons binding rest inductionHypothesis =>
      obtain ⟨bound, value⟩ := binding
      rw [List.map_cons, List.mem_cons, inductionHypothesis, List.lookup_cons]
      by_cases same : name = bound
      · rw [beq_iff_eq.mpr same]
        exact iff_of_true (.inl same) rfl
      · rw [beq_eq_false_iff_ne.mpr same]
        exact or_iff_right same

/-- The plain scope has the names that the frame finds. -/
theorem Shows.mem_iff
    (shows : frame.Shows plain)
    (name : String) :
    name ∈ plain.bindings ↔ (frame.find? name).isSome := by
  rw [shows.bindings, Finmap.lookup_isSome]

/-- A frame that binds nothing yet. -/
theorem Shows.fresh
    {namespaces : List String}
    {parent : Option Nat}
    (distinct : namespaces.Nodup) :
    Frame.Shows ⟨[], namespaces⟩ ⟨∅, parent, namespaces, distinct⟩ where
  bindings name := by
    rw [Finmap.lookup_empty]
    rfl
  distinct := List.nodup_nil
  namespaces := rfl

/-- To bind a name adds it to the plain scope. -/
theorem Shows.bind
    (shows : frame.Shows plain)
    (absent : name ∉ plain.bindings)
    (value : Value) :
    (frame.bind name value).Shows (plain.bind name value) where
  bindings other := by
    rw [find?, Frame.bind, List.lookup_cons, PlainScope.bind]
    by_cases same : other = name
    · subst same
      simp
    · rw [beq_eq_false_iff_ne.mpr same, Finmap.lookup_insert_of_ne _ same]
      exact shows.bindings other
  distinct := by
    refine List.nodup_cons.mpr ⟨?_, shows.distinct⟩
    rwa [mem_names_iff, ← shows.mem_iff]
  namespaces := shows.namespaces

/-- An assignment leaves the names as they are. -/
theorem map_fst_replaceBinding
    (name : String)
    (value : Value)
    (bindings : List (String × Value)) :
    (replaceBinding name value bindings).map Prod.fst = bindings.map Prod.fst := by
  induction bindings with
  | nil => rfl
  | cons binding rest inductionHypothesis =>
      unfold replaceBinding
      split
      · rfl
      · rw [List.map_cons, List.map_cons, inductionHypothesis]

/-- To assign a name leaves the plain scope with the names that it has. -/
theorem Shows.assign
    (shows : frame.Shows plain)
    (present : name ∈ plain.bindings)
    (value : Value) :
    (frame.assign name value).Shows (plain.bind name value) where
  bindings other := by
    obtain ⟨held, bound⟩ := Option.isSome_iff_exists.mp ((shows.mem_iff name).mp present)
    rw [PlainScope.bind]
    by_cases same : other = name
    · subst same
      rw [find?_assign_same bound, Finmap.lookup_insert]
    · rw [find?_assign_other same, Finmap.lookup_insert_of_ne _ same]
      exact shows.bindings other
  distinct := by
    rw [Frame.assign, map_fst_replaceBinding]
    exact shows.distinct
  namespaces := shows.namespaces

/-- A namespace that is used already is not added again. -/
theorem Shows.use
    (shows : frame.Shows plain)
    (name : String) :
    (if frame.namespaces.contains name then
        frame
      else
        { frame with namespaces := frame.namespaces ++ [name] }).Shows (plain.use name) := by
  unfold PlainScope.use
  simp only [List.contains_iff_mem, shows.namespaces]
  split_ifs
  · exact shows
  · exact ⟨shows.bindings, shows.distinct, rfl⟩

/-- Both put the same names in order, none of them twice. -/
theorem Shows.names
    (shows : frame.Shows plain) :
    frame.names = plain.bindings.keys.sort := by
  have sameNames : plain.bindings.keys = frame.names.toFinset := by
    ext name
    rw [Finmap.mem_keys, shows.mem_iff, ← mem_names_iff, List.mem_toFinset, Frame.names,
      List.mem_mergeSort]
  have distinct : frame.names.Nodup := by
    rw [Frame.names]
    exact (List.mergeSort_perm _ _).nodup_iff.mpr shows.distinct
  rw [sameNames]
  refine ((List.toFinset_sort (· ≤ ·) distinct).mpr ?_).symm
  exact List.pairwise_mergeSort' (· ≤ ·) _

end Frame

namespace Store

/-- A fresh frame is as it was made. -/
theorem frameAt_newFrame
    (store : Store)
    (frame : Frame) :
    (store.newFrame frame).2.frameAt (store.newFrame frame).1 = frame := by
  simp [frameAt, newFrame]

/-- To make a frame leaves all others as they are. -/
theorem frameAt_newFrame_of_lt
    {store : Store}
    {address : Nat}
    (frame : Frame)
    (inside : address < store.frames.size) :
    (store.newFrame frame).2.frameAt address = store.frameAt address := by
  simp [frameAt, newFrame, Array.getElem?_push, Nat.ne_of_lt inside]

end Store

/-! All scopes that have been made. -/

/-- The frame of a scope holds what the plain scope does, inside the frames of the parent. -/
structure Scopes.Shows (scopes : Scopes) (scope : Scope) (plain : PlainScope) : Prop where
  allocated : scope.frame < scopes.store.frames.size
  frame : (scopes.store.frameAt scope.frame).Shows plain
  outer : scope.outer = (plain.parent.bind (scopes.made[·]?)).elim [] Scope.frames

/-- All scopes that have been made show those of a forest, each with a frame of its own. -/
structure Scopes.Represents (scopes : Scopes) (forest : Forest) : Prop where
  count : scopes.made.length = forest.scopes.length
  shows :
    ∀ {number : Nat} {scope : Scope} {plain : PlainScope},
      scopes.made[number]? = some scope →
      forest.scopes[number]? = some plain →
      scopes.Shows scope plain
  apart :
    ∀ {one other : Nat} {first second : Scope},
      scopes.made[one]? = some first →
      scopes.made[other]? = some second →
      first.frame = second.frame →
      one = other

namespace Scopes.Represents

variable
  {scopes : Scopes}
  {forest : Forest}
  {number : Nat}
  {scope : Scope}
  {plain : PlainScope}

/-- Every scope that was made has its plain scope. -/
theorem exists_plain
    (represents : scopes.Represents forest)
    (made : scopes.made[number]? = some scope) :
    ∃ plain, forest.scopes[number]? = some plain := by
  have below := (List.getElem?_eq_some_iff.mp made).1
  rw [represents.count] at below
  exact ⟨_, List.getElem?_eq_getElem below⟩

/-- Every plain scope stands for a scope that was made. -/
theorem exists_made
    (represents : scopes.Represents forest)
    (found : forest.scopes[number]? = some plain) :
    ∃ scope, scopes.made[number]? = some scope := by
  have below := (List.getElem?_eq_some_iff.mp found).1
  rw [← represents.count] at below
  exact ⟨_, List.getElem?_eq_getElem below⟩

/-- The first frame that binds a name is that of the nearest scope that does. -/
theorem holderIn_eq
    (represents : scopes.Represents forest)
    (made : scopes.made[number]? = some scope)
    (name : String) :
    scopes.store.holderIn name scope.frames =
      (forest.holder? name number).bind (scopes.made[·]?) := by
  induction number using Nat.strong_induction_on generalizing scope with
  | _ number inductionHypothesis =>
      obtain ⟨plain, found⟩ := represents.exists_plain made
      obtain ⟨_, shows, outer⟩ := represents.shows made found
      rw [Forest.holder?_eq found, Scope.frames, Store.holderIn]
      split
      case h_1 value bound =>
        have present : name ∈ plain.bindings := (shows.mem_iff name).mpr (by rw [bound]; rfl)
        rw [if_pos present, Option.bind_some, made]
      case h_2 unbound =>
        have absent : name ∉ plain.bindings := by
          rw [shows.mem_iff, unbound]
          exact Bool.false_ne_true
        rw [if_neg absent, outer]
        cases isParent : plain.parent with
        | none => rfl
        | some parent =>
            have older := forest.ordered found isParent
            have below := (List.getElem?_eq_some_iff.mp made).1
            have madeParent := List.getElem?_eq_getElem (Nat.lt_trans older below)
            rw [Option.bind_some, Option.bind_some, madeParent]
            exact inductionHypothesis parent older madeParent

/-- What a scope and its plain scope have in common is the same at every number. -/
theorem bind_eq
    {Seen : Type}
    {look : Scope → Option Seen}
    {lookPlain : PlainScope → Option Seen}
    (represents : scopes.Represents forest)
    (same : ∀ {scope plain}, scopes.Shows scope plain → look scope = lookPlain plain)
    (number : Nat) :
    scopes.made[number]?.bind look = forest.scopes[number]?.bind lookPlain := by
  cases found : forest.scopes[number]? with
  | none =>
      cases made : scopes.made[number]? with
      | none => rfl
      | some scope =>
          obtain ⟨plain, isFound⟩ := represents.exists_plain made
          cases found.symm.trans isFound
  | some plain =>
      obtain ⟨scope, made⟩ := represents.exists_made found
      rw [made]
      exact same (represents.shows made found)

/-- One looks at the same binding. -/
theorem bindingAt?_eq
    (represents : scopes.Represents forest)
    (number : Nat)
    (name : String) :
    scopes.bindingAt? number name = forest.bindingAt? number name :=
  represents.bind_eq (fun shows => shows.frame.bindings name) number

/-- One looks at the same namespaces. -/
theorem namespacesAt?_eq
    (represents : scopes.Represents forest)
    (number : Nat) :
    scopes.namespacesAt? number = forest.namespacesAt? number := by
  unfold Scopes.namespacesAt? Forest.namespacesAt?
  rw [Option.map_eq_bind, Option.map_eq_bind]
  exact represents.bind_eq (fun shows => congrArg some shows.frame.namespaces) number

/-- Names are resolved alike. -/
theorem lookup?_eq
    (represents : scopes.Represents forest)
    (made : scopes.made[number]? = some scope)
    (name : String) :
    scopes.store.lookup? scope name = forest.resolve? name number := by
  rw [Store.lookup?, Store.lookupIn_eq_bind_holderIn, represents.holderIn_eq made, Forest.resolve?]
  cases forest.holder? name number with
  | none => rfl
  | some holder => exact represents.bindingAt?_eq holder name

/-- The scope that is a root has no parent. -/
theorem isRoot_eq
    (represents : scopes.Represents forest)
    (made : scopes.made[number]? = some scope)
    (found : forest.scopes[number]? = some plain) :
    scope.isRoot = plain.parent.isNone := by
  rw [Scope.isRoot, (represents.shows made found).outer]
  cases isParent : plain.parent with
  | none => rfl
  | some parent =>
      have below := (List.getElem?_eq_some_iff.mp made).1
      have older := Nat.lt_trans (forest.ordered found isParent) below
      rw [Option.bind_some, List.getElem?_eq_getElem older]
      rfl

/-- The frame of one scope is changed as its plain scope is. -/
theorem change
    (represents : scopes.Represents forest)
    (made : scopes.made[number]? = some scope)
    {revise : PlainScope → PlainScope}
    (keeps : ∀ plain, (revise plain).parent = plain.parent)
    {reviseFrame : Frame → Frame}
    (shows :
      ∀ plain,
        forest.scopes[number]? = some plain →
        (reviseFrame (scopes.store.frameAt scope.frame)).Shows (revise plain)) :
    Scopes.Represents ⟨scopes.store.modifyFrame scope.frame reviseFrame, scopes.made⟩
      (forest.change number revise keeps) where
  count := by
    rw [Forest.change, List.length_modify]
    exact represents.count
  shows := by
    intro other held plain madeOther found
    rw [Forest.change, List.getElem?_modify, Option.map_eq_map, Option.map_eq_some_iff] at found
    obtain ⟨before, found, rfl⟩ := found
    obtain ⟨allocated, showed, outer⟩ := represents.shows madeOther found
    refine ⟨?_, ?_, ?_⟩
    · simpa only [Store.modifyFrame, Array.size_modify] using allocated
    · rw [Store.frameAt_modifyFrame _ _ allocated]
      by_cases same : number = other
      · subst same
        cases made.symm.trans madeOther
        rw [if_pos rfl, if_pos rfl]
        exact shows before found
      · have different : scope.frame ≠ held.frame := fun isSame =>
          same (represents.apart made madeOther isSame)
        rw [if_neg different, if_neg same]
        exact showed
    · have sameParent :
          (if number = other then revise before else before).parent = before.parent := by
        split
        · exact keeps before
        · rfl
      rw [sameParent]
      exact outer
  apart := represents.apart

/-- A scope that is made keeps the parents of the scopes before it. -/
theorem parent_append
    {made : List Scope}
    (new : Scope)
    (older : ∀ parent, plain.parent = some parent → parent < made.length) :
    (plain.parent.bind fun parent => (made ++ [new])[parent]?) =
      plain.parent.bind fun parent => made[parent]? := by
  cases isParent : plain.parent with
  | none => rfl
  | some parent => exact List.getElem?_append_left (older parent isParent)

/-- A new frame shows a new plain scope. -/
theorem add
    (represents : scopes.Represents forest)
    {frame : Frame}
    (shows : frame.Shows plain)
    (older : ∀ parent, plain.parent = some parent → parent < forest.scopes.length)
    {outer : List Nat}
    (isOuter : outer = (plain.parent.bind (scopes.made[·]?)).elim [] Scope.frames) :
    Scopes.Represents
      ⟨(scopes.store.newFrame frame).2,
        scopes.made ++ [⟨(scopes.store.newFrame frame).1, outer⟩]⟩
      (forest.add plain older) where
  count := by
    rw [Forest.add, List.length_append, List.length_append, represents.count]
    rfl
  shows := by
    intro number scope other made found
    have sameLength := represents.count
    rcases getElem?_concat made with before | ⟨isNew, rfl⟩
    · rcases getElem?_concat found with foundBefore | ⟨isNew, -⟩
      · obtain ⟨allocated, showed, outerBefore⟩ := represents.shows before foundBefore
        refine ⟨?_, ?_, ?_⟩
        · exact Nat.lt_trans allocated (by simp [Store.newFrame])
        · rwa [Store.frameAt_newFrame_of_lt frame allocated]
        · rw [parent_append]
          · exact outerBefore
          · intro parent isParent
            have below := (List.getElem?_eq_some_iff.mp before).1
            exact Nat.lt_trans (forest.ordered foundBefore isParent) below
      · have below := (List.getElem?_eq_some_iff.mp before).1
        omega
    · rcases getElem?_concat found with foundBefore | ⟨-, rfl⟩
      · have below := (List.getElem?_eq_some_iff.mp foundBefore).1
        omega
      · refine ⟨?_, ?_, ?_⟩
        · simp [Store.newFrame]
        · rwa [Store.frameAt_newFrame]
        · rw [parent_append]
          · exact isOuter
          · rwa [sameLength]
  apart := by
    intro one other first second madeOne madeOther same
    have fresh
        {number : Nat}
        {scope : Scope}
        (before : scopes.made[number]? = some scope) :
        scope.frame ≠ scopes.store.frames.size := by
      obtain ⟨plain, found⟩ := represents.exists_plain before
      exact Nat.ne_of_lt (represents.shows before found).allocated
    rcases getElem?_concat madeOne with beforeOne | ⟨isNewOne, rfl⟩
    · rcases getElem?_concat madeOther with beforeOther | ⟨isNewOther, rfl⟩
      · exact represents.apart beforeOne beforeOther same
      · exact (fresh beforeOne same).elim
    · rcases getElem?_concat madeOther with beforeOther | ⟨isNewOther, rfl⟩
      · exact (fresh beforeOther same.symm).elim
      · exact isNewOne.trans isNewOther.symm

end Scopes.Represents

/-! Operations. -/

/-- Two results have the same answer, and the scopes after it represent the forest. -/
structure Agree (result : ScopeAnswer × Scopes) (expected : ScopeAnswer × Forest) : Prop where
  answer : result.1 = expected.1
  represents : result.2.Represents expected.2

namespace Scopes.Represents

variable
  {scopes : Scopes}
  {forest : Forest}

/-- What is done to a scope agrees if it does for every scope and its plain one. -/
theorem agree_on
    (represents : scopes.Represents forest)
    {number : Nat}
    {act : Scope → ScopeAnswer × Scopes}
    {expected : PlainScope → ScopeAnswer × Forest}
    (agree :
      ∀ {scope plain},
        scopes.made[number]? = some scope →
        forest.scopes[number]? = some plain →
        Agree (act scope) (expected plain)) :
    Agree (scopes.on number act) (forest.on number expected) := by
  unfold Scopes.on Forest.on
  cases made : scopes.made[number]? with
  | some scope =>
      obtain ⟨plain, found⟩ := represents.exists_plain made
      rw [found]
      exact agree made found
  | none =>
      cases found : forest.scopes[number]? with
      | none => exact ⟨rfl, represents⟩
      | some plain =>
          obtain ⟨scope, isMade⟩ := represents.exists_made found
          cases made.symm.trans isMade

/-- A fresh root agrees. -/
theorem agree_newRoot
    (represents : scopes.Represents forest) :
    Agree (scopes.perform .newRoot) (forest.perform .newRoot) := by
  have shows : Frame.Shows ⟨[], []⟩ ⟨∅, none, [], List.nodup_nil⟩ := .fresh List.nodup_nil
  refine ⟨congrArg ScopeAnswer.made represents.count, represents.add shows ?_ rfl⟩
  rintro parent ⟨⟩

/-- A child agrees, or neither is made. -/
theorem agree_newChild
    (represents : scopes.Represents forest)
    (number : Nat) :
    Agree (scopes.perform (.newChild number)) (forest.perform (.newChild number)) := by
  simp only [Scopes.perform, Forest.perform, Scopes.on, Forest.addChild]
  split
  case h_1 scope made =>
    split
    case h_1 absent =>
      obtain ⟨plain, found⟩ := represents.exists_plain made
      cases absent.symm.trans found
    case h_2 plain found =>
      have shows :
          Frame.Shows ⟨[], (scopes.store.frameAt scope.frame).namespaces⟩
            ⟨∅, some number, plain.namespaces, plain.distinct⟩ := by
        rw [(represents.shows made found).frame.namespaces]
        exact .fresh plain.distinct
      have older : ∀ parent, some number = some parent → parent < forest.scopes.length := by
        rintro parent ⟨⟩
        exact (List.getElem?_eq_some_iff.mp found).1
      refine ⟨congrArg ScopeAnswer.made represents.count, represents.add shows older ?_⟩
      rw [Option.bind_some, made]
      rfl
  case h_2 absent =>
    split
    case h_1 => exact ⟨rfl, represents⟩
    case h_2 plain found =>
      obtain ⟨scope, made⟩ := represents.exists_made found
      cases absent.symm.trans made

/-- A definition agrees, or both are refused. -/
theorem agree_define
    (represents : scopes.Represents forest)
    (number : Nat)
    (name : String)
    (value : Value) :
    Agree (scopes.perform (.define number name value))
      (forest.perform (.define number name value)) := by
  refine represents.agree_on fun {scope plain} made found => ?_
  have shows := (represents.shows made found).frame
  unfold Scopes.act Store.define Forest.define
  by_cases present : name ∈ plain.bindings
  · obtain ⟨held, bound⟩ := Option.isSome_iff_exists.mp ((shows.mem_iff name).mp present)
    rw [bound, if_pos present]
    exact ⟨rfl, represents⟩
  · have unbound := present
    rw [shows.mem_iff, Bool.not_eq_true, Option.isSome_eq_false_iff, Option.isNone_iff_eq_none]
      at unbound
    rw [unbound, if_neg present]
    refine ⟨rfl, represents.change made (PlainScope.parent_bind name value) ?_⟩
    intro other foundOther
    cases found.symm.trans foundOther
    exact shows.bind present value

/-- An assignment agrees, or both are refused. -/
theorem agree_assign
    (represents : scopes.Represents forest)
    (number : Nat)
    (name : String)
    (value : Value) :
    Agree (scopes.perform (.assign number name value))
      (forest.perform (.assign number name value)) := by
  refine represents.agree_on fun {scope plain} made found => ?_
  have holds := represents.holderIn_eq made name
  unfold Scopes.act Store.assign Forest.assign
  rw [holds]
  cases held : forest.holder? name number with
  | none => exact ⟨rfl, represents⟩
  | some holder =>
      obtain ⟨above, foundAbove, present⟩ := Forest.exists_of_holder? held
      obtain ⟨nearest, madeNearest⟩ := represents.exists_made foundAbove
      have isRoot := represents.isRoot_eq madeNearest foundAbove
      have hasParent : forest.parent? holder = above.parent := by
        rw [Forest.parent?, foundAbove]
        rfl
      rw [Option.bind_some, madeNearest]
      dsimp only
      rw [hasParent]
      cases isParent : above.parent with
      | none =>
          rw [isRoot, isParent]
          exact ⟨rfl, represents⟩
      | some parent =>
          rw [isRoot, isParent]
          refine ⟨rfl, represents.change madeNearest (PlainScope.parent_bind name value) ?_⟩
          intro other foundOther
          cases foundAbove.symm.trans foundOther
          exact (represents.shows madeNearest foundAbove).frame.assign present value

/-- The use of a namespace agrees. -/
theorem agree_useNamespace
    (represents : scopes.Represents forest)
    (number : Nat)
    (name : String) :
    Agree (scopes.perform (.useNamespace number name))
      (forest.perform (.useNamespace number name)) := by
  refine represents.agree_on fun {scope plain} made found => ⟨rfl, ?_⟩
  refine represents.change made (PlainScope.parent_use name) fun other foundOther => ?_
  exact (represents.shows made foundOther).frame.use name

end Scopes.Represents

/-- One operation has the same answer, and representation is kept. -/
theorem perform_agree
    {scopes : Scopes}
    {forest : Forest}
    (represents : scopes.Represents forest)
    (operation : ScopeOperation) :
    Agree (scopes.perform operation) (forest.perform operation) := by
  cases operation with
  | newRoot => exact represents.agree_newRoot
  | newChild number => exact represents.agree_newChild number
  | define number name value => exact represents.agree_define number name value
  | assign number name value => exact represents.agree_assign number name value
  | useNamespace number name => exact represents.agree_useNamespace number name
  | resolve number name =>
      refine represents.agree_on fun made _ => ⟨?_, represents⟩
      exact congrArg ScopeAnswer.resolved (represents.lookup?_eq made name)
  | isBound number name =>
      refine represents.agree_on fun made _ => ⟨?_, represents⟩
      exact congrArg (ScopeAnswer.bound ·.isSome) (represents.lookup?_eq made name)
  | namespaces number =>
      refine represents.agree_on fun made found => ⟨?_, represents⟩
      exact congrArg ScopeAnswer.names (represents.shows made found).frame.namespaces
  | localNames number =>
      refine represents.agree_on fun made found => ⟨?_, represents⟩
      exact congrArg ScopeAnswer.names (represents.shows made found).frame.names

/-- So it is with all operations of a sequence. -/
theorem performAll_agree
    {scopes : Scopes}
    {forest : Forest}
    (represents : scopes.Represents forest)
    (operations : List ScopeOperation) :
    (performAll Scopes.perform operations scopes).1 =
        (performAll Forest.perform operations forest).1 ∧
      (performAll Scopes.perform operations scopes).2.Represents
        (performAll Forest.perform operations forest).2 := by
  induction operations generalizing scopes forest with
  | nil => exact ⟨rfl, represents⟩
  | cons operation rest inductionHypothesis =>
      obtain ⟨sameAnswer, stillRepresents⟩ := perform_agree represents operation
      obtain ⟨sameAnswers, representsLast⟩ := inductionHypothesis stillRepresents
      exact ⟨congrArg₂ List.cons sameAnswer sameAnswers, representsLast⟩

end SmallScheme
