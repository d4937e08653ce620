import SmallScheme.Proofs.Store.Growth
import SmallScheme.Store.Formals
import SmallScheme.Store.Scope

namespace SmallScheme

/-!
# The binding that a name means

Of the frames of a scope, the first one that binds a name holds what the name means.  An assignment
gives that one binding another value: it changes what is meant exactly where the name is held by the
same frame.  A procedure is entered with a frame of its own, which is the last one of the store;
what is bound there changes nothing else.
-/

namespace Frame

variable
  {frame : Frame}
  {name : String}

theorem find?_assign_same
    {present : Value}
    (bound : frame.find? name = some present)
    (value : Value) :
    (frame.assign name value).find? name = some value := by
  obtain ⟨bindings, namespaces⟩ := frame
  simp only [find?, assign] at bound ⊢
  induction bindings with
  | nil => cases bound
  | cons binding rest inductionHypothesis =>
      obtain ⟨other, held⟩ := binding
      unfold replaceBinding
      by_cases same : other = name
      · simp [same]
      · rw [if_neg same]
        rw [List.lookup_cons, beq_eq_false_iff_ne.mpr (Ne.symm same)] at bound ⊢
        exact inductionHypothesis bound

theorem find?_assign_other
    {other : String}
    (different : other ≠ name)
    (value : Value) :
    (frame.assign name value).find? other = frame.find? other := by
  obtain ⟨bindings, namespaces⟩ := frame
  simp only [find?, assign]
  induction bindings with
  | nil => rfl
  | cons binding rest inductionHypothesis =>
      obtain ⟨bound, held⟩ := binding
      unfold replaceBinding
      by_cases same : bound = name
      · simp [same, List.lookup_cons, beq_eq_false_iff_ne.mpr different]
      · rw [if_neg same, List.lookup_cons, List.lookup_cons, inductionHypothesis]

end Frame

namespace Store

/-- The frame that holds the binding which a name means in a scope. -/
def bindingFrame? (store : Store) (scope : Scope) (name : String) : Option Nat :=
  (store.holderIn name scope.frames).map Scope.frame

variable
  {store : Store}
  {name : String}
  {frames : List Nat}
  {holder scope : Scope}

theorem exists_of_holderIn_eq
    (found : store.holderIn name frames = some holder) :
    ∃ value, (store.frameAt holder.frame).find? name = some value := by
  induction frames with
  | nil => cases found
  | cons frame outer inductionHypothesis =>
      unfold holderIn at found
      split at found
      case h_1 value bound =>
        cases found
        exact ⟨value, bound⟩
      case h_2 => exact inductionHypothesis found

/-- A name means what the frame that holds it binds. -/
theorem lookupIn_eq_bind_holderIn
    (store : Store)
    (name : String)
    (frames : List Nat) :
    store.lookupIn name frames =
      (store.holderIn name frames).bind fun holder => (store.frameAt holder.frame).find? name := by
  induction frames with
  | nil => rfl
  | cons frame outer inductionHypothesis =>
      unfold lookupIn holderIn
      cases bound : (store.frameAt frame).find? name with
      | some value => exact bound.symm
      | none => exact inductionHypothesis

theorem frameAt_modifyFrame
    (address : Nat)
    (change : Frame → Frame)
    {frame : Nat}
    (inside : frame < store.frames.size) :
    (store.modifyFrame address change).frameAt frame =
      if address = frame then change (store.frameAt frame) else store.frameAt frame := by
  simp only [frameAt, modifyFrame, Array.getElem?_modify, Array.getElem?_eq_getElem inside]
  split <;> rfl

theorem frameAt_modifyFrame_other
    {address frame : Nat}
    (different : address ≠ frame)
    (change : Frame → Frame) :
    (store.modifyFrame address change).frameAt frame = store.frameAt frame := by
  simp only [frameAt, modifyFrame, Array.getElem?_modify, if_neg different]

/-- A frame that binds something is there. -/
theorem lt_size_of_find?
    {frame : Nat}
    {value : Value}
    (bound : (store.frameAt frame).find? name = some value) :
    frame < store.frames.size := by
  cases found : store.frames[frame]? with
  | some held => exact (Array.getElem?_eq_some_iff.mp found).1
  | none =>
      rw [frameAt, found] at bound
      cases bound

section Assignment

variable
  {address : Nat}
  {present : Value}
  (bound : (store.frameAt address).find? name = some present)
  (value : Value)

include bound

theorem find?_frameAt_assign_same :
    ((store.modifyFrame address fun frame => frame.assign name value).frameAt address).find? name =
      some value := by
  rw [frameAt_modifyFrame _ _ (lt_size_of_find? bound), if_pos rfl]
  exact Frame.find?_assign_same bound value

/-- The frames bind the same names after an assignment. -/
theorem isSome_find?_frameAt_assign
    (frame : Nat)
    (other : String) :
    (((store.modifyFrame address fun frame => frame.assign name value).frameAt frame).find?
        other).isSome =
      ((store.frameAt frame).find? other).isSome := by
  by_cases sameFrame : address = frame
  · subst sameFrame
    by_cases sameName : other = name
    · subst sameName
      rw [find?_frameAt_assign_same bound, bound]
      rfl
    · rw [frameAt_modifyFrame _ _ (lt_size_of_find? bound), if_pos rfl,
        Frame.find?_assign_other sameName]
  · rw [frameAt_modifyFrame_other sameFrame]

theorem holderIn_assign
    (other : String)
    (frames : List Nat) :
    (store.modifyFrame address fun frame => frame.assign name value).holderIn other frames =
      store.holderIn other frames := by
  induction frames with
  | nil => rfl
  | cons frame outer inductionHypothesis =>
      have same := isSome_find?_frameAt_assign bound value frame other
      unfold holderIn
      cases before : (store.frameAt frame).find? other with
      | some held =>
          rw [before, Option.isSome_some] at same
          obtain ⟨held', after⟩ := Option.isSome_iff_exists.mp same
          rw [after]
      | none =>
          rw [before, Option.isSome_none, Option.isSome_eq_false_iff, Option.isNone_iff_eq_none]
            at same
          rw [same]
          exact inductionHypothesis

/-- An assignment is seen from exactly the scopes in which its frame holds the name. -/
theorem lookup?_assign
    (scope : Scope) :
    (store.modifyFrame address fun frame => frame.assign name value).lookup? scope name =
      if store.bindingFrame? scope name = some address then some value
      else store.lookup? scope name := by
  unfold lookup? bindingFrame?
  rw [lookupIn_eq_bind_holderIn, lookupIn_eq_bind_holderIn, holderIn_assign bound]
  cases store.holderIn name scope.frames with
  | none => rfl
  | some holder =>
      simp only [Option.bind_some, Option.map_some, Option.some.injEq]
      split
      case isTrue same =>
        rw [same]
        exact find?_frameAt_assign_same bound value
      case isFalse different =>
        rw [frameAt_modifyFrame_other (Ne.symm different)]

end Assignment

end Store

/-! New frames. -/

namespace Store

/-- The store with one more frame. -/
def withFrame
    (store : Store)
    (frame : Frame) : Store :=
  { store with frames := store.frames.push frame }

theorem frameAt_withFrame
    (store : Store)
    (frame : Frame) :
    (store.withFrame frame).frameAt store.frames.size = frame := by
  simp [frameAt, withFrame]

theorem modifyFrame_withFrame
    (store : Store)
    (frame : Frame)
    (change : Frame → Frame) :
    (store.withFrame frame).modifyFrame store.frames.size change =
      store.withFrame (change frame) := by
  have modified :
      (store.frames.push frame).modify store.frames.size change =
        store.frames.push (change frame) := by
    apply Array.ext_getElem?
    intro address
    rw [Array.getElem?_modify, Array.getElem?_push, Array.getElem?_push]
    by_cases last : address = store.frames.size
    · simp [last]
    · simp [last, Ne.symm last]
  rw [modifyFrame, withFrame, modified]
  rfl

/-- A new name is bound in the last frame. -/
theorem define_withFrame
    (store : Store)
    {frame : Nat}
    (isLast : frame = store.frames.size)
    (outer : List Nat)
    (namespaces : List String)
    {present : List (String × Value)}
    {name : String}
    (isNew : present.lookup name = none)
    (value : Value) :
    Store.define ⟨frame, outer⟩ name value (store.withFrame ⟨present, namespaces⟩) =
      (.ok (), store.withFrame ⟨(name, value) :: present, namespaces⟩) := by
  subst isLast
  simp only [Store.define, frameAt_withFrame, Frame.find?, isNew, modifyFrame_withFrame]
  rfl

/-- New names are bound one before the other. -/
theorem defineAll_withFrame
    (store : Store)
    (outer : List Nat)
    (namespaces : List String)
    {added present : List (String × Value)}
    (distinct : (added.map Prod.fst).Nodup)
    (areNew : ∀ name ∈ added.map Prod.fst, present.lookup name = none) :
    defineAll ⟨store.frames.size, outer⟩ added (store.withFrame ⟨present, namespaces⟩) =
      (.ok (), store.withFrame ⟨added.reverse ++ present, namespaces⟩) := by
  induction added generalizing present with
  | nil => rfl
  | cons binding rest inductionHypothesis =>
      obtain ⟨name, value⟩ := binding
      simp only [List.map_cons, List.nodup_cons, List.mem_cons, forall_eq_or_imp] at distinct areNew
      have defined := store.define_withFrame rfl outer namespaces areNew.1 value
      have areNewRest :
          ∀ other ∈ rest.map Prod.fst, List.lookup other ((name, value) :: present) = none := by
        intro other member
        have different : other ≠ name := fun same => distinct.1 (same ▸ member)
        rw [List.lookup_cons, beq_false_of_ne different]
        exact areNew.2 other member
      rw [List.reverse_cons, List.append_assoc]
      refine StoreM.bind_eq_ok_iff.mpr ⟨(), _, defined, ?_⟩
      exact inductionHypothesis distinct.2 areNewRest

/-- Different names are bound to the operands in a new frame. -/
theorem defineAll_zip
    (store : Store)
    (scope : Scope)
    {names : List String}
    {operands : List Value}
    (distinct : names.Nodup)
    (enough : names.length ≤ operands.length) :
    defineAll ⟨store.frames.size, scope.frames⟩ (names.zip operands)
        (store.withFrame ⟨[], store.namespaces scope⟩) =
      (.ok (), store.withFrame ⟨(names.zip operands).reverse, store.namespaces scope⟩) := by
  have isNames : (names.zip operands).map Prod.fst = names := List.map_fst_zip enough
  rw [← List.append_nil (names.zip operands).reverse]
  exact store.defineAll_withFrame scope.frames (store.namespaces scope) (isNames.symm ▸ distinct)
    fun _ _ => rfl

/-- Making a list leaves the frames alone. -/
theorem newListFrom_withFrame
    (frame : Frame)
    (reversed : List Value)
    (tail : Value)
    (store : Store) :
    (store.withFrame frame).newListFrom reversed tail =
      ((store.newListFrom reversed tail).1,
        (store.newListFrom reversed tail).2.withFrame frame) := by
  induction reversed generalizing tail store with
  | nil => rfl
  | cons item reversed inductionHypothesis =>
      exact inductionHypothesis (store.newPair item tail).1 (store.newPair item tail).2

/-- A new name is bound to a list that is made for it. -/
theorem defineList_withFrame
    (store : Store)
    (outer : List Nat)
    (namespaces : List String)
    {present : List (String × Value)}
    {name : String}
    (isNew : present.lookup name = none)
    (items : List Value) :
    defineList ⟨store.frames.size, outer⟩ name items (store.withFrame ⟨present, namespaces⟩) =
      (.ok (),
        (store.newList items).2.withFrame
          ⟨(name, (store.newList items).1) :: present, namespaces⟩) := by
  have sameFrames := (newListWithTail_spells items .nil store).1.frames
  refine StoreM.bind_eq_ok_iff.mpr
    ⟨_, _, StoreM.change_eq_ok_iff.mpr (newListFrom_withFrame _ items.reverse .nil store), ?_⟩
  exact define_withFrame _ (congrArg Array.size sameFrames).symm outer namespaces isNew _

end Store

end SmallScheme
