import SmallScheme.Proofs.Store.Loading
import SmallScheme.Proofs.TailPosition

namespace SmallScheme

/-!
# Code with marks

Code that is written in a store, marked forms included.  What is written stays so as long as the
pairs and the marked forms do.
-/

namespace Store

variable
  {before between after store : Store}
  {datum : Datum}
  {form value ending : Value}
  {items : List Value}

/-- A list is a pair, and spelled by forms that stand for its items. -/
theorem Writes.spells
    {data : List Datum}
    (writes : store.Writes (.ofList data) form) :
    ∃ forms, store.Spells form forms .nil ∧ List.Forall₂ store.Writes data forms := by
  induction data generalizing form with
  | nil =>
      cases writes with
      | code encodes =>
          cases encodes
          exact ⟨[], .nothing, .nil⟩
  | cons datum data inductionHypothesis =>
      cases writes with
      | code encodes =>
          obtain ⟨forms, spells, each⟩ := Encodes.spells encodes
          exact ⟨forms, spells, each.imp fun _ _ => .code⟩
      | pair found writesHead writesTail =>
          obtain ⟨forms, spells, each⟩ := inductionHypothesis writesTail
          exact ⟨_, .pair found spells, .cons writesHead each⟩

/-- The use of a name is spelled by the name and by forms that stand for the operands. -/
theorem Writes.use
    {name : String}
    {operands : List Datum}
    (writes : store.Writes (.ofList (.symbol name :: operands)) form) :
    ∃ forms,
      store.Spells form (.symbol name :: forms) .nil ∧
        List.Forall₂ store.Writes operands forms := by
  obtain ⟨_, spells, _ | ⟨writesName, writesOperands⟩⟩ := writes.spells
  cases writesName.encodes rfl
  exact ⟨_, spells, writesOperands⟩

/-- A list is no name. -/
theorem Spells.isNamed_eq_false
    {value head ending : Value}
    {items : List Value}
    (spells : store.Spells value (head :: items) ending)
    (name : String) :
    value.isNamed name = false := by
  cases spells
  rfl

/-- What pairs spell is still spelled when there are more. -/
theorem Spells.of_pairs
    (spells : before.Spells value items ending)
    (kept :
      ∀ {address : Nat} {pair : Pair},
        before.pairs[address]? = some pair → after.pairs[address]? = some pair) :
    after.Spells value items ending := by
  induction spells with
  | nothing => exact .nothing
  | pair found _ inductionHypothesis => exact .pair (kept found) inductionHypothesis

end Store

/-!
## Objects that are added

A procedure that is entered, a block and a list that is made add frames, procedures and pairs to the
store and change nothing that was there.  What has been added may be kept by those that come later.
-/

namespace Store

variable
  {before between after later store : Store}

/-- The second store has more pairs, frames and procedures, and nothing else is different. -/
structure Adds (before after : Store) : Prop where
  pairs :
    ∀ {address : Nat} {pair : Pair},
      before.pairs[address]? = some pair → after.pairs[address]? = some pair
  frames :
    ∀ {address : Nat} {frame : Frame},
      before.frames[address]? = some frame → after.frames[address]? = some frame
  procedures :
    ∀ {address : Nat} {procedure : Procedure},
      before.procedures[address]? = some procedure → after.procedures[address]? = some procedure
  others :
    { after with
        pairs := before.pairs, frames := before.frames, procedures := before.procedures } =
      before

namespace Adds

theorem refl
    (store : Store) :
    store.Adds store :=
  ⟨id, id, id, rfl⟩

theorem trans
    (first : before.Adds between)
    (second : between.Adds after) :
    before.Adds after where
  pairs := second.pairs ∘ first.pairs
  frames := second.frames ∘ first.frames
  procedures := second.procedures ∘ first.procedures
  others := by
    rw [← first.others, ← second.others]

theorem marked
    (adds : before.Adds after) :
    after.marked = before.marked := by
  have same := congrArg Store.marked adds.others
  exact same

theorem keepsCode
    (adds : before.Adds after) :
    before.KeepsCode after :=
  ⟨adds.pairs, fun found => adds.marked.symm ▸ found⟩

end Adds

theorem adds_withFrame
    (store : Store)
    (frame : Frame) :
    store.Adds (store.withFrame frame) :=
  ⟨id, getElem?_push_of_some, id, rfl⟩

theorem adds_newPair
    (head tail : Value)
    (store : Store) :
    store.Adds (store.newPair head tail).2 :=
  ⟨getElem?_push_of_some, id, id, rfl⟩

theorem adds_newProcedure
    (procedure : Procedure)
    (store : Store) :
    store.Adds (store.newProcedure procedure).2 :=
  ⟨id, id, getElem?_push_of_some, rfl⟩

theorem adds_newListFrom
    (reversed : List Value)
    (tail : Value)
    (store : Store) :
    store.Adds (store.newListFrom reversed tail).2 := by
  induction reversed generalizing tail store with
  | nil => exact .refl store
  | cons item reversed inductionHypothesis =>
      exact (adds_newPair item tail store).trans (inductionHypothesis _ _)

/-- What the second store has and the first one does not is in the third one as well. -/
structure KeepsAdded (before after later : Store) : Prop where
  pairs :
    ∀ {address : Nat} {pair : Pair},
      before.pairs.size ≤ address →
      after.pairs[address]? = some pair →
      later.pairs[address]? = some pair
  frames :
    ∀ {address : Nat} {frame : Frame},
      before.frames.size ≤ address →
      after.frames[address]? = some frame →
      later.frames[address]? = some frame
  procedures :
    ∀ {address : Nat} {procedure : Procedure},
      before.procedures.size ≤ address →
      after.procedures[address]? = some procedure →
      later.procedures[address]? = some procedure

/-- A table that has all the entries of another one is no smaller. -/
theorem size_le_of_getElem?
    {Object : Type}
    {objects others : Array Object}
    (kept :
      ∀ {address : Nat} {object : Object},
        objects[address]? = some object → others[address]? = some object) :
    objects.size ≤ others.size := by
  by_contra more
  have found := Array.getElem?_eq_getElem (Nat.lt_of_not_le more)
  exact Nat.lt_irrefl _ (Array.getElem?_eq_some_iff.mp (kept found)).1

namespace KeepsAdded

theorem of_adds
    (adds : after.Adds later) :
    before.KeepsAdded after later :=
  ⟨fun _ => adds.pairs, fun _ => adds.frames, fun _ => adds.procedures⟩

theorem adds
    (keeps : before.KeepsAdded after store)
    (adds : store.Adds later) :
    before.KeepsAdded after later :=
  ⟨fun le found => adds.pairs (keeps.pairs le found),
    fun le found => adds.frames (keeps.frames le found),
    fun le found => adds.procedures (keeps.procedures le found)⟩

/-- What was added first is kept if all that was added is. -/
theorem first
    (keeps : before.KeepsAdded after later)
    (adds : between.Adds after) :
    before.KeepsAdded between later :=
  ⟨fun le found => keeps.pairs le (adds.pairs found),
    fun le found => keeps.frames le (adds.frames found),
    fun le found => keeps.procedures le (adds.procedures found)⟩

/-- What was added last is kept if all that was added is. -/
theorem last
    (keeps : before.KeepsAdded after later)
    (adds : before.Adds between) :
    between.KeepsAdded after later :=
  ⟨fun le => keeps.pairs ((size_le_of_getElem? adds.pairs).trans le),
    fun le => keeps.frames ((size_le_of_getElem? adds.frames).trans le),
    fun le => keeps.procedures ((size_le_of_getElem? adds.procedures).trans le)⟩

end KeepsAdded

end Store

end SmallScheme
