import SmallScheme.Proofs.Store.Growth
import SmallScheme.Store.Load

namespace SmallScheme

/-!
# Forms of loaded data

Programs are built of pairs, names and constants, some of them with marks.  Once such a datum has
been put into a store, the value that stands for it shows the datum, and goes on showing it while
the store grows.
-/

namespace Datum

/-- The datum is built of pairs, names, integers and booleans. -/
def isCode : Datum → Bool
  | .nil => true
  | .integer _ => true
  | .boolean _ => true
  | .symbol _ => true
  | .pair head tail => head.isCode && tail.isCode
  | _ => false

/-- The datum is code, which may have marks. -/
def isMarkedCode : Datum → Bool
  | .nil => true
  | .integer _ => true
  | .boolean _ => true
  | .symbol _ => true
  | .pair head tail => head.isMarkedCode && tail.isMarkedCode
  | .marked _ inner => inner.isMarkedCode
  | _ => false

theorem isMarkedCode_of_isCode
    {datum : Datum}
    (isCode : datum.isCode) :
    datum.isMarkedCode := by
  fun_induction Datum.isCode datum with
  | case5 head tail headIsMarked tailIsMarked =>
      obtain ⟨headIsCode, tailIsCode⟩ := Bool.and_eq_true_iff.mp isCode
      exact Bool.and_eq_true_iff.mpr ⟨headIsMarked headIsCode, tailIsMarked tailIsCode⟩
  | case6 => cases isCode
  | _ => rfl

/-- The data are the same code, which may have marks. -/
def sameCode : Datum → Datum → Bool
  | .nil, .nil => true
  | .integer first, .integer second => first = second
  | .boolean first, .boolean second => first = second
  | .symbol first, .symbol second => first = second
  | .pair head tail, .pair otherHead otherTail =>
      head.sameCode otherHead && tail.sameCode otherTail
  | .marked mark datum, .marked otherMark other => mark = otherMark && datum.sameCode other
  | _, _ => false

theorem eq_of_sameCode
    {first second : Datum}
    (same : first.sameCode second) :
    first = second := by
  fun_induction sameCode first second <;> simp_all

/-- The forms are the same code, one by one. -/
def sameForms : List Datum → List Datum → Bool
  | [], [] => true
  | form :: rest, other :: others => form.sameCode other && sameForms rest others
  | _, _ => false

theorem eq_of_sameForms
    {forms others : List Datum}
    (same : sameForms forms others) :
    forms = others := by
  fun_induction sameForms forms others with
  | case1 => rfl
  | case2 form rest other others inductionHypothesis =>
      rw [Bool.and_eq_true] at same
      rw [eq_of_sameCode same.1, inductionHypothesis same.2]
  | case3 => cases same

end Datum

namespace Store

/-- In the store the value stands for the datum. -/
inductive Encodes (store : Store) : Datum → Value → Prop
  | nil : Encodes store .nil .nil
  | integer (value : Int64) : Encodes store (.integer value) (.integer value)
  | boolean (value : Bool) : Encodes store (.boolean value) (.boolean value)
  | symbol (name : String) : Encodes store (.symbol name) (.symbol name)
  | pair {address : Nat} {head tail : Value} {first rest : Datum} :
      store.pairs[address]? = some ⟨head, tail⟩ →
      Encodes store first head →
      Encodes store rest tail →
      Encodes store (.pair first rest) (.pair address)

variable
  {before after store : Store}
  {datum : Datum}
  {value : Value}

/-- What a value stands for is read off the pairs alone. -/
theorem Encodes.mono
    (encodes : before.Encodes datum value)
    (kept :
      ∀ {address : Nat} {pair : Pair},
        before.pairs[address]? = some pair → after.pairs[address]? = some pair) :
    after.Encodes datum value := by
  induction encodes with
  | nil => exact .nil
  | integer value => exact .integer value
  | boolean value => exact .boolean value
  | symbol name => exact .symbol name
  | pair found _ _ encodesHead encodesTail => exact .pair (kept found) encodesHead encodesTail

/-- A list of data is spelled by values that stand for its items. -/
theorem Encodes.spells
    {items : List Datum}
    (encodes : store.Encodes (.ofList items) value) :
    ∃ values, store.Spells value values .nil ∧ List.Forall₂ store.Encodes items values := by
  induction items generalizing value with
  | nil =>
      cases encodes
      exact ⟨[], .nothing, .nil⟩
  | cons item rest inductionHypothesis =>
      cases encodes with
      | pair found encodesHead encodesTail =>
          obtain ⟨values, spells, encodesRest⟩ := inductionHypothesis encodesTail
          exact ⟨_, .pair found spells, .cons encodesHead encodesRest⟩

/-! Code with marks. -/

/-- In the store the form stands for the datum, which may have marks. -/
inductive Writes (store : Store) : Datum → Value → Prop
  | code {datum : Datum} {form : Value} : Encodes store datum form → Writes store datum form
  | pair {address : Nat} {head tail : Value} {first rest : Datum} :
      store.pairs[address]? = some ⟨head, tail⟩ →
      Writes store first head →
      Writes store rest tail →
      Writes store (.pair first rest) (.pair address)
  | marked (mark : Mark) {address : Nat} {inner : Value} {datum : Datum} :
      store.marked[address]? = some inner →
      Writes store datum inner →
      Writes store (.marked mark datum) (.marked mark address)

/-- Code that is written in the first store is written in the second one as well. -/
structure KeepsCode (before after : Store) : Prop where
  pairs :
    ∀ {address : Nat} {pair : Pair},
      before.pairs[address]? = some pair → after.pairs[address]? = some pair
  marked :
    ∀ {address : Nat} {inner : Value},
      before.marked[address]? = some inner → after.marked[address]? = some inner

theorem KeepsCode.trans
    {between : Store}
    (first : before.KeepsCode between)
    (second : between.KeepsCode after) :
    before.KeepsCode after :=
  ⟨second.pairs ∘ first.pairs, second.marked ∘ first.marked⟩

theorem Grows.keepsCode
    (grows : before.Grows after) :
    before.KeepsCode after :=
  ⟨grows.pairs, grows.marked⟩

theorem Writes.kept
    (writes : before.Writes datum value)
    (keeps : before.KeepsCode after) :
    after.Writes datum value := by
  induction writes with
  | code encodes => exact .code (encodes.mono keeps.pairs)
  | pair found _ _ writesHead writesTail => exact .pair (keeps.pairs found) writesHead writesTail
  | marked mark found _ writesInner => exact .marked mark (keeps.marked found) writesInner

/-- What has no marks is encoded. -/
theorem Writes.encodes
    (writes : store.Writes datum value)
    (isCode : datum.isCode) :
    store.Encodes datum value := by
  induction writes with
  | code encodes => exact encodes
  | pair found _ _ encodesHead encodesTail =>
      obtain ⟨headIsCode, tailIsCode⟩ := Bool.and_eq_true_iff.mp isCode
      exact .pair found (encodesHead headIsCode) (encodesTail tailIsCode)
  | marked => cases isCode

theorem encodes_of_writes
    {data : List Datum}
    {values : List Value}
    (writes : List.Forall₂ store.Writes data values)
    (areCode : ∀ datum ∈ data, datum.isCode) :
    List.Forall₂ store.Encodes data values := by
  induction writes with
  | nil => exact .nil
  | cons writesDatum _ inductionHypothesis =>
      obtain ⟨isCode, areCode⟩ := List.forall_mem_cons.mp areCode
      exact .cons (writesDatum.encodes isCode) (inductionHypothesis areCode)

/-- Putting code into a store lets the store grow, and what results stands for the code. -/
theorem writes_load
    (before : Store)
    (isCode : datum.isMarkedCode) :
    before.Grows (before.load datum).2 ∧
      (before.load datum).2.Writes datum (before.load datum).1 := by
  fun_induction Datum.isMarkedCode datum generalizing before with
  | case1 => exact ⟨.refl before, .code .nil⟩
  | case2 value => exact ⟨.refl before, .code (.integer value)⟩
  | case3 value => exact ⟨.refl before, .code (.boolean value)⟩
  | case4 name => exact ⟨.refl before, .code (.symbol name)⟩
  | case5 head tail loadsHead loadsTail =>
      rw [Bool.and_eq_true] at isCode
      obtain ⟨growsHead, writesHead⟩ := loadsHead before isCode.1
      obtain ⟨growsTail, writesTail⟩ := loadsTail (before.load head).2 isCode.2
      rw [load]
      have growsPair :=
        grows_newPair (before.load head).1 ((before.load head).2.load tail).1
          ((before.load head).2.load tail).2
      refine ⟨growsHead.trans (growsTail.trans growsPair), ?_⟩
      exact .pair Array.getElem?_push_size
        (writesHead.kept (growsTail.trans growsPair).keepsCode)
        (writesTail.kept growsPair.keepsCode)
  | case6 mark inner loadsInner =>
      obtain ⟨growsInner, writesInner⟩ := loadsInner before isCode
      rw [load]
      have growsMarked := grows_newMarked mark (before.load inner).1 (before.load inner).2
      refine ⟨growsInner.trans growsMarked, ?_⟩
      exact .marked mark Array.getElem?_push_size (writesInner.kept growsMarked.keepsCode)
  | case7 => cases isCode

theorem writes_loadAll
    (before : Store)
    {data : List Datum}
    (areCode : ∀ datum ∈ data, datum.isMarkedCode) :
    before.Grows (before.loadAll data).2 ∧
      List.Forall₂ (before.loadAll data).2.Writes data (before.loadAll data).1 := by
  induction data generalizing before with
  | nil => exact ⟨.refl before, .nil⟩
  | cons datum rest inductionHypothesis =>
      obtain ⟨isCode, areCode⟩ := List.forall_mem_cons.mp areCode
      obtain ⟨grows, writes⟩ := writes_load before isCode
      obtain ⟨growsRest, writesRest⟩ := inductionHypothesis (before.load datum).2 areCode
      rw [loadAll]
      exact ⟨grows.trans growsRest, .cons (writes.kept growsRest.keepsCode) writesRest⟩

/-- A program of code is put into a store as its forms, one value for each. -/
theorem writes_load_program
    (before : Store)
    {forms : List Datum}
    (areCode : ∀ form ∈ forms, form.isMarkedCode) :
    ∃ address values,
      (before.load (.program forms)).1 = .program address ∧
        (before.load (.program forms)).2.programAt address = values ∧
          List.Forall₂ (before.load (.program forms)).2.Writes forms values ∧
            before.Grows (before.load (.program forms)).2 := by
  obtain ⟨grows, writes⟩ := writes_loadAll before areCode
  rw [load]
  have growsProgram :
      (before.loadAll forms).2.Grows
        ((before.loadAll forms).2.newProgram (before.loadAll forms).1).2 :=
    ⟨id, id, id, rfl, rfl, rfl⟩
  refine ⟨_, _, rfl, ?_, writes.imp fun _ _ each => each.kept growsProgram.keepsCode,
    grows.trans growsProgram⟩
  simp [programAt, newProgram]

end Store

end SmallScheme
