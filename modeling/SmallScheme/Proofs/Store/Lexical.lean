import SmallScheme.Store.Formals
import SmallScheme.Store.Load
import SmallScheme.Transformer.Basic

namespace SmallScheme

/-!
# What keeps the lexical part of the store

The frames and the procedures make up the lexical part of the store.  All the other objects are
made and changed without touching it.  `StoreM.Keeps` says that an operation keeps a property of the
store, whether it succeeds or fails; every operation below keeps all properties that look at
nothing but the lexical part.
-/

/-- The property looks at nothing but the frames and the procedures. -/
class Store.Lexical (sound : Store → Prop) : Prop where
  overlooks :
    ∀ {before after : Store},
      sound before →
      after.frames = before.frames →
      after.procedures = before.procedures →
      sound after

/-- The property survives the objects that primitives add. -/
class Store.SurvivesAdding (sound : Store → Prop) : Prop where
  newText :
    ∀ (text : String) {store : Store}, sound store → sound (store.newText text).2
  newPair :
    ∀ (head tail : Value) {store : Store}, sound store → sound (store.newPair head tail).2
  newVector :
    ∀ (items : Array Value) {store : Store}, sound store → sound (store.newVector items).2
  newBytevector :
    ∀ (bytes : Array UInt8) {store : Store}, sound store → sound (store.newBytevector bytes).2
  newCondition :
    ∀ (condition : Condition) {store : Store},
      sound store → sound (store.newCondition condition).2

instance Store.Lexical.survivesAdding
    {sound : Store → Prop}
    [Store.Lexical sound] :
    Store.SurvivesAdding sound where
  newText _ _ holds := overlooks holds rfl rfl
  newPair _ _ _ holds := overlooks holds rfl rfl
  newVector _ _ holds := overlooks holds rfl rfl
  newBytevector _ _ holds := overlooks holds rfl rfl
  newCondition _ _ holds := overlooks holds rfl rfl

/-- The operation keeps the property, whether it succeeds or fails. -/
def StoreM.Keeps {Answer : Type} (sound : Store → Prop) (action : StoreM Answer) : Prop :=
  ∀ store, sound store → sound (action store).2

variable
  {First Second Answer : Type}
  {sound : Store → Prop}

namespace StoreM.Keeps

/-- An answer changes nothing. -/
theorem pure
    (answer : Answer) :
    Keeps sound (Pure.pure answer : StoreM Answer) :=
  fun _ holds => holds

/-- A fault changes nothing. -/
theorem throw
    (fault : Fault) :
    Keeps sound (MonadExcept.throw fault : StoreM Answer) :=
  fun _ holds => holds

/-- What only reads the store keeps everything. -/
theorem read
    (look : Store → Except Fault Answer) :
    Keeps sound (fun store => (look store, store) : StoreM Answer) :=
  fun _ holds => holds

theorem view
    (look : Store → Answer) :
    Keeps sound (StoreM.view look) :=
  fun _ holds => holds

theorem fail
    (fault : Store → Fault) :
    Keeps sound (StoreM.fail fault : StoreM Answer) :=
  fun _ holds => holds

/-- A change keeps the property if it does so in every store. -/
theorem change
    {action : Store → Answer × Store}
    (keeps : ∀ store, sound store → sound (action store).2) :
    Keeps sound (StoreM.change action) :=
  keeps

/-- Actions that follow one another keep what each of them keeps. -/
theorem bind
    {first : StoreM First}
    {rest : First → StoreM Second}
    (keepsFirst : Keeps sound first)
    (keepsRest : ∀ answer, Keeps sound (rest answer)) :
    Keeps sound (first >>= rest) := by
  intro store holds
  have holdsFirst := keepsFirst store holds
  change sound (ExceptT.bindCont rest (first store).1 (first store).2).2
  cases (first store).1 with
  | ok answer =>
      exact keepsRest answer _ holdsFirst
  | error fault =>
      exact holdsFirst

/-- An action for each item keeps what the action keeps. -/
theorem mapM
    {action : First → StoreM Second}
    (keeps : ∀ item, Keeps sound (action item))
    (items : List First) :
    Keeps sound (items.mapM action) := by
  induction items with
  | nil =>
      exact pure []
  | cons item rest inductionHypothesis =>
      rw [List.mapM_cons]
      exact bind (keeps item) fun _ => bind inductionHypothesis fun _ => pure _

/-- A loop keeps what every turn of it keeps. -/
theorem foldlM
    {action : First → Second → StoreM First}
    (keeps : ∀ sofar item, Keeps sound (action sofar item))
    (items : List Second)
    (start : First) :
    Keeps sound (items.foldlM action start) := by
  induction items generalizing start with
  | nil =>
      exact pure start
  | cons item rest inductionHypothesis =>
      rw [List.foldlM_cons]
      exact bind (keeps start item) inductionHypothesis

end StoreM.Keeps

/-! Fresh objects, and what is made of them. -/

/-- To read a list changes nothing. -/
theorem Store.keeps_listItems
    (value : Value) :
    StoreM.Keeps sound (Store.listItems value) := by
  refine .bind (.view _) fun items => ?_
  split
  · exact .pure _
  · exact .fail _

section Lists

namespace Store

/-- A change outside the lexical part keeps the property. -/
theorem keeps_outside
    [Store.Lexical sound]
    {action : Store → Answer × Store}
    (frames : ∀ store, (action store).2.frames = store.frames)
    (procedures : ∀ store, (action store).2.procedures = store.procedures) :
    StoreM.Keeps sound (StoreM.change action) :=
  .change fun store holds => Lexical.overlooks holds (frames store) (procedures store)

variable [Store.SurvivesAdding sound]

/-- A list is made of fresh pairs. -/
theorem keeps_newListFrom
    (reversed : List Value)
    (tail : Value) :
    StoreM.Keeps sound (StoreM.change (newListFrom reversed tail)) := by
  intro store holds
  induction reversed generalizing tail store with
  | nil =>
      exact holds
  | cons item rest inductionHypothesis =>
      exact inductionHypothesis _ _ (SurvivesAdding.newPair item tail holds)

theorem keeps_newListWithTail
    (items : List Value)
    (tail : Value) :
    StoreM.Keeps sound (StoreM.change (newListWithTail items tail)) :=
  keeps_newListFrom _ _

theorem keeps_newList
    (items : List Value) :
    StoreM.Keeps sound (StoreM.change (newList items)) :=
  keeps_newListWithTail _ _

end Store

end Lists

/-! Quotation makes fresh lists and vectors; the recursion is that of the form. -/

namespace Form

mutual

/-- A form is quoted by making pairs and vectors. -/
private theorem sound_quoted
    [Store.Lexical sound]
    (form : Form)
    (store : Store)
    (holds : sound store) :
    sound (form.quoted store).2 := by
  match form with
  | .atom value =>
      exact holds
  | .identifier name value =>
      exact holds
  | .list items tail value =>
      unfold Form.quoted
      split
      · exact holds
      · exact Store.keeps_newListWithTail _ _ _
          (sound_quoted tail _ (sound_allQuoted items store holds))
  | .vector items value =>
      unfold Form.quoted
      split
      · exact holds
      · exact Store.Lexical.overlooks (sound_allQuoted items store holds) rfl rfl
  | .marked mark inner value =>
      exact Store.keeps_newList [_, _] _ (sound_quoted inner store holds)

private theorem sound_allQuoted
    [Store.Lexical sound]
    (forms : List Form)
    (store : Store)
    (holds : sound store) :
    sound (Form.allQuoted forms store).2 := by
  match forms with
  | [] =>
      exact holds
  | form :: rest =>
      exact sound_allQuoted rest _ (sound_quoted form store holds)

end

end Form

/-! Data are put into the store by recursion on the datum. -/

namespace Store

mutual

/-- To load a datum adds objects and changes none. -/
private theorem sound_load
    [Lexical sound]
    (datum : Datum)
    (store : Store)
    (holds : sound store) :
    sound (store.load datum).2 := by
  match datum with
  | .pair head tail =>
      have both := sound_load tail _ (sound_load head store holds)
      exact Lexical.overlooks both rfl rfl
  | .vector items =>
      exact Lexical.overlooks (sound_loadAll items store holds) rfl rfl
  | .marked mark inner =>
      exact Lexical.overlooks (sound_load inner store holds) rfl rfl
  | .program forms =>
      exact Lexical.overlooks (sound_loadAll forms store holds) rfl rfl
  | .circular items =>
      exact keeps_newList _ _ (sound_loadAll items store holds)
  | .text value =>
      exact Lexical.overlooks holds rfl rfl
  | .bytevector bytes =>
      exact Lexical.overlooks holds rfl rfl
  | .nil => exact holds
  | .unspecified => exact holds
  | .integer value => exact holds
  | .real value => exact holds
  | .boolean value => exact holds
  | .character value => exact holds
  | .symbol name => exact holds
  | .regex pattern => exact holds
  | .handle kind shown => exact holds

private theorem sound_loadAll
    [Lexical sound]
    (data : List Datum)
    (store : Store)
    (holds : sound store) :
    sound (loadAll data store).2 := by
  match data with
  | [] =>
      exact holds
  | datum :: rest =>
      exact sound_loadAll rest _ (sound_load datum store holds)

end

end Store

/-! A match captures forms and rests of lists; the rests become fresh lists. -/

namespace Capture

mutual

/-- What is captured is settled by making the remainders of lists. -/
private theorem sound_settle
    [Store.Lexical sound]
    (capture : Capture)
    (store : Store)
    (holds : sound store) :
    sound (capture.settle store).2 := by
  match capture with
  | .one value =>
      exact holds
  | .rest items tail =>
      exact Store.keeps_newListWithTail items tail store holds
  | .many each =>
      exact sound_settleAll each store holds

private theorem sound_settleAll
    [Store.Lexical sound]
    (captures : List Capture)
    (store : Store)
    (holds : sound store) :
    sound (settleAll captures store).2 := by
  match captures with
  | [] =>
      exact holds
  | capture :: others =>
      exact sound_settleAll others _ (sound_settle capture store holds)

end

end Capture

section Captures

variable [Store.Lexical sound]

namespace Store

/-- A value is quoted by making a copy of it. -/
theorem keeps_quoteValue
    (value : Value) :
    StoreM.Keeps sound (StoreM.change (quoteValue value)) :=
  .change fun store holds => Form.sound_quoted (store.form value) store holds

theorem keeps_load
    (datum : Datum) :
    StoreM.Keeps sound (StoreM.change fun store => store.load datum) :=
  fun store holds => sound_load datum store holds

/-- A mark is spelled out by making a list. -/
theorem keeps_wrap
    (mark : Mark)
    (datum : Value) :
    StoreM.Keeps sound (StoreM.change (mark.wrap datum)) :=
  keeps_newList _

end Store

namespace Captures

/-- All captures are settled alike. -/
theorem keeps_settle
    (captures : Captures) :
    StoreM.Keeps sound (StoreM.change captures.settle) := by
  intro store holds
  induction captures generalizing store with
  | nil =>
      exact holds
  | cons named rest inductionHypothesis =>
      exact inductionHypothesis _ (Capture.sound_settle named.2 store holds)

omit [Store.Lexical sound] in
/-- Whether captures are a group is only looked at. -/
private theorem keeps_groupItems
    (each : List Capture) :
    StoreM.Keeps sound (groupItems each) := by
  induction each with
  | nil =>
      exact .pure _
  | cons capture rest inductionHypothesis =>
      cases capture with
      | one value =>
          exact .bind inductionHypothesis fun _ => .pure _
      | rest items tail =>
          exact .throw _
      | many each =>
          exact .throw _

omit [Store.Lexical sound] in
private theorem keeps_group
    (captures : Captures) :
    StoreM.Keeps sound captures.group := by
  unfold group
  split
  · exact keeps_groupItems _
  · exact .throw _

end Captures

end Captures

/-! Templates are filled by recursion on the template. -/

namespace Form

/-- A repeated item is filled once for every capture. -/
private theorem keeps_fillRepeated
    {fill : Captures → StoreM Value}
    (keeps : ∀ captures, StoreM.Keeps sound (fill captures))
    (item : Form)
    (literals : List String)
    (captures : Captures) :
    StoreM.Keeps sound (fillRepeated fill item literals captures) := by
  unfold fillRepeated
  split
  · exact .bind (keeps _) fun _ => .bind (Captures.keeps_group _) fun _ => .pure _
  · split
    · exact .mapM (fun _ => keeps _) _
    · exact .fail _

mutual

/-- Filling a template makes the parts of its copy. -/
private theorem keeps_fill
    [Store.Lexical sound]
    (setting : TemplateSetting)
    (template : Form)
    (captures : Captures) :
    StoreM.Keeps sound (template.fill setting captures) := by
  match template with
  | .atom value =>
      exact .pure _
  | .identifier name value =>
      unfold fill
      split
      · exact .pure _
      · exact .throw _
      · exact .view _
  | .list items tail value =>
      refine .bind (keeps_fillItems setting items captures) fun items => ?_
      exact .bind (keeps_fill setting tail captures) fun _ => Store.keeps_newListWithTail _ _
  | .vector items value =>
      refine .bind (keeps_fillItems setting items captures) fun items => ?_
      exact Store.keeps_outside (fun _ => rfl) fun _ => rfl
  | .marked mark inner value =>
      refine .bind (keeps_fill setting inner captures) fun inner => ?_
      exact Store.keeps_outside (fun _ => rfl) fun _ => rfl

private theorem keeps_fillItems
    [Store.Lexical sound]
    (setting : TemplateSetting)
    (items : List Form)
    (captures : Captures) :
    StoreM.Keeps sound (fillItems setting items captures) := by
  match items with
  | [] =>
      exact .pure _
  | [item] =>
      unfold fillItems
      split
      · exact Captures.keeps_group _
      · exact .bind (keeps_fill setting item captures) fun _ => .pure _
  | item :: next :: rest =>
      have keepsItem : ∀ captures, StoreM.Keeps sound (item.fill setting captures) :=
        keeps_fill setting item
      have keepsNext : StoreM.Keeps sound (fillItems setting (next :: rest) captures) :=
        keeps_fillItems setting (next :: rest) captures
      have keepsRest : StoreM.Keeps sound (fillItems setting rest captures) :=
        keeps_fillItems setting rest captures
      unfold fillItems
      split
      · exact .bind (Captures.keeps_group _) fun _ => .bind keepsNext fun _ => .pure _
      · split
        · exact .bind (keeps_fillRepeated keepsItem _ _ _) fun _ => .bind keepsRest fun _ => .pure _
        · exact .bind (keepsItem _) fun _ => .bind keepsNext fun _ => .pure _

end

end Form

/-! Transformers are fresh objects, and so is what they rewrite a use to. -/

variable [Store.Lexical sound]

namespace Transformer

omit [Store.Lexical sound] in
/-- The literals of a transformer are read and nothing is made. -/
private theorem keeps_literalNames
    (literals : List Value) :
    StoreM.Keeps sound (literalNames literals) := by
  induction literals with
  | nil =>
      exact .pure _
  | cons literal rest inductionHypothesis =>
      unfold literalNames
      split
      · exact .fail _
      · exact .bind inductionHypothesis fun _ => .pure _

omit [Store.Lexical sound] in
/-- A rule is read, and its parts stay where they are. -/
private theorem keeps_ruleOf
    (form : Value) :
    StoreM.Keeps sound (ruleOf form) := by
  refine .bind (Store.keeps_listItems _) fun parts => ?_
  split
  · refine .bind (.view _) fun pattern => ?_
    split
    · exact .pure _
    · exact .fail _
  · exact .fail _

/-- A transformer is added and nothing else is changed. -/
theorem keeps_ofOperands
    (name : String)
    (home : Scope)
    (operands : List Value) :
    StoreM.Keeps sound (ofOperands name home operands) := by
  unfold ofOperands
  split
  · exact .throw _
  · refine .bind (Store.keeps_listItems _) fun literals => ?_
    refine .bind (keeps_literalNames _) fun _ => .bind (.mapM keeps_ruleOf _) fun _ => ?_
    exact Store.keeps_outside (fun _ => rfl) fun _ => rfl

/-- The template of the rule that matched is filled. -/
private theorem keeps_fillRule
    (transformer : Transformer)
    (isHeld : Bool)
    (rule : Rule)
    (captures : Captures) :
    StoreM.Keeps sound (fillRule transformer isHeld rule captures) :=
  .bind (Captures.keeps_settle _) fun _ => .bind (.view _) fun _ => Form.keeps_fill _ _ _

/-- The rules are tried in order; the first that matches is filled. -/
private theorem keeps_expandBy
    (transformer : Transformer)
    (isHeld : Bool)
    (operands : Value)
    (rules : List Rule) :
    StoreM.Keeps sound (expandBy transformer isHeld operands rules) := by
  induction rules with
  | nil =>
      exact .fail _
  | cons rule rest inductionHypothesis =>
      refine .bind (.view _) fun captures => ?_
      split
      · exact keeps_fillRule _ _ _ _
      · exact inductionHypothesis

end Transformer

/-- To expand a use adds objects at most. -/
theorem Store.keeps_expandUse
    (isHeld : Bool)
    (address : Nat)
    (operands : Value) :
    StoreM.Keeps sound (expandUse isHeld address operands) :=
  .bind (.view _) fun _ => Transformer.keeps_expandBy _ _ _ _

end SmallScheme
