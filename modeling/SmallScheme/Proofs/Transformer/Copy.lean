import SmallScheme.Proofs.Store.Growth
import SmallScheme.Transformer.Template

namespace SmallScheme

/-!
# Copies of templates

What it is for a value to be the copy of a template, apart from how the copy is made: lists, vectors
and marked forms are copied part by part, an item before an ellipsis once for each repetition, and
a rule says what the leaves may be copied to.  Filling a template makes such a copy.
-/

/-- What the leaves of a template may be copied to. -/
structure CopyRule where
  atom : Value → Value → Prop
  /-- An identifier that stands for something. -/
  captured : Capture → Value → Prop
  /-- Any other identifier, by its name and the value it is in the template. -/
  free : String → Value → Value → Prop

/-- The first rule allows no more than the second one. -/
structure CopyRule.Implies (first second : CopyRule) : Prop where
  atom : ∀ {value copy : Value}, first.atom value copy → second.atom value copy
  captured : ∀ {capture : Capture} {copy : Value},
    first.captured capture copy → second.captured capture copy
  free : ∀ {name : String} {value copy : Value},
    first.free name value copy → second.free name value copy

theorem CopyRule.Implies.refl
    (rule : CopyRule) :
    rule.Implies rule :=
  ⟨id, id, id⟩

namespace Captures

/-- The copies of what a lone ellipsis stands for. -/
def IsGroup
    (rule : CopyRule)
    (captures : Captures)
    (copies : List Value) : Prop :=
  ∃ each : List Capture,
    captures.lookup Capture.ellipsis = some (.many each) ∧ List.Forall₂ rule.captured each copies

end Captures

namespace Form

/-- The copies of an item that is followed by an ellipsis. -/
def IsRepeated
    (rule : CopyRule)
    (literals : List String)
    (isCopied : Captures → Value → Prop)
    (item : Form)
    (captures : Captures)
    (copies : List Value) : Prop :=
  match captures.repeatedVariables (item.variables literals []) with
  | [] =>
      ∃ first group,
        copies = first :: group ∧ isCopied captures first ∧ captures.IsGroup rule group
  | (name, each) :: others =>
      (∀ repeated ∈ others, repeated.2.size = each.size) ∧
        List.Forall₂
          (fun index copy => isCopied (captures.atRepetition ((name, each) :: others) index) copy)
          (List.range each.size) copies

mutual

/-- The value is a copy of the form in the store. -/
def IsCopied
    (rule : CopyRule)
    (literals : List String)
    (store : Store) : Form → Captures → Value → Prop
  | .atom value, _, copy => rule.atom value copy
  | .identifier name value, captures, copy =>
      match captures.lookup name with
      | some capture => rule.captured capture copy
      | none => rule.free name value copy
  | .list items tail _, captures, copy =>
      ∃ copies ending,
        AreCopied rule literals store items captures copies ∧
          IsCopied rule literals store tail captures ending ∧ store.Spells copy copies ending
  | .vector items _, captures, copy =>
      ∃ address copies,
        copy = .vector address ∧ store.vectors[address]? = some (List.toArray copies) ∧
          AreCopied rule literals store items captures copies
  | .marked mark inner _, captures, copy =>
      ∃ address innerCopy,
        copy = .marked mark address ∧ store.marked[address]? = some innerCopy ∧
          IsCopied rule literals store inner captures innerCopy

/-- The values are the copies of the items of a list or vector. -/
def AreCopied
    (rule : CopyRule)
    (literals : List String)
    (store : Store) : List Form → Captures → List Value → Prop
  | [], _, copies => copies = []
  | [item], captures, copies =>
      if item.isNamed Capture.ellipsis then
        captures.IsGroup rule copies
      else
        ∃ copy, copies = [copy] ∧ IsCopied rule literals store item captures copy
  | item :: next :: rest, captures, copies =>
      if item.isNamed Capture.ellipsis then
        ∃ group others,
          copies = group ++ others ∧ captures.IsGroup rule group ∧
            AreCopied rule literals store (next :: rest) captures others
      else if next.isNamed Capture.ellipsis then
        ∃ repeated others,
          copies = repeated ++ others ∧
            IsRepeated rule literals
              (fun captures copy => IsCopied rule literals store item captures copy) item captures
              repeated ∧
            AreCopied rule literals store rest captures others
      else
        ∃ copy others,
          copies = copy :: others ∧ IsCopied rule literals store item captures copy ∧
            AreCopied rule literals store (next :: rest) captures others

end

/-! A copy stays one under a looser rule and in a store that has grown. -/

section Loosening

variable
  {first second : CopyRule}
  {literals : List String}
  {before after : Store}

theorem IsRepeated.imp
    {isCopied isCopied' : Captures → Value → Prop}
    (implies : first.Implies second)
    (each :
      ∀ {captures : Captures} {copy : Value}, isCopied captures copy → isCopied' captures copy)
    {item : Form}
    {captures : Captures}
    {copies : List Value}
    (repeated : IsRepeated first literals isCopied item captures copies) :
    IsRepeated second literals isCopied' item captures copies := by
  unfold IsRepeated at repeated ⊢
  split at repeated
  · obtain ⟨copy, group, rfl, copied, grouped, found, members⟩ := repeated
    exact ⟨copy, group, rfl, each copied, grouped, found, members.imp fun _ _ => implies.captured⟩
  · exact ⟨repeated.1, repeated.2.imp fun _ _ => each⟩

theorem isGroup_imp
    (implies : first.Implies second)
    {captures : Captures}
    {copies : List Value}
    (group : captures.IsGroup first copies) :
    captures.IsGroup second copies := by
  obtain ⟨each, found, members⟩ := group
  exact ⟨each, found, members.imp fun _ _ => implies.captured⟩

mutual

theorem IsCopied.loosen
    (implies : first.Implies second)
    (grows : before.Grows after)
    {template : Form}
    {captures : Captures}
    {copy : Value}
    (copied : template.IsCopied first literals before captures copy) :
    template.IsCopied second literals after captures copy := by
  match template with
  | .atom value =>
      exact implies.atom copied
  | .identifier name value =>
      unfold IsCopied at copied ⊢
      split at copied
      · exact implies.captured copied
      · exact implies.free copied
  | .list items tail value =>
      obtain ⟨copies, ending, copiedItems, copiedTail, spells⟩ := copied
      exact ⟨copies, ending, AreCopied.loosen implies grows copiedItems,
        IsCopied.loosen implies grows copiedTail, spells.grows grows⟩
  | .vector items value =>
      obtain ⟨address, copies, rfl, found, copiedItems⟩ := copied
      exact ⟨address, copies, rfl, grows.vectors found, AreCopied.loosen implies grows copiedItems⟩
  | .marked mark inner value =>
      obtain ⟨address, innerCopy, rfl, found, copiedInner⟩ := copied
      exact ⟨address, innerCopy, rfl, grows.marked found, IsCopied.loosen implies grows copiedInner⟩

theorem AreCopied.loosen
    (implies : first.Implies second)
    (grows : before.Grows after)
    {items : List Form}
    {captures : Captures}
    {copies : List Value}
    (copied : AreCopied first literals before items captures copies) :
    AreCopied second literals after items captures copies := by
  match items with
  | [] =>
      exact copied
  | [item] =>
      unfold AreCopied at copied ⊢
      split
      case isTrue lone =>
        rw [if_pos lone] at copied
        exact isGroup_imp implies copied
      case isFalse notLone =>
        rw [if_neg notLone] at copied
        obtain ⟨copy, rfl, copiedItem⟩ := copied
        exact ⟨copy, rfl, IsCopied.loosen implies grows copiedItem⟩
  | item :: next :: rest =>
      have each
          {captures : Captures}
          {copy : Value}
          (copied : item.IsCopied first literals before captures copy) :
          item.IsCopied second literals after captures copy :=
        IsCopied.loosen implies grows copied
      unfold AreCopied at copied ⊢
      split
      case isTrue lone =>
        rw [if_pos lone] at copied
        obtain ⟨group, others, rfl, grouped, copiedOthers⟩ := copied
        exact ⟨group, others, rfl, isGroup_imp implies grouped,
          AreCopied.loosen implies grows copiedOthers⟩
      case isFalse notLone =>
        rw [if_neg notLone] at copied
        split
        case isTrue followed =>
          rw [if_pos followed] at copied
          obtain ⟨repeated, others, rfl, isRepeated, copiedOthers⟩ := copied
          exact ⟨repeated, others, rfl, isRepeated.imp implies each,
            AreCopied.loosen implies grows copiedOthers⟩
        case isFalse notFollowed =>
          rw [if_neg notFollowed] at copied
          obtain ⟨copy, others, rfl, copiedItem, copiedOthers⟩ := copied
          exact ⟨copy, others, rfl, each copiedItem, AreCopied.loosen implies grows copiedOthers⟩

end

end Loosening

end Form

/-! Filling makes a copy. -/

/-- What a name means depends on the frames only. -/
theorem Store.lookup?_congr
    {before after : Store}
    (frames : after.frames = before.frames)
    (scope : Scope)
    (name : String) :
    after.lookup? scope name = before.lookup? scope name := by
  have sameFrame (address : Nat) : after.frameAt address = before.frameAt address := by
    simp only [Store.frameAt, frames]
  unfold Store.lookup?
  induction scope.frames with
  | nil => rfl
  | cons frame outer inductionHypothesis =>
      simp only [Store.lookupIn, sameFrame, inductionHypothesis]

namespace TemplateSetting

/-- Leaves as they are filled: atoms stay, captured forms are put in, the setting has the rest. -/
def copyRule
    (setting : TemplateSetting)
    (store : Store) : CopyRule where
  atom value copy := copy = value
  captured capture copy := capture = .one copy
  free name value copy := copy = setting.freeIdentifier name value store

/-- What becomes of a free identifier depends on the frames only. -/
theorem freeIdentifier_congr
    (setting : TemplateSetting)
    {before after : Store}
    (frames : after.frames = before.frames)
    (name : String)
    (value : Value) :
    setting.freeIdentifier name value after = setting.freeIdentifier name value before := by
  have sameBound : setting.boundAtHome? name after = setting.boundAtHome? name before := by
    simp only [boundAtHome?, Store.isBound, Store.lookup?_congr frames]
  unfold freeIdentifier
  rw [sameBound]

/-- Of a scope that is there, the names are found that it binds. -/
theorem boundAtHome?_eq_some
    {literals locals : List String}
    {store : Store}
    {home : Scope}
    {name : String}
    (bound : store.isBound home name) :
    boundAtHome? ⟨literals, some home, locals⟩ name store = some home := by
  unfold boundAtHome?
  rw [Option.filter_some, if_pos bound]

theorem freeIdentifier_plain
    (setting : TemplateSetting)
    (name : String)
    (store : Store)
    {value : Value}
    (plain : ∀ (own : String) (home : Scope), value = .scoped own home → False) :
    setting.freeIdentifier name value store =
      if setting.locals.contains name then
        .symbol name
      else
        match setting.boundAtHome? name store with
        | some home => .scoped name home
        | none => .symbol name := by
  unfold freeIdentifier
  split
  · exact (plain _ _ rfl).elim
  · rfl

end TemplateSetting

namespace Captures

variable
  {captures : Captures}
  {copies : List Value}
  {before after : Store}

theorem groupItems_copied
    (setting : TemplateSetting)
    (origin : Store)
    {each : List Capture}
    (filled : groupItems each before = (.ok copies, after)) :
    after = before ∧ List.Forall₂ (setting.copyRule origin).captured each copies := by
  induction each generalizing copies after with
  | nil =>
      cases filled
      exact ⟨rfl, .nil⟩
  | cons capture rest inductionHypothesis =>
      cases capture with
      | one value =>
          obtain ⟨values, between, filledRest, filled⟩ := StoreM.bind_eq_ok_iff.mp filled
          cases filled
          obtain ⟨same, copied⟩ := inductionHypothesis filledRest
          exact ⟨same, .cons rfl copied⟩
      | rest items tail => cases filled
      | many each => cases filled

theorem group_copied
    (setting : TemplateSetting)
    (origin : Store)
    (filled : captures.group before = (.ok copies, after)) :
    after = before ∧ captures.IsGroup (setting.copyRule origin) copies := by
  unfold group at filled
  cases found : captures.lookup Capture.ellipsis with
  | none =>
      rw [found] at filled
      cases filled
  | some capture =>
      rw [found] at filled
      cases capture with
      | one value => cases filled
      | rest items tail => cases filled
      | many each =>
          obtain ⟨same, copied⟩ := groupItems_copied setting origin filled
          exact ⟨same, each, found, copied⟩

end Captures

namespace Form

variable
  {setting : TemplateSetting}
  {origin : Store}

theorem fillRepeated_copied
    {fill : Captures → StoreM Value}
    (isCopied : Store → Captures → Value → Prop)
    (each :
      ∀ {captures : Captures} {before after : Store} {copy : Value},
        before.frames = origin.frames →
        fill captures before = (.ok copy, after) →
        before.Grows after ∧ isCopied after captures copy)
    (kept :
      ∀ {captures : Captures} {copy : Value} {before after : Store},
        before.Grows after → isCopied before captures copy → isCopied after captures copy)
    {item : Form}
    {captures : Captures}
    {before after : Store}
    {copies : List Value}
    (frames : before.frames = origin.frames)
    (filled : fillRepeated fill item setting.literals captures before = (.ok copies, after)) :
    before.Grows after ∧
      IsRepeated (setting.copyRule origin) setting.literals (isCopied after) item captures
        copies := by
  unfold fillRepeated at filled
  unfold IsRepeated
  cases found : captures.repeatedVariables (item.variables setting.literals []) with
  | nil =>
      rw [found] at filled
      obtain ⟨first, between, filledFirst, filled⟩ := StoreM.bind_eq_ok_iff.mp filled
      obtain ⟨group, last, filledGroup, filled⟩ := StoreM.bind_eq_ok_iff.mp filled
      cases filled
      obtain ⟨grows, copied⟩ := each frames filledFirst
      obtain ⟨rfl, grouped⟩ := Captures.group_copied setting origin filledGroup
      exact ⟨grows, first, group, rfl, copied, grouped⟩
  | cons repetitions others =>
      rw [found] at filled
      dsimp only at filled
      split at filled
      case isTrue even =>
        obtain ⟨grows, copied⟩ := StoreM.mapM_forall₂
          (fun store index => isCopied store (captures.atRepetition (repetitions :: others) index))
          (fun grown => each (grown.frames.trans frames)) kept filled
        refine ⟨grows, fun repeated member => ?_, copied⟩
        exact of_decide_eq_true (List.all_eq_true.mp even repeated member)
      case isFalse => cases filled

mutual

/-- What a template is filled to is a copy of it, by recursion on the template. -/
theorem fill_copied
    {template : Form}
    {captures : Captures}
    {before after : Store}
    {copy : Value}
    (frames : before.frames = origin.frames)
    (filled : template.fill setting captures before = (.ok copy, after)) :
    before.Grows after ∧
      template.IsCopied (setting.copyRule origin) setting.literals after captures copy := by
  match template with
  | .atom value =>
      cases filled
      exact ⟨.refl _, rfl⟩
  | .identifier name value =>
      unfold fill at filled
      unfold IsCopied
      cases found : captures.lookup name with
      | none =>
          rw [found] at filled
          cases filled
          exact ⟨.refl _, setting.freeIdentifier_congr frames name value⟩
      | some capture =>
          rw [found] at filled
          cases capture with
          | one captured =>
              cases filled
              exact ⟨.refl _, rfl⟩
          | rest items tail => cases filled
          | many each => cases filled
  | .list items tail value =>
      unfold fill at filled
      obtain ⟨copies, between, filledItems, filled⟩ := StoreM.bind_eq_ok_iff.mp filled
      obtain ⟨ending, last, filledTail, filled⟩ := StoreM.bind_eq_ok_iff.mp filled
      obtain ⟨growsItems, copiedItems⟩ := fillItems_copied frames filledItems
      obtain ⟨growsTail, copiedTail⟩ :=
        fill_copied (growsItems.frames.trans frames) filledTail
      obtain ⟨growsList, spells⟩ := Store.newListWithTail_spells copies ending last
      rw [StoreM.change_eq_ok_iff.mp filled] at growsList spells
      exact ⟨(growsItems.trans growsTail).trans growsList, copies, ending,
        copiedItems.loosen (.refl _) (growsTail.trans growsList),
        copiedTail.loosen (.refl _) growsList, spells⟩
  | .vector items value =>
      unfold fill at filled
      obtain ⟨copies, between, filledItems, filled⟩ := StoreM.bind_eq_ok_iff.mp filled
      obtain ⟨growsItems, copiedItems⟩ := fillItems_copied frames filledItems
      have growsVector := Store.grows_newVector copies.toArray between
      cases StoreM.change_eq_ok_iff.mp filled
      exact ⟨growsItems.trans growsVector, _, copies, rfl, Array.getElem?_push_size,
        copiedItems.loosen (.refl _) growsVector⟩
  | .marked mark inner value =>
      unfold fill at filled
      obtain ⟨innerCopy, between, filledInner, filled⟩ := StoreM.bind_eq_ok_iff.mp filled
      obtain ⟨growsInner, copiedInner⟩ := fill_copied frames filledInner
      have growsMarked := Store.grows_newMarked mark innerCopy between
      cases StoreM.change_eq_ok_iff.mp filled
      exact ⟨growsInner.trans growsMarked, _, innerCopy, rfl, Array.getElem?_push_size,
        copiedInner.loosen (.refl _) growsMarked⟩

theorem fillItems_copied
    {items : List Form}
    {captures : Captures}
    {before after : Store}
    {copies : List Value}
    (frames : before.frames = origin.frames)
    (filled : fillItems setting items captures before = (.ok copies, after)) :
    before.Grows after ∧
      AreCopied (setting.copyRule origin) setting.literals after items captures copies := by
  match items with
  | [] =>
      cases filled
      exact ⟨.refl _, rfl⟩
  | [item] =>
      unfold fillItems at filled
      unfold AreCopied
      split at filled
      case isTrue lone =>
        rw [if_pos lone]
        obtain ⟨rfl, grouped⟩ := Captures.group_copied setting origin filled
        exact ⟨.refl _, grouped⟩
      case isFalse notLone =>
        rw [if_neg notLone]
        obtain ⟨copy, between, filledItem, filled⟩ := StoreM.bind_eq_ok_iff.mp filled
        cases filled
        obtain ⟨grows, copied⟩ := fill_copied frames filledItem
        exact ⟨grows, copy, rfl, copied⟩
  | item :: next :: rest =>
      have each
          {captures : Captures}
          {before after : Store}
          {copy : Value}
          (frames : before.frames = origin.frames)
          (filled : item.fill setting captures before = (.ok copy, after)) :
          before.Grows after ∧
            item.IsCopied (setting.copyRule origin) setting.literals after captures copy :=
        fill_copied frames filled
      unfold fillItems at filled
      unfold AreCopied
      split at filled
      case isTrue lone =>
        rw [if_pos lone]
        obtain ⟨group, between, filledGroup, filled⟩ := StoreM.bind_eq_ok_iff.mp filled
        obtain ⟨others, last, filledOthers, filled⟩ := StoreM.bind_eq_ok_iff.mp filled
        cases filled
        obtain ⟨rfl, grouped⟩ := Captures.group_copied setting origin filledGroup
        obtain ⟨grows, copied⟩ := fillItems_copied frames filledOthers
        exact ⟨grows, group, others, rfl, grouped, copied⟩
      case isFalse notLone =>
        rw [if_neg notLone]
        split at filled
        case isTrue followed =>
          rw [if_pos followed]
          obtain ⟨repeated, between, filledRepeated, filled⟩ := StoreM.bind_eq_ok_iff.mp filled
          obtain ⟨others, last, filledOthers, filled⟩ := StoreM.bind_eq_ok_iff.mp filled
          cases filled
          obtain ⟨growsRepeated, copiedRepeated⟩ :=
            fillRepeated_copied (item.IsCopied (setting.copyRule origin) setting.literals) each
              (fun grows => IsCopied.loosen (.refl _) grows) frames filledRepeated
          obtain ⟨grows, copied⟩ :=
            fillItems_copied (growsRepeated.frames.trans frames) filledOthers
          exact ⟨growsRepeated.trans grows, repeated, others, rfl,
            copiedRepeated.imp (.refl _) fun copied => copied.loosen (.refl _) grows, copied⟩
        case isFalse notFollowed =>
          rw [if_neg notFollowed]
          obtain ⟨copy, between, filledItem, filled⟩ := StoreM.bind_eq_ok_iff.mp filled
          obtain ⟨others, last, filledOthers, filled⟩ := StoreM.bind_eq_ok_iff.mp filled
          cases filled
          obtain ⟨growsItem, copiedItem⟩ := each frames filledItem
          obtain ⟨grows, copied⟩ := fillItems_copied (growsItem.frames.trans frames) filledOthers
          exact ⟨growsItem.trans grows, copy, others, rfl, copiedItem.loosen (.refl _) grows,
            copied⟩

end

end Form

end SmallScheme
