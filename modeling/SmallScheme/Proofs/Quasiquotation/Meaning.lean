import SmallScheme.Proofs.Script.Sequence
import SmallScheme.Proofs.Store.Growth
import SmallScheme.Special.Template

namespace SmallScheme

/-!
# Expansion gives what a template stands for

Expansion reads its template step by step, while the parts before are evaluated.  As long as the
evaluated forms leave the template as it is, it makes the same requests and the same objects as the
reference does, which reads the template before.
-/

/--
Whatever the script asks for, when it is run from the machine, leaves a store with the property,
unless it unwinds.
-/
def Script.Keeps
    {Answer : Type}
    (serve : Request → Run Value)
    (handOver : Step → Run Step)
    (kept : Store → Prop) : Script Answer → Machine → Prop
  | .done _, _ => True
  | .unwind _, _ => True
  | .viewing look next, machine => Keeps serve handOver kept (next (look machine.store)) machine
  | .acting action next, ⟨store, context, depth⟩ =>
      Keeps serve handOver kept (next (action store).1) ⟨(action store).2, context, depth⟩
  | .switching change next, ⟨store, context, depth⟩ =>
      Keeps serve handOver kept (next (change context).1) ⟨store, (change context).2, depth⟩
  | .asking request next, machine =>
      ∀ result later,
        serve request machine = some (result, later) →
        (result.isOk → kept later.store) ∧ Keeps serve handOver kept (next result) later
  | .deferring step next, machine =>
      ∀ result later,
        handOver step machine = some (result, later) →
        (result.isOk → kept later.store) ∧ Keeps serve handOver kept (next result) later

/-! Templates in stores that grow. -/

namespace Store

open Quasiquotation (Template)

variable
  {before after store : Store}
  {value inner : Value}
  {mark : Mark}
  {level : Nat}

theorem mark?_of_named
    {address rest : Nat}
    {head : Value}
    (found : store.pairs[address]? = some ⟨head, .pair rest⟩)
    (named : head.isNamed mark.keyword)
    (foundRest : store.pairs[rest]? = some ⟨inner, .nil⟩) :
    store.mark? (.pair address) = some (mark, inner) := by
  have isName (other : Mark) : head.isNamed other.keyword ↔ other = mark := by
    have identified : head.identifier? = some mark.keyword := of_decide_eq_true named
    simp only [Value.isNamed, identified, decide_eq_true_eq, Option.some.injEq]
    cases mark <;> cases other <;> decide
  have isFirst :
      ([Mark.quote, .quasiquote, .unquote, .unquoteSplicing].find? fun other =>
        head.isNamed other.keyword) = some mark := by
    have same : (fun other : Mark => head.isNamed other.keyword) = fun other => other = mark := by
      funext other
      exact Bool.eq_iff_iff.mpr ((isName other).trans decide_eq_true_iff.symm)
    rw [same]
    cases mark <;> rfl
  simp only [mark?, found, isFirst, pair?, foundRest]

/-- A mark is recognised, abbreviated or spelled out. -/
theorem HasMark.mark?_eq
    (hasMark : store.HasMark value mark inner) :
    store.mark? value = some (mark, inner) := by
  cases hasMark with
  | abbreviated found => rw [mark?, markedAt, found]; rfl
  | spelled found named foundRest => exact mark?_of_named found named foundRest

/-- What is recognised as a mark is one. -/
theorem hasMark_of_mark?
    {address : Nat}
    (isMark : store.mark? (.pair address) = some (mark, inner)) :
    store.HasMark (.pair address) mark inner := by
  simp only [mark?] at isMark
  split at isMark
  case h_1 => cases isMark
  case h_2 pair found =>
    split at isMark
    case h_1 _ _ own rest isOwn foundRest =>
      cases isMark
      obtain ⟨head, tail⟩ := pair
      cases tail with
      | pair address =>
          have named := List.find?_some isOwn
          exact .spelled found named foundRest
      | _ => cases foundRest
    case h_2 => cases isMark

/-- A list that is no mark is not recognised as one. -/
theorem mark?_eq_none
    {address : Nat}
    (unmarked : ∀ mark inner, ¬store.HasMark (.pair address) mark inner) :
    store.mark? (.pair address) = none := by
  cases isMark : store.mark? (.pair address) with
  | none => rfl
  | some marked => exact (unmarked _ _ (hasMark_of_mark? isMark)).elim

/-- A mark stays a mark while the store grows. -/
theorem HasMark.grows
    (grows : before.Grows after)
    (hasMark : before.HasMark value mark inner) :
    after.HasMark value mark inner := by
  cases hasMark with
  | abbreviated found => exact .abbreviated (grows.marked found)
  | spelled found named foundRest =>
      exact .spelled (grows.pairs found) named (grows.pairs foundRest)

/-- Whatever pair is read as a template is in the store. -/
theorem Reads.exists_pair
    {template : Template}
    {address : Nat}
    (reads : store.Reads level template)
    (isPair : template.value = .pair address) :
    ∃ pair, store.pairs[address]? = some pair := by
  have present {mark : Mark} {inner : Value} (hasMark : store.HasMark (.pair address) mark inner) :
      ∃ pair, store.pairs[address]? = some pair := by
    cases hasMark with
    | spelled found _ _ => exact ⟨_, found⟩
  cases template with
  | constant value =>
      obtain rfl : value = .pair address := isPair
      exact reads.elim
  | identifier name value =>
      obtain rfl : value = .pair address := isPair
      cases reads
  | unquoted form value =>
      obtain rfl : value = .pair address := isPair
      exact present reads.2
  | «spliced» form value =>
      obtain rfl : value = .pair address := isPair
      exact present reads.2
  | marked mark inner value =>
      obtain rfl : value = .pair address := isPair
      exact present reads.2.1
  | pair head tail value =>
      obtain rfl : value = .pair address := isPair
      obtain ⟨_, ⟨_, same, found⟩, _⟩ := reads
      cases same
      exact ⟨_, found⟩
  | vector items value =>
      obtain rfl : value = .pair address := isPair
      obtain ⟨_, same, _⟩ := reads
      cases same

/-- A value with a name is a symbol, with a scope or without. -/
theorem exists_scoped_or_eq_symbol
    {name : String}
    (identified : value.identifier? = some name) :
    (∃ home, value = .scoped name home) ∨ value = .symbol name := by
  cases value with
  | symbol own => exact .inr (congrArg Value.symbol (Option.some.inj identified))
  | «scoped» own home =>
      exact .inl ⟨home, congrArg (Value.scoped · home) (Option.some.inj identified)⟩
  | _ => cases identified

/-- Only what is read as spliced has the mark for it at level one. -/
theorem Reads.not_spliced
    {template : Template}
    (reads : store.Reads level template)
    (notSpliced : ∀ form value, template ≠ .spliced form value)
    (inner : Value)
    (isMark : store.mark? template.value = some (.unquoteSplicing, inner)) :
    level ≠ 1 := by
  cases template with
  | constant value => cases value <;> first | exact reads.elim | cases isMark
  | identifier name value =>
      obtain ⟨home, rfl⟩ | rfl := exists_scoped_or_eq_symbol reads <;> cases isMark
  | unquoted form value => cases reads.2.mark?_eq.symm.trans isMark
  | «spliced» form value => exact (notSpliced form value rfl).elim
  | marked mark inner value =>
      obtain ⟨levels, hasMark, _⟩ := reads
      cases hasMark.mark?_eq.symm.trans isMark
      exact levels rfl
  | pair head tail value =>
      obtain ⟨unmarked, ⟨address, rfl, _⟩, _⟩ := reads
      cases (mark?_eq_none unmarked).symm.trans isMark
  | vector items value =>
      obtain ⟨address, rfl, _⟩ := reads
      cases isMark

/-- A list is walked over as far as it is read as pairs. -/
theorem Reads.listPair?_eq_none
    {template : Template}
    (reads : store.Reads level template)
    (notPair : ∀ head tail value, template ≠ .pair head tail value) :
    store.listPair? template.value = none := by
  have ofMark {value inner : Value} {mark : Mark} (hasMark : store.HasMark value mark inner) :
      store.listPair? value = none := by
    have isMark := hasMark.mark?_eq
    cases hasMark with
    | abbreviated _ => rfl
    | spelled _ _ _ => rw [listPair?, isMark]
  cases template with
  | constant value => cases value <;> first | exact reads.elim | rfl
  | identifier name value => obtain ⟨home, rfl⟩ | rfl := exists_scoped_or_eq_symbol reads <;> rfl
  | unquoted form value => exact ofMark reads.2
  | «spliced» form value => exact ofMark reads.2
  | marked mark inner value => exact ofMark reads.2.1
  | pair head tail value => exact (notPair head tail value rfl).elim
  | vector items value =>
      obtain ⟨address, rfl, _⟩ := reads
      rfl

mutual

/-- A template is read as before when the store has grown. -/
theorem Reads.grows
    (grows : before.Grows after)
    (template : Template)
    {level : Nat}
    (reads : before.Reads level template) :
    after.Reads level template := by
  match template with
  | .constant _ => exact reads
  | .identifier _ _ => exact reads
  | .unquoted _ _ => exact ⟨reads.1, reads.2.grows grows⟩
  | .spliced _ _ => exact ⟨reads.1, reads.2.grows grows⟩
  | .marked _ inner _ =>
      obtain ⟨levels, hasMark, readsInner⟩ := reads
      exact ⟨levels, hasMark.grows grows, Reads.grows grows inner readsInner⟩
  | .pair head tail value =>
      obtain ⟨unmarked, ⟨address, rfl, found⟩, readsHead, readsTail⟩ := reads
      refine ⟨fun mark inner hasMark => ?_, ⟨address, rfl, grows.pairs found⟩,
        Reads.grows grows head readsHead, Reads.grows grows tail readsTail⟩
      -- No list of a keyword and a form comes about, since the tail was there before.
      cases hasMark with
      | spelled foundAfter named foundRest =>
          have sameTail := (grows.pairs found).symm.trans foundAfter
          obtain ⟨sameHead, isRest⟩ : head.value = _ ∧ tail.value = _ := by simpa using sameTail
          obtain ⟨rest, foundBefore⟩ := readsTail.exists_pair isRest
          cases (grows.pairs foundBefore).symm.trans foundRest
          rw [sameHead, isRest] at found
          exact unmarked mark inner (.spelled found named foundBefore)
  | .vector items value =>
      obtain ⟨address, rfl, found, readItems⟩ := reads
      exact ⟨address, rfl, grows.vectors found, ReadAll.grows grows items readItems⟩

theorem ReadAll.grows
    (grows : before.Grows after)
    (templates : List Template)
    {level : Nat}
    (readAll : before.ReadAll level templates) :
    after.ReadAll level templates := by
  match templates with
  | [] => trivial
  | template :: rest =>
      exact ⟨Reads.grows grows template readAll.1, ReadAll.grows grows rest readAll.2⟩

end

end Store

namespace Quasiquotation

open Script (evaluate perform)

namespace Template

mutual

/-- How many objects with parts are inside one another in the template. -/
def height : Template → Nat
  | .constant _ => 0
  | .identifier _ _ => 0
  | .unquoted _ _ => 0
  | .spliced _ _ => 0
  | .marked _ inner _ => height inner + 1
  | .pair head tail _ => max (height head) (height tail) + 1
  | .vector items _ => heightOfAll items + 1

def heightOfAll : List Template → Nat
  | [] => 0
  | item :: rest => max (height item) (heightOfAll rest)

end

/-- Apart from items that are spliced in, an item is what the template stands for. -/
theorem itemMeaning_eq
    {template : Template}
    (notSpliced : ∀ form value, template ≠ .spliced form value)
    (scope : Scope)
    (meaning : Script Value) :
    template.itemMeaning scope meaning = meaning.bind fun value => .done [value] := by
  cases template with
  | «spliced» form value => exact (notSpliced form value rfl).elim
  | _ => rfl

end Template

variable
  {Answer : Type}
  {serve : Request → Run Value}
  {handOver : Step → Run Step}
  {scope : Scope}
  {kept : Store → Prop}
  {machine : Machine}

/-- Two ways to go on come to the same as long as the store has the property. -/
def GoOnAlike
    {Found : Type}
    (serve : Request → Run Value)
    (handOver : Step → Run Step)
    (kept : Store → Prop)
    (next other : Found → Script Answer) : Prop :=
  ∀ found machine,
    kept machine.store →
    (other found).Keeps serve handOver kept machine →
    (next found).run serve handOver machine = (other found).run serve handOver machine

/-- To expand and then to go on is to go on from what is stood for. -/
def ExpandsTo
    {Found : Type}
    (Answer : Type)
    (serve : Request → Run Value)
    (handOver : Step → Run Step)
    (kept : Store → Prop)
    (expansion : (Found → Script Answer) → Script Answer)
    (meaning : Script Found) : Prop :=
  ∀ ⦃next other : Found → Script Answer⦄,
    GoOnAlike serve handOver kept next other →
    ∀ ⦃machine : Machine⦄,
      kept machine.store →
      (meaning.bind other).Keeps serve handOver kept machine →
      (expansion next).run serve handOver machine = (meaning.bind other).run serve handOver machine

section Pieces

variable
  {Found Made : Type}
  {next other : Made → Script Answer}
  (grown : ∀ {before after : Store}, kept before → before.Grows after → kept after)

include grown in
/-- Objects that are made on the way do not matter. -/
theorem GoOnAlike.make
    {make : Found → Store → Made × Store}
    (grows : ∀ found (store : Store), store.Grows (make found store).2)
    (alike : GoOnAlike serve handOver kept next other) :
    GoOnAlike serve handOver kept
      (fun found => (perform (StoreM.change (make found))).bind next)
      (fun found => (perform (StoreM.change (make found))).bind other) := by
  intro found machine isKept keeps
  obtain ⟨store, context, depth⟩ := machine
  exact alike _ _ (grown isKept (grows found store)) keeps

/-- An unquoted part is evaluated in its turn. -/
theorem expandsTo_evaluate
    (form : Value) :
    ExpandsTo Answer serve handOver kept (evaluate scope form).bind (evaluate scope form) := by
  intro next other alike machine isKept keeps
  simp only [evaluate, Script.bind, Script.run]
  cases served : serve (.evaluate scope form) machine with
  | none => rfl
  | some outcome =>
      obtain ⟨result, later⟩ := outcome
      cases result with
      | error reason => rfl
      | ok value =>
          obtain ⟨isKept, keeps⟩ := keeps _ _ served
          exact alike value later (isKept rfl) keeps

/-- It does not matter who reads the items that are spliced in. -/
theorem GoOnAlike.splice
    {next other : List Value → Script Answer}
    (alike : GoOnAlike serve handOver kept next other) :
    GoOnAlike serve handOver kept
      (fun value => (Quasiquotation.splice value).bind next)
      (fun value => (Quasiquotation.splice value).bind other) := by
  intro value machine isKept keeps
  simp only [Quasiquotation.splice, Script.view, bind, Script.bind, Script.run] at keeps ⊢
  cases isList : machine.store.listItems? value with
  | none => rfl
  | some items =>
      simp only [Script.Keeps, isList] at keeps
      exact alike items machine isKept keeps

end Pieces

/-- The item of a list is expanded like a template, unless its items are to be spliced in. -/
theorem run_expandItem
    {fuel level : Nat}
    {value : Value}
    (whole :
      ∀ inner, machine.store.mark? value = some (.unquoteSplicing, inner) → level ≠ 1)
    (next : List Value → Script Answer) :
    (expandItem scope (fuel + 1) level value next).run serve handOver machine =
      (expand scope fuel level value fun expanded => next [expanded]).run serve handOver
        machine := by
  rw [expandItem]
  simp only [Script.view, bind, Script.bind, Script.run]
  split
  case h_1 inner isSpliced =>
    rw [if_neg (whole inner isSpliced)]
  case h_2 => rfl

/-- Under a mark the expansion goes on at the level of the mark. -/
theorem run_expand_marked
    {fuel level : Nat}
    {value inner : Value}
    {mark : Mark}
    (isMark : machine.store.mark? value = some (mark, inner))
    (levels : mark.isUnquoting → level ≠ 1)
    (next : Value → Script Answer) :
    (expand scope (fuel + 1) level value next).run serve handOver machine =
      (expand scope fuel (mark.levelUnder level) inner fun inner =>
        (wrap mark inner).bind next).run serve handOver machine := by
  conv_lhs => unfold expand
  simp only [Script.view, bind, Script.bind, Script.run, isMark]
  cases mark with
  | quote => rfl
  | quasiquote => rfl
  | unquote => simp only [if_neg (levels rfl)]; rfl
  | unquoteSplicing => simp only [if_neg (levels rfl)]; rfl

/-- At level one an unquoted part is evaluated. -/
theorem run_expand_unquoted
    {fuel : Nat}
    {value form : Value}
    (isMark : machine.store.mark? value = some (.unquote, form))
    (next : Value → Script Answer) :
    (expand scope (fuel + 1) 1 value next).run serve handOver machine =
      ((evaluate scope form).bind next).run serve handOver machine := by
  conv_lhs => unfold expand
  simp only [Script.view, bind, Script.bind, Script.run, isMark, if_true]

/-- At level one items are not spliced in where one value is wanted. -/
theorem run_expand_misplaced
    {fuel : Nat}
    {value form : Value}
    (isMark : machine.store.mark? value = some (.unquoteSplicing, form))
    (next : Value → Script Answer) :
    (expand scope (fuel + 1) 1 value next).run serve handOver machine =
      (Script.failTelling value fun text => .evaluation (.splicePlace text) : Script Answer).run
        serve handOver machine := by
  conv_lhs => unfold expand
  simp only [Script.view, bind, Script.bind, Script.run, isMark, if_true]

/-! Lists. -/

/-- A list is made in two parts as in one. -/
theorem newListFrom_append
    (reversed others : List Value)
    (tail : Value)
    (store : Store) :
    store.newListFrom (reversed ++ others) tail =
      (store.newListFrom reversed tail).2.newListFrom others
        (store.newListFrom reversed tail).1 := by
  induction reversed generalizing tail store with
  | nil => rfl
  | cons item reversed inductionHypothesis => exact inductionHypothesis _ _

/-- A list may be made at once or from its end. -/
theorem newListWithTail_append
    (items others : List Value)
    (tail : Value)
    (store : Store) :
    store.newListWithTail (items ++ others) tail =
      (store.newListWithTail others tail).2.newListWithTail items
        (store.newListWithTail others tail).1 := by
  rw [Store.newListWithTail, List.reverse_append, newListFrom_append]
  rfl

/-- To walk along a list and then to go on is to go on from what the list stands for. -/
def ListExpandsTo
    (Answer : Type)
    (serve : Request → Run Value)
    (handOver : Step → Run Step)
    (kept : Store → Prop)
    (walk : List Value → (List Value × Value → Script Answer) → Script Answer)
    (meaning : Script Value) : Prop :=
  ∀ ⦃sofar : List Value⦄
    ⦃next : List Value × Value → Script Answer⦄
    ⦃other : Value → Script Answer⦄,
    (∀ items tail store context depth,
      kept store →
      (other (store.newListWithTail items tail).1).Keeps serve handOver kept
        ⟨(store.newListWithTail items tail).2, context, depth⟩ →
      (next (sofar.reverse ++ items, tail)).run serve handOver ⟨store, context, depth⟩ =
        (other (store.newListWithTail items tail).1).run serve handOver
          ⟨(store.newListWithTail items tail).2, context, depth⟩) →
    ∀ ⦃machine : Machine⦄,
      kept machine.store →
      (meaning.bind other).Keeps serve handOver kept machine →
      (walk sofar next).run serve handOver machine = (meaning.bind other).run serve handOver machine

/-- What is not walked over any more is expanded as the end of the list. -/
theorem ExpandsTo.list
    {fuel level : Nat}
    {value : Value}
    {meaning : Script Value}
    (expands : ExpandsTo Answer serve handOver kept (expand scope fuel level value) meaning)
    (isOver : ∀ store : Store, kept store → store.listPair? value = none) :
    ListExpandsTo Answer serve handOver kept
      (fun sofar => expandList scope (fuel + 1) level sofar value) meaning := by
  intro sofar next other alike machine isKept keeps
  beta_reduce
  rw [expandList]
  simp only [Script.view, bind, Script.bind, Script.run, isOver machine.store isKept]
  refine expands ?_ isKept keeps
  intro tail later isKept keeps
  have alikeEnd := alike [] tail later.store later.context later.depth isKept keeps
  rw [List.append_nil] at alikeEnd
  exact alikeEnd

theorem bind_assoc₂
    {First Second Third Fourth : Type}
    (script : Script First)
    (next : First → Script Second)
    (further : First → Second → Script Third)
    (last : Third → Script Fourth) :
    (script.bind fun first => (next first).bind (further first)).bind last =
      script.bind fun first =>
        (next first).bind fun second => (further first second).bind last := by
  rw [Script.bind_assoc]
  exact congrArg script.bind (funext fun first => Script.bind_assoc _ _ _)

section Lists

variable
  {fuel level address : Nat}
  {head tail : Template}
  (grown : ∀ {before after : Store}, kept before → before.Grows after → kept after)
  (reads : ∀ store, kept store → store.Reads level (.pair head tail (.pair address)))

include reads in
/-- What is read as a pair is walked over as one. -/
theorem listPair?_of_reads
    {store : Store}
    (isKept : kept store) :
    store.listPair? (.pair address) = some (address, ⟨head.value, tail.value⟩) := by
  obtain ⟨unmarked, ⟨_, same, found⟩, _⟩ := reads store isKept
  cases same
  simp only [Store.listPair?, Store.mark?_eq_none unmarked, found]

include reads in
/-- An item, then the rest, and then a list is made of them. -/
theorem ListExpandsTo.pair
    (expandsHead :
      ExpandsTo Answer serve handOver kept (expandItem scope fuel level head.value)
        (head.itemMeaning scope (head.meaning scope)))
    (expandsTail :
      ListExpandsTo Answer serve handOver kept
        (fun sofar => expandList scope fuel level sofar tail.value) (tail.meaning scope)) :
    ListExpandsTo Answer serve handOver kept
      (fun sofar => expandList scope (fuel + 1) level sofar (.pair address))
      ((Template.pair head tail (.pair address)).meaning scope) := by
  intro sofar next other alike machine isKept keeps
  have isMeaning :
      ((Template.pair head tail (.pair address)).meaning scope).bind other =
        (head.itemMeaning scope (head.meaning scope)).bind fun items =>
          (tail.meaning scope).bind fun last =>
            (perform (StoreM.change (Store.newListWithTail items last))).bind other := by
    rw [Template.meaning]
    exact bind_assoc₂ _ _ _ _
  rw [isMeaning] at keeps ⊢
  beta_reduce
  rw [expandList]
  simp only [Script.view, bind, Script.bind, Script.run, listPair?_of_reads reads isKept]
  refine expandsHead ?_ isKept keeps
  intro items later isKept keeps
  have isTail : (later.store.pairAt address).tail = tail.value := by
    obtain ⟨_, ⟨_, same, found⟩, _⟩ := reads later.store isKept
    cases same
    rw [Store.pairAt_eq found]
  simp only [Script.run, isTail]
  refine expandsTail (fun others last store context depth isKept keeps => ?_) isKept keeps
  have whole := alike (items ++ others) last store context depth isKept
  rw [newListWithTail_append] at whole
  rw [List.reverse_append, List.reverse_reverse, List.append_assoc]
  exact whole keeps

include grown reads in
/-- A pair is expanded as a list. -/
theorem ListExpandsTo.expandsTo
    (expands :
      ListExpandsTo Answer serve handOver kept
        (fun sofar => expandList scope fuel level sofar (.pair address))
        ((Template.pair head tail (.pair address)).meaning scope)) :
    ExpandsTo Answer serve handOver kept (expand scope (fuel + 1) level (.pair address))
      ((Template.pair head tail (.pair address)).meaning scope) := by
  intro next other alike machine isKept keeps
  obtain ⟨unmarked, _⟩ := reads machine.store isKept
  rw [expand]
  simp only [Script.view, bind, Script.bind, Script.run, Store.mark?_eq_none unmarked]
  refine expands (fun items tail store context depth isKept keeps => ?_) isKept keeps
  exact alike _ _ (grown isKept (Store.newListWithTail_spells items tail store).1) keeps

end Lists

/-- The items of a vector are expanded in turn. -/
theorem run_collect
    {fuel level : Nat}
    {items : List Template}
    (expands :
      ∀ item ∈ items,
        ExpandsTo Answer serve handOver kept (expandItem scope fuel level item.value)
          (item.itemMeaning scope (item.meaning scope)))
    {sofar : List Value}
    {next other : List Value → Script Answer}
    (alike : GoOnAlike serve handOver kept (fun others => next (sofar.reverse ++ others)) other)
    (isKept : kept machine.store)
    (keeps : ((Template.meaningOfItems scope items).bind other).Keeps serve handOver kept machine) :
    (collect (expandItem scope fuel level) next sofar (items.map Template.value)).run serve handOver
        machine =
      ((Template.meaningOfItems scope items).bind other).run serve handOver machine := by
  induction items generalizing sofar other machine with
  | nil =>
      have alikeEnd := alike [] machine isKept keeps
      beta_reduce at alikeEnd
      rw [List.append_nil] at alikeEnd
      exact alikeEnd
  | cons item rest inductionHypothesis =>
      obtain ⟨expandsItem, expandsRest⟩ := List.forall_mem_cons.mp expands
      have isMeaning :
          (Template.meaningOfItems scope (item :: rest)).bind other =
            (item.itemMeaning scope (item.meaning scope)).bind fun first =>
              (Template.meaningOfItems scope rest).bind fun others => other (first ++ others) := by
        rw [Template.meaningOfItems]
        exact bind_assoc₂ _ _ _ _
      rw [isMeaning] at keeps ⊢
      refine expandsItem (fun first later isKept keeps => ?_) isKept keeps
      refine inductionHypothesis expandsRest (fun others machine isKept keeps => ?_) isKept keeps
      beta_reduce
      rw [List.reverse_append, List.reverse_reverse, List.append_assoc]
      exact alike (first ++ others) machine isKept keeps

/-! Templates. -/

section Templates

variable
  (grown : ∀ {before after : Store}, kept before → before.Grows after → kept after)

/-- An item is expanded as a template, or its items are spliced in. -/
theorem ExpandsTo.item
    {fuel level : Nat}
    {template : Template}
    (reads : ∀ store, kept store → store.Reads level template)
    (expands :
      ExpandsTo Answer serve handOver kept (expand scope fuel level template.value)
        (template.meaning scope)) :
    ExpandsTo Answer serve handOver kept (expandItem scope (fuel + 1) level template.value)
      (template.itemMeaning scope (template.meaning scope)) := by
  intro next other alike machine isKept keeps
  have readsHere := reads machine.store isKept
  by_cases isSpliced : ∃ form value, template = .spliced form value
  · obtain ⟨form, value, rfl⟩ := isSpliced
    obtain ⟨rfl, hasMark⟩ := readsHere
    have evaluated :
        (expandItem scope (fuel + 1) 1 value next).run serve handOver machine =
          ((evaluate scope form).bind fun found => (splice found).bind next).run serve handOver
            machine := by
      conv_lhs => unfold expandItem
      simp only [Script.view, bind, Script.bind, Script.run, hasMark.mark?_eq, if_true]
    refine evaluated.trans ?_
    have isMeaning :
        ((Template.spliced form value).itemMeaning scope
            ((Template.spliced form value).meaning scope)).bind other =
          (evaluate scope form).bind fun found => (splice found).bind other :=
      Script.bind_assoc _ _ _
    rw [isMeaning] at keeps ⊢
    exact expandsTo_evaluate form alike.splice isKept keeps
  · have notSpliced : ∀ form value, template ≠ .spliced form value :=
      fun form value same => isSpliced ⟨form, value, same⟩
    rw [run_expandItem (readsHere.not_spliced notSpliced)]
    have isMeaning :
        (template.itemMeaning scope (template.meaning scope)).bind other =
          (template.meaning scope).bind fun found => other [found] := by
      rw [Template.itemMeaning_eq notSpliced]
      exact Script.bind_assoc _ _ _
    rw [isMeaning] at keeps ⊢
    exact expands (fun found => alike [found]) isKept keeps

/-- A value without parts stands for itself. -/
theorem expandsTo_constant
    {fuel level : Nat}
    {value : Value}
    (isConstant : value.StandsForItself) :
    ExpandsTo Answer serve handOver kept (expand scope (fuel + 1) level value) (.done value) := by
  intro next other alike machine isKept keeps
  conv_lhs => unfold expand
  cases value <;> first | exact isConstant.elim | exact alike _ machine isKept keeps

/-- An identifier stands for the plain symbol. -/
theorem expandsTo_identifier
    {fuel level : Nat}
    {name : String}
    {value : Value}
    (identified : value.identifier? = some name) :
    ExpandsTo Answer serve handOver kept (expand scope (fuel + 1) level value)
      (.done (.symbol name)) := by
  intro next other alike machine isKept keeps
  obtain ⟨home, rfl⟩ | rfl := Store.exists_scoped_or_eq_symbol identified
  · exact alike _ machine isKept keeps
  · exact alike _ machine isKept keeps

include grown in
/-- A marked part is spelled out around what is under the mark. -/
theorem ExpandsTo.marked
    {fuel level : Nat}
    {mark : Mark}
    {inner : Template}
    {value : Value}
    (reads : ∀ store, kept store → store.Reads level (.marked mark inner value))
    (expands :
      ExpandsTo Answer serve handOver kept
        (expand scope fuel (mark.levelUnder level) inner.value) (inner.meaning scope)) :
    ExpandsTo Answer serve handOver kept (expand scope (fuel + 1) level value)
      ((Template.marked mark inner value).meaning scope) := by
  intro next other alike machine isKept keeps
  obtain ⟨levels, hasMark, _⟩ := reads machine.store isKept
  have isMeaning :
      ((Template.marked mark inner value).meaning scope).bind other =
        (inner.meaning scope).bind fun inner => (wrap mark inner).bind other := by
    rw [Template.meaning]
    exact Script.bind_assoc _ _ _
  rw [isMeaning] at keeps ⊢
  rw [run_expand_marked hasMark.mark?_eq levels]
  refine expands (alike.make grown fun inner store => ?_) isKept keeps
  exact (Store.newListWithTail_spells _ _ store).1

include grown in
/-- A vector is made of what its items stand for. -/
theorem ExpandsTo.vector
    {fuel level : Nat}
    {items : List Template}
    {value : Value}
    (reads : ∀ store, kept store → store.Reads level (.vector items value))
    (expands :
      ∀ item ∈ items,
        ExpandsTo Answer serve handOver kept (expandItem scope fuel level item.value)
          (item.itemMeaning scope (item.meaning scope))) :
    ExpandsTo Answer serve handOver kept (expand scope (fuel + 1) level value)
      ((Template.vector items value).meaning scope) := by
  intro next other alike machine isKept keeps
  obtain ⟨address, rfl, found, _⟩ := reads machine.store isKept
  have isMeaning :
      ((Template.vector items (.vector address)).meaning scope).bind other =
        (Template.meaningOfItems scope items).bind fun values =>
          (perform (StoreM.change (Store.newVector values.toArray))).bind other := by
    rw [Template.meaning]
    exact Script.bind_assoc _ _ _
  rw [isMeaning] at keeps ⊢
  conv_lhs => unfold expand
  simp only [Script.view, bind, Script.bind, Script.run, Store.mark?, Store.vectorAt, found,
    Option.getD_some]
  refine run_collect expands ?_ isKept keeps
  exact alike.make grown fun values store => Store.grows_newVector _ store

/-- With enough fuel the template is expanded to what it stands for, by itself and in a list. -/
structure IsExpanded
    (Answer : Type)
    (serve : Request → Run Value)
    (handOver : Step → Run Step)
    (kept : Store → Prop)
    (scope : Scope)
    (level : Nat)
    (template : Template) : Prop where
  whole :
    ∀ fuel,
      3 * template.height + 1 ≤ fuel →
      ExpandsTo Answer serve handOver kept (expand scope fuel level template.value)
        (template.meaning scope)
  list :
    ∀ fuel,
      3 * template.height + 2 ≤ fuel →
      ListExpandsTo Answer serve handOver kept
        (fun sofar => expandList scope fuel level sofar template.value) (template.meaning scope)

/-- Only of pairs lists are walked over; all other templates are expanded as the end of one. -/
theorem isExpanded_of_whole
    {level : Nat}
    {template : Template}
    (reads : ∀ store, kept store → store.Reads level template)
    (notPair : ∀ head tail value, template ≠ .pair head tail value)
    (whole :
      ∀ fuel,
        3 * template.height + 1 ≤ fuel + 1 →
        ExpandsTo Answer serve handOver kept (expand scope (fuel + 1) level template.value)
          (template.meaning scope)) :
    IsExpanded Answer serve handOver kept scope level template where
  whole fuel enough := by
    obtain ⟨fuel, rfl⟩ : ∃ less, fuel = less + 1 := ⟨fuel - 1, by omega⟩
    exact whole fuel enough
  list fuel enough := by
    obtain ⟨fuel, rfl⟩ : ∃ less, fuel = less + 2 := ⟨fuel - 2, by omega⟩
    refine (whole fuel (by omega)).list fun store isKept => ?_
    exact (reads store isKept).listPair?_eq_none notPair

mutual

/-- With enough fuel a template is expanded to what it stands for. -/
theorem isExpanded
    (grown : ∀ {before after : Store}, kept before → before.Grows after → kept after)
    (template : Template)
    {level : Nat}
    (reads : ∀ store, kept store → store.Reads level template) :
    IsExpanded Answer serve handOver kept scope level template := by
  match template with
  | .constant value =>
      refine isExpanded_of_whole reads nofun fun fuel _ next other alike machine isKept => ?_
      exact expandsTo_constant (reads _ isKept) alike isKept
  | .identifier name value =>
      refine isExpanded_of_whole reads nofun fun fuel _ next other alike machine isKept => ?_
      exact expandsTo_identifier (reads _ isKept) alike isKept
  | .unquoted form value =>
      refine isExpanded_of_whole reads nofun fun fuel _ next other alike machine isKept keeps => ?_
      obtain ⟨rfl, hasMark⟩ := reads _ isKept
      refine (run_expand_unquoted hasMark.mark?_eq next).trans ?_
      exact expandsTo_evaluate form alike isKept keeps
  | .spliced form value =>
      refine isExpanded_of_whole reads nofun fun fuel _ next other alike machine isKept keeps => ?_
      obtain ⟨rfl, hasMark⟩ := reads _ isKept
      refine (run_expand_misplaced hasMark.mark?_eq next).trans ?_
      rw [← Script.bind_failTelling]
      rfl
  | .marked mark inner value =>
      have readsInner := fun store isKept => (reads store isKept).2.2
      refine isExpanded_of_whole reads nofun fun fuel enough => ?_
      rw [Template.height] at enough
      exact ((isExpanded grown inner readsInner).whole fuel (by omega)).marked grown reads
  | .pair head tail value =>
      have readsHead := fun store isKept => (reads store isKept).2.2.1
      have expandsHead := isExpanded grown head readsHead
      have expandsTail := isExpanded grown tail fun store isKept => (reads store isKept).2.2.2
      by_cases isPair : ∃ address, value = .pair address
      · obtain ⟨address, rfl⟩ := isPair
        have expandsList {fuel : Nat} (enough : 3 * max head.height tail.height + 3 ≤ fuel) :
            ListExpandsTo Answer serve handOver kept
              (fun sofar => expandList scope fuel level sofar (.pair address))
              ((Template.pair head tail (.pair address)).meaning scope) := by
          obtain ⟨fuel, rfl⟩ : ∃ less, fuel = less + 2 := ⟨fuel - 2, by omega⟩
          exact .pair reads ((expandsHead.whole fuel (by omega)).item readsHead)
            (expandsTail.list (fuel + 1) (by omega))
        constructor
        · intro fuel enough
          rw [Template.height] at enough
          obtain ⟨fuel, rfl⟩ : ∃ less, fuel = less + 1 := ⟨fuel - 1, by omega⟩
          exact (expandsList (by omega)).expandsTo grown reads
        · intro fuel enough
          rw [Template.height] at enough
          exact expandsList (by omega)
      · have nothingKept {store : Store} (isKept : kept store) : False := by
          obtain ⟨_, ⟨address, same, _⟩, _⟩ := reads store isKept
          exact isPair ⟨address, same⟩
        exact ⟨fun _ _ _ _ _ _ isKept => (nothingKept isKept).elim,
          fun _ _ _ _ _ _ _ isKept => (nothingKept isKept).elim⟩
  | .vector items value =>
      have readItems : ∀ store, kept store → store.ReadAll level items := by
        intro store isKept
        obtain ⟨_, _, _, readItems⟩ := reads store isKept
        exact readItems
      refine isExpanded_of_whole reads nofun fun fuel enough => ExpandsTo.vector grown reads ?_
      rw [Template.height] at enough
      exact fun item member => areExpanded grown items readItems item member fuel (by omega)

theorem areExpanded
    (grown : ∀ {before after : Store}, kept before → before.Grows after → kept after)
    (templates : List Template)
    {level : Nat}
    (readAll : ∀ store, kept store → store.ReadAll level templates) :
    ∀ item ∈ templates,
      ∀ fuel,
        3 * Template.heightOfAll templates + 2 ≤ fuel →
        ExpandsTo Answer serve handOver kept (expandItem scope fuel level item.value)
          (item.itemMeaning scope (item.meaning scope)) := by
  match templates with
  | [] => exact nofun
  | template :: rest =>
      have readsFirst := fun store isKept => (readAll store isKept).1
      have expandsFirst := isExpanded grown template readsFirst
      have expandsRest := areExpanded grown rest fun store isKept => (readAll store isKept).2
      intro item member fuel enough
      rw [Template.heightOfAll] at enough
      rcases List.mem_cons.mp member with rfl | member
      · obtain ⟨fuel, rfl⟩ : ∃ less, fuel = less + 1 := ⟨fuel - 1, by omega⟩
        exact (expandsFirst.whole fuel (by omega)).item readsFirst
      · exact expandsRest item member fuel (by omega)

end

end Templates

end Quasiquotation

end SmallScheme
