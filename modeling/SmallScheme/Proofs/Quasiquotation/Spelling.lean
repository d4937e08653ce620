import SmallScheme.Proofs.Quasiquotation.Meaning

namespace SmallScheme

/-!
# Templates that are spelled in other ways

A mark may be abbreviated, or it is spelled as a list of its keyword and the marked form.  What a
template stands for does not depend on it, but for one text: who asks for items where only one value
fits is shown the part as it is spelled.
-/

namespace Store

open Quasiquotation (Template)

mutual

/-- The value is like the template, with marks that may be spelled in other ways. -/
def IsSpelled (store : Store) : Template → Value → Prop
  | .constant own, value => value = own
  | .identifier _ own, value => value = own
  | .unquoted form _, value => store.HasMark value .unquote form
  | .spliced form _, value => store.HasMark value .unquoteSplicing form
  | .marked mark inner _, value =>
      ∃ innerValue, store.HasMark value mark innerValue ∧ IsSpelled store inner innerValue
  | .pair head tail _, value =>
      ∃ address headValue tailValue,
        value = .pair address ∧ store.pairs[address]? = some ⟨headValue, tailValue⟩ ∧
          IsSpelled store head headValue ∧ IsSpelled store tail tailValue
  | .vector items _, value =>
      ∃ address values,
        value = .vector address ∧ store.vectors[address]? = some (List.toArray values) ∧
          AreSpelled store items values

def AreSpelled (store : Store) : List Template → List Value → Prop
  | [], values => values = []
  | item :: rest, values =>
      ∃ value others, values = value :: others ∧ IsSpelled store item value ∧
        AreSpelled store rest others

end

variable
  {store : Store}
  {level : Nat}

/-- An identifier is spelled in one way only. -/
theorem IsSpelled.of_identifier
    {template : Template}
    {value : Value}
    {name : String}
    (reads : store.Reads level template)
    (isSpelled : store.IsSpelled template value)
    (identified : value.identifier? = some name) :
    template.value = value := by
  have noMark {mark : Mark} {inner : Value} (hasMark : store.HasMark value mark inner) : False := by
    cases hasMark <;> cases identified
  cases template with
  | constant own => exact isSpelled.symm
  | identifier own value => exact isSpelled.symm
  | unquoted form own => exact (noMark isSpelled).elim
  | «spliced» form own => exact (noMark isSpelled).elim
  | marked mark inner own =>
      obtain ⟨_, hasMark, _⟩ := isSpelled
      exact (noMark hasMark).elim
  | pair head tail own =>
      obtain ⟨_, _, _, rfl, _⟩ := isSpelled
      cases identified
  | vector items own =>
      obtain ⟨_, _, rfl, _⟩ := isSpelled
      cases identified

/-- So is the empty list. -/
theorem IsSpelled.of_nil
    {template : Template}
    (isSpelled : store.IsSpelled template .nil) :
    template.value = .nil := by
  cases template with
  | constant own => exact isSpelled.symm
  | identifier own value => exact isSpelled.symm
  | unquoted form own => cases isSpelled
  | «spliced» form own => cases isSpelled
  | marked mark inner own =>
      obtain ⟨_, hasMark, _⟩ := isSpelled
      cases hasMark
  | pair head tail own => obtain ⟨_, _, _, same, _⟩ := isSpelled; cases same
  | vector items own => obtain ⟨_, _, same, _⟩ := isSpelled; cases same

/-- A list of one item has been one before. -/
theorem IsSpelled.of_single
    {template : Template}
    {address : Nat}
    {inner : Value}
    (reads : store.Reads level template)
    (isSpelled : store.IsSpelled template (.pair address))
    (found : store.pairs[address]? = some ⟨inner, .nil⟩) :
    ∃ rest innerBefore,
      template.value = .pair rest ∧ store.pairs[rest]? = some ⟨innerBefore, .nil⟩ := by
  have noMark {mark : Mark} {inner : Value}
      (hasMark : store.HasMark (.pair address) mark inner) :
      False := by
    cases hasMark with
    | spelled foundAgain _ _ => cases found.symm.trans foundAgain
  cases template with
  | constant own =>
      cases isSpelled
      exact reads.elim
  | identifier name own =>
      cases isSpelled
      cases reads
  | unquoted form own => exact (noMark isSpelled).elim
  | «spliced» form own => exact (noMark isSpelled).elim
  | marked mark inner own =>
      obtain ⟨_, hasMark, _⟩ := isSpelled
      exact (noMark hasMark).elim
  | pair head tail own =>
      obtain ⟨_, ⟨rest, rfl, foundRest⟩, _⟩ := reads
      obtain ⟨_, _, _, same, foundAgain, _, spelledTail⟩ := isSpelled
      cases same
      cases found.symm.trans foundAgain
      rw [spelledTail.of_nil] at foundRest
      exact ⟨rest, head.value, rfl, foundRest⟩
  | vector items own =>
      obtain ⟨_, _, same, _⟩ := isSpelled
      cases same

/-- A list without a mark has no mark either when its items are spelled in other ways. -/
theorem IsSpelled.unmarked
    {head tail : Template}
    {value : Value}
    {address : Nat}
    {headValue tailValue : Value}
    (reads : store.Reads level (.pair head tail value))
    (found : store.pairs[address]? = some ⟨headValue, tailValue⟩)
    (spelledHead : store.IsSpelled head headValue)
    (spelledTail : store.IsSpelled tail tailValue)
    (mark : Mark)
    (inner : Value) :
    ¬store.HasMark (.pair address) mark inner := by
  intro hasMark
  obtain ⟨unmarked, ⟨own, rfl, foundOwn⟩, readsHead, readsTail⟩ := reads
  cases hasMark with
  | spelled foundAgain named foundRest =>
      cases found.symm.trans foundAgain
      have identified : headValue.identifier? = some mark.keyword := of_decide_eq_true named
      have sameHead := spelledHead.of_identifier readsHead identified
      obtain ⟨rest, innerBefore, isRest, foundBefore⟩ := spelledTail.of_single readsTail foundRest
      rw [sameHead, isRest] at foundOwn
      exact unmarked mark innerBefore (.spelled foundOwn named foundBefore)

end Store

namespace Quasiquotation

variable
  {store : Store}

/-! Scripts that differ in how they show a part. -/

/--
The outcomes are the same, or items were asked for where only one value fits and each outcome shows
its own spelling of the part.
-/
def OutcomesAlike
    {Answer : Type}
    (serve : Request → Run Value)
    (handOver : Step → Run Step)
    (store : Store)
    (first second : Option (Except Unwind Answer × Machine)) : Prop :=
  first = second ∨
    ∃ part other form ready,
      store.HasMark part .unquoteSplicing form ∧ store.HasMark other .unquoteSplicing form ∧
        first =
          (Script.failTelling part fun text => .evaluation (.splicePlace text)).run serve handOver
            ready ∧
        second =
          (Script.failTelling other fun text => .evaluation (.splicePlace text)).run serve handOver
            ready

/-- Whatever follows, the scripts have outcomes that are alike. -/
def EndAlike
    {Found : Type}
    (store : Store)
    (first second : Script Found) : Prop :=
  ∀ ⦃Answer : Type⦄
    ⦃serve : Request → Run Value⦄
    ⦃handOver : Step → Run Step⦄
    ⦃next other : Found → Script Answer⦄,
    (∀ found machine,
      OutcomesAlike serve handOver store ((next found).run serve handOver machine)
        ((other found).run serve handOver machine)) →
    ∀ machine,
      OutcomesAlike serve handOver store ((first.bind next).run serve handOver machine)
        ((second.bind other).run serve handOver machine)

theorem EndAlike.refl
    {Found : Type}
    (script : Script Found) :
    EndAlike store script script := by
  intro Answer serve handOver next other alike machine
  induction script generalizing machine with
  | done found => exact alike found machine
  | unwind reason => exact .inl rfl
  | viewing look continuation inductionHypothesis => exact inductionHypothesis _ _
  | acting action continuation inductionHypothesis => exact inductionHypothesis _ _
  | switching change continuation inductionHypothesis => exact inductionHypothesis _ _
  | asking request continuation inductionHypothesis =>
      simp only [Script.bind, Script.run]
      split
      · exact .inl rfl
      · exact inductionHypothesis _ _
  | deferring step continuation inductionHypothesis =>
      simp only [Script.bind, Script.run]
      split
      · exact .inl rfl
      · exact inductionHypothesis _ _

theorem EndAlike.bind
    {First Second : Type}
    {first second : Script First}
    {next other : First → Script Second}
    (alike : EndAlike store first second)
    (nextAlike : ∀ found, EndAlike store (next found) (other found)) :
    EndAlike store (first.bind next) (second.bind other) := by
  intro Answer serve handOver further last alikeLast machine
  rw [Script.bind_assoc, Script.bind_assoc]
  exact alike (fun found machine => nextAlike found alikeLast machine) machine

theorem EndAlike.outcomes
    {Found : Type}
    {first second : Script Found}
    (alike : EndAlike store first second)
    (serve : Request → Run Value)
    (handOver : Step → Run Step)
    (machine : Machine) :
    OutcomesAlike serve handOver store (first.run serve handOver machine)
      (second.run serve handOver machine) := by
  rw [← Script.bind_done first, ← Script.bind_done second]
  exact alike (fun _ _ => .inl rfl) machine

theorem endAlike_misplaced
    {Found : Type}
    {part other form : Value}
    (hasMark : store.HasMark part .unquoteSplicing form)
    (hasMarkOther : store.HasMark other .unquoteSplicing form) :
    EndAlike store
      (Script.failTelling part fun text => .evaluation (.splicePlace text) : Script Found)
      (Script.failTelling other fun text => .evaluation (.splicePlace text)) := by
  intro Answer serve handOver next further _ machine
  rw [Script.bind_failTelling, Script.bind_failTelling]
  exact .inr ⟨part, other, form, machine, hasMark, hasMarkOther, rfl, rfl⟩

/-! Templates. -/

/-- The second template is as high as the first one and stands for the same. -/
structure StandsAlike (store : Store) (first second : Template) : Prop where
  height : second.height = first.height
  meaning : ∀ scope, EndAlike store (first.meaning scope) (second.meaning scope)
  item :
    ∀ scope,
      EndAlike store (first.itemMeaning scope (first.meaning scope))
        (second.itemMeaning scope (second.meaning scope))

/-- Apart from items that are spliced in, items are what templates stand for. -/
theorem StandsAlike.of_meaning
    {first second : Template}
    (firstWhole : ∀ form value, first ≠ .spliced form value)
    (secondWhole : ∀ form value, second ≠ .spliced form value)
    (height : second.height = first.height)
    (meaning : ∀ scope, EndAlike store (first.meaning scope) (second.meaning scope)) :
    StandsAlike store first second where
  height := height
  meaning := meaning
  item scope := by
    rw [Template.itemMeaning_eq firstWhole, Template.itemMeaning_eq secondWhole]
    exact (meaning scope).bind fun value => .refl _

mutual

/-- A template that is spelled in another way is read as one that stands for the same. -/
theorem exists_standsAlike
    (template : Template)
    {level : Nat}
    {value : Value}
    (reads : store.Reads level template)
    (isSpelled : store.IsSpelled template value) :
    ∃ other : Template,
      other.value = value ∧ store.Reads level other ∧ StandsAlike store template other := by
  match template with
  | .constant own =>
      obtain rfl := isSpelled
      exact ⟨.constant _, rfl, reads, rfl, fun _ => .refl _, fun _ => .refl _⟩
  | .identifier name own =>
      obtain rfl := isSpelled
      exact ⟨.identifier name _, rfl, reads, rfl, fun _ => .refl _, fun _ => .refl _⟩
  | .unquoted form own =>
      exact ⟨.unquoted form value, rfl, ⟨reads.1, isSpelled⟩, rfl, fun _ => .refl _,
        fun _ => .refl _⟩
  | .spliced form own =>
      refine ⟨.spliced form value, rfl, ⟨reads.1, isSpelled⟩, rfl, fun _ => ?_, fun _ => .refl _⟩
      exact endAlike_misplaced reads.2 isSpelled
  | .marked mark inner own =>
      obtain ⟨levels, _, readsInner⟩ := reads
      obtain ⟨innerValue, hasMark, spelledInner⟩ := isSpelled
      obtain ⟨other, rfl, readsOther, alike⟩ := exists_standsAlike inner readsInner spelledInner
      refine ⟨.marked mark other value, rfl, ⟨levels, hasMark, readsOther⟩,
        .of_meaning (fun _ _ => nofun) (fun _ _ => nofun) ?_ ?_⟩
      · rw [Template.height, Template.height, alike.height]
      · intro scope
        rw [Template.meaning, Template.meaning]
        exact (alike.meaning scope).bind fun datum => .refl _
  | .pair head tail own =>
      have whole := reads
      obtain ⟨_, _, readsHead, readsTail⟩ := reads
      obtain ⟨address, _, _, rfl, found, spelledHead, spelledTail⟩ := isSpelled
      obtain ⟨otherHead, rfl, readsOtherHead, headAlike⟩ :=
        exists_standsAlike head readsHead spelledHead
      obtain ⟨otherTail, rfl, readsOtherTail, tailAlike⟩ :=
        exists_standsAlike tail readsTail spelledTail
      have unmarked := spelledHead.unmarked whole found spelledTail
      refine ⟨.pair otherHead otherTail (.pair address), rfl,
        ⟨unmarked, ⟨address, rfl, found⟩, readsOtherHead, readsOtherTail⟩,
        .of_meaning (fun _ _ => nofun) (fun _ _ => nofun) ?_ ?_⟩
      · rw [Template.height, Template.height, headAlike.height, tailAlike.height]
      · intro scope
        rw [Template.meaning, Template.meaning]
        exact (headAlike.item scope).bind fun items =>
          (tailAlike.meaning scope).bind fun ending => .refl _
  | .vector items own =>
      obtain ⟨_, _, _, readAll⟩ := reads
      obtain ⟨address, values, rfl, found, areSpelled⟩ := isSpelled
      obtain ⟨others, rfl, readOthers, height, alike⟩ :=
        exists_standAlike items readAll areSpelled
      refine ⟨.vector others (.vector address), rfl, ⟨address, rfl, found, readOthers⟩,
        .of_meaning (fun _ _ => nofun) (fun _ _ => nofun) ?_ ?_⟩
      · rw [Template.height, Template.height, height]
      · intro scope
        rw [Template.meaning, Template.meaning]
        exact (alike scope).bind fun values => .refl _

theorem exists_standAlike
    (templates : List Template)
    {level : Nat}
    {values : List Value}
    (readAll : store.ReadAll level templates)
    (areSpelled : store.AreSpelled templates values) :
    ∃ others : List Template,
      others.map Template.value = values ∧ store.ReadAll level others ∧
        Template.heightOfAll others = Template.heightOfAll templates ∧
        ∀ scope,
          EndAlike store (Template.meaningOfItems scope templates)
            (Template.meaningOfItems scope others) := by
  match templates with
  | [] =>
      obtain rfl := areSpelled
      exact ⟨[], rfl, trivial, rfl, fun _ => .refl _⟩
  | template :: rest =>
      obtain ⟨_, _, rfl, isSpelled, restSpelled⟩ := areSpelled
      obtain ⟨other, rfl, readsOther, alike⟩ := exists_standsAlike template readAll.1 isSpelled
      obtain ⟨others, rfl, readOthers, height, restAlike⟩ :=
        exists_standAlike rest readAll.2 restSpelled
      refine ⟨other :: others, rfl, ⟨readsOther, readOthers⟩, ?_, ?_⟩
      · rw [Template.heightOfAll, Template.heightOfAll, alike.height, height]
      · intro scope
        rw [Template.meaningOfItems, Template.meaningOfItems]
        exact (alike.item scope).bind fun first =>
          (restAlike scope).bind fun others => .refl _

end

end Quasiquotation

end SmallScheme
