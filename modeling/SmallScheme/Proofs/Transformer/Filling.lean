import SmallScheme.Proofs.Store.Likeness
import SmallScheme.Proofs.Transformer.Instance

namespace SmallScheme

/-!
# Filling patterns

A pattern is a template as well.  Captures that give each of its variables a finite form, and all
variables of a repeated item as many repetitions, are what filling it needs; it then succeeds and
makes the instance of the pattern under these captures.
-/

namespace Form

mutual

/-- The captures have what the pattern needs, forms of the store. -/
def IsShaped
    (literals : List String)
    (store : Store) : Form → Captures → Prop
  | .atom _, _ => True
  | .identifier name _, captures =>
      isVariable literals name →
        ∃ form, captures.lookup name = some (.one form) ∧ store.IsFinite form
  | .list items tail _, captures =>
      AreShaped literals store items captures ∧ IsShaped literals store tail captures
  | .vector items _, captures => AreShaped literals store items captures
  | .marked _ inner _, captures => IsShaped literals store inner captures

def AreShaped
    (literals : List String)
    (store : Store) : List Form → Captures → Prop
  | [], _ => True
  | [item], captures => IsShaped literals store item captures
  | item :: next :: rest, captures =>
      if next.isNamed Capture.ellipsis then
        (∃ count,
            captures.Repeats (item.variables literals []) count ∧
              ∀ index < count,
                IsShaped literals store item
                  (captures.repetition (item.variables literals []) index)) ∧
          AreShaped literals store rest captures
      else
        IsShaped literals store item captures ∧ AreShaped literals store (next :: rest) captures

end

/-- The captures are of the variables of the pattern, of the shape that it needs. -/
structure IsBoundBy
    (literals : List String)
    (store : Store)
    (pattern : Form)
    (captures : Captures) : Prop where
  names : ∀ {name : String}, name ∉ pattern.occurrences literals → captures.lookup name = none
  shape : pattern.IsShaped literals store captures

/-- A variable is filled with a finite form of the store. -/
def IsFilledWith
    (store : Store)
    (capture : Capture)
    (form : Value) : Prop :=
  capture = .one form ∧ store.IsFinite form

variable
  {literals : List String}
  {store : Store}
  {captures : Captures}

mutual

/-- What occurs in a form as a variable is one. -/
theorem isVariable_of_mem_occurrences
    {form : Form}
    {name : String}
    (occurs : name ∈ form.occurrences literals) :
    isVariable literals name := by
  match form with
  | .atom value => cases occurs
  | .identifier own value =>
      unfold occurrences at occurs
      split at occurs
      case isTrue holds =>
        rw [List.mem_singleton.mp occurs]
        exact holds
      case isFalse => cases occurs
  | .list items tail value =>
      rcases List.mem_append.mp occurs with inItems | inTail
      · exact isVariable_of_mem_allOccurrences inItems
      · exact isVariable_of_mem_occurrences inTail
  | .vector items value => exact isVariable_of_mem_allOccurrences occurs
  | .marked mark inner value =>
      have inInner : name ∈ inner.occurrences literals := occurs
      exact isVariable_of_mem_occurrences inInner

/-- What occurs in forms as a variable is one. -/
theorem isVariable_of_mem_allOccurrences
    {items : List Form}
    {name : String}
    (occurs : name ∈ allOccurrences literals items) :
    isVariable literals name := by
  match items with
  | [] => cases occurs
  | item :: rest =>
      rcases List.mem_append.mp occurs with inItem | inRest
      · exact isVariable_of_mem_occurrences inItem
      · exact isVariable_of_mem_allOccurrences inRest

end

/-! Sequences. -/

/-- Captures are shaped like items if they are shaped like the first and like the rest. -/
theorem areShaped_cons
    {item : Form}
    {rest : List Form}
    (notFollowed : NoEllipsis rest.head?.toList) :
    AreShaped literals store (item :: rest) captures ↔
      item.IsShaped literals store captures ∧ AreShaped literals store rest captures := by
  match rest with
  | [] => exact (and_iff_left trivial).symm
  | next :: rest =>
      have plain : ¬next.isNamed Capture.ellipsis := notFollowed next (by simp)
      rw [AreShaped, if_neg plain]

/-- An item without an ellipsis is filled before the rest. -/
theorem fillItems_cons
    {setting : TemplateSetting}
    {item : Form}
    {rest : List Form}
    (plain : ¬item.isNamed Capture.ellipsis)
    (notFollowed : NoEllipsis rest.head?.toList) :
    fillItems setting (item :: rest) captures = do
      let filled ← item.fill setting captures
      let others ← fillItems setting rest captures
      return filled :: others := by
  match rest with
  | [] =>
      unfold fillItems
      rw [if_neg plain]
      rfl
  | next :: rest =>
      have plainNext : ¬next.isNamed Capture.ellipsis := notFollowed next (by simp)
      rw [fillItems, if_neg plain, if_neg plainNext]

/-- An item whose variables all have as many repetitions is filled once for each. -/
theorem fillRepeated_of_repeats
    {fill : Captures → StoreM Value}
    {item : Form}
    (occurs : item.occurrences literals ≠ [])
    {count : Nat}
    (repeats : captures.Repeats (item.variables literals []) count) :
    fillRepeated fill item literals captures =
      (List.range count).mapM fun index =>
        fill (captures.repetition (item.variables literals []) index) := by
  have sizes : ∀ repeated ∈ captures.repeatedVariables (item.variables literals []),
      repeated.2.size = count := by
    intro repeated among
    obtain ⟨name, member, found⟩ := List.mem_filterMap.mp among
    obtain ⟨each, foundEach, size⟩ := repeats name member
    rw [foundEach] at found
    cases found
    exact size
  have nonempty : captures.repeatedVariables (item.variables literals []) ≠ [] := by
    obtain ⟨name, occurs⟩ := List.exists_mem_of_ne_nil _ occurs
    have member := (mem_variables item [] name).mpr (.inr occurs)
    obtain ⟨each, found, _⟩ := repeats name member
    have among :
        (name, each.toArray) ∈ captures.repeatedVariables (item.variables literals []) :=
      List.mem_filterMap.mpr ⟨name, member, by rw [found]⟩
    exact List.ne_nil_of_mem among
  unfold fillRepeated Captures.repetition
  cases found : captures.repeatedVariables (item.variables literals []) with
  | nil => exact (nonempty found).elim
  | cons first others =>
      rw [found] at sizes
      obtain ⟨size, sizeOthers⟩ := List.forall_mem_cons.mp sizes
      dsimp only
      rw [if_pos, size]
      refine List.all_eq_true.mpr fun repeated among => ?_
      exact decide_eq_true ((sizeOthers repeated among).trans size.symm)

/-- The pattern is filled in every store that has grown from the one of the captured forms. -/
def IsFillable
    (setting : TemplateSetting)
    (origin : Store)
    (pattern : Form) : Prop :=
  ∀ {captures : Captures} {before : Store},
    (∀ name, ¬isVariable setting.literals name → captures.lookup name = none) →
    pattern.IsShaped setting.literals origin captures →
    ∃ copy after,
      pattern.fill setting captures before = (.ok copy, after) ∧ before.Grows after ∧
        pattern.Fits setting.literals (IsFilledWith origin) after captures copy

section Sequences

variable
  {setting : TemplateSetting}
  {origin : Store}

/-- A repeated item is filled once for each of its captures, and gives back the forms. -/
theorem fill_repeatedly
    {item : Form}
    (reversible : item.IsReversible setting.literals)
    (fillable : item.IsFillable setting origin)
    (occurs : item.occurrences setting.literals ≠ [])
    (unbound : ∀ name, ¬isVariable setting.literals name → captures.lookup name = none)
    {count : Nat}
    (repeats : captures.Repeats (item.variables setting.literals []) count)
    (shaped :
      ∀ index < count,
        item.IsShaped setting.literals origin
          (captures.repetition (item.variables setting.literals []) index))
    (before : Store) :
    ∃ copies after,
      fillRepeated (fun captures => item.fill setting captures) item setting.literals captures
          before = (.ok copies, after) ∧
        before.Grows after ∧
        FitRepeatedly (item.Fits setting.literals (IsFilledWith origin) after)
          (item.variables setting.literals []) captures copies := by
  rw [fillRepeated_of_repeats occurs repeats]
  have each :
      ∀ index ∈ List.range count, ∀ between,
        ∃ copy after,
          item.fill setting (captures.repetition (item.variables setting.literals []) index)
              between = (.ok copy, after) ∧
            between.Grows after ∧
            item.Fits setting.literals (IsFilledWith origin) after
              (captures.repetition (item.variables setting.literals []) index) copy := by
    intro index member between
    refine fillable (fun name special => ?_) (shaped index (List.mem_range.mp member))
    rw [Captures.lookup_repetition_of_not_mem]
    · exact unbound name special
    · intro among
      have occurs := ((mem_variables item [] name).mp among).resolve_left List.not_mem_nil
      exact special (isVariable_of_mem_occurrences occurs)
  obtain ⟨copies, after, ran, grows, fits⟩ := StoreM.mapM_total
    (fun store index copy =>
      item.Fits setting.literals (IsFilledWith origin) store
        (captures.repetition (item.variables setting.literals []) index) copy)
    each (fun grows fits => reversible.fits_congr grows (fun _ _ => rfl) fits) before
  have size : copies.length = count := by rw [← fits.length_eq, List.length_range]
  exact ⟨copies, after, ran, grows, size ▸ repeats, size ▸ fits⟩

/-- Items before others, none of them followed by an ellipsis, are filled first. -/
theorem fill_before
    {items others : List Form}
    (plain : NoEllipsis items)
    (notFollowed : NoEllipsis others.head?.toList)
    (reversible : ∀ item ∈ items, item.IsReversible setting.literals)
    (fillable : ∀ item ∈ items, item.IsFillable setting origin)
    (unbound : ∀ name, ¬isVariable setting.literals name → captures.lookup name = none)
    (shaped : AreShaped setting.literals origin (items ++ others) captures)
    (fillOthers :
      AreShaped setting.literals origin others captures →
      ∀ before, ∃ copies after,
        fillItems setting others captures before = (.ok copies, after) ∧ before.Grows after ∧
          AllFit setting.literals (IsFilledWith origin) after others captures copies)
    (before : Store) :
    ∃ copies after,
      fillItems setting (items ++ others) captures before = (.ok copies, after) ∧
        before.Grows after ∧
        AllFit setting.literals (IsFilledWith origin) after (items ++ others) captures copies := by
  induction items generalizing before with
  | nil => exact fillOthers shaped before
  | cons item items inductionHypothesis =>
      obtain ⟨plainItem, plainItems⟩ := List.forall_mem_cons.mp plain
      obtain ⟨reversibleItem, reversibleItems⟩ := List.forall_mem_cons.mp reversible
      obtain ⟨fillableItem, fillableItems⟩ := List.forall_mem_cons.mp fillable
      have notFollowedItem := NoEllipsis.head_append plainItems notFollowed
      rw [List.cons_append, areShaped_cons notFollowedItem] at shaped
      obtain ⟨copy, between, filled, growsItem, fits⟩ :=
        @fillableItem captures before unbound shaped.1
      obtain ⟨copies, after, filledItems, grows, allFit⟩ :=
        inductionHypothesis plainItems reversibleItems fillableItems shaped.2 between
      refine ⟨copy :: copies, after, ?_, growsItem.trans grows, ?_⟩
      · rw [List.cons_append, fillItems_cons plainItem notFollowedItem]
        exact StoreM.bind_eq_ok_iff.mpr
          ⟨copy, between, filled, StoreM.bind_eq_ok_iff.mpr ⟨copies, after, filledItems, rfl⟩⟩
      · rw [List.cons_append, allFit_cons notFollowedItem]
        exact ⟨copy, copies, rfl, reversibleItem.fits_congr grows (fun _ _ => rfl) fits, allFit⟩

/-- Items without an ellipsis are filled one by one, and give back the forms. -/
theorem fill_each
    {items : List Form}
    (plain : NoEllipsis items)
    (reversible : ∀ item ∈ items, item.IsReversible setting.literals)
    (fillable : ∀ item ∈ items, item.IsFillable setting origin)
    (unbound : ∀ name, ¬isVariable setting.literals name → captures.lookup name = none)
    (shaped : AreShaped setting.literals origin items captures)
    (before : Store) :
    ∃ copies after,
      fillItems setting items captures before = (.ok copies, after) ∧ before.Grows after ∧
        AllFit setting.literals (IsFilledWith origin) after items captures copies := by
  have alone : NoEllipsis [] := fun _ member => nomatch member
  have filled := fill_before plain alone.head reversible fillable unbound
    (by rwa [List.append_nil]) (fun _ before => ⟨[], before, rfl, .refl _, rfl⟩) before
  rwa [List.append_nil] at filled

/-- The items of a sequence are filled with their captures, and give back the forms. -/
theorem fill_items
    {items : List Form}
    (sequence : IsSequence setting.literals items)
    (reversible :
      ∀ item ∈ items, ¬item.isNamed Capture.ellipsis → item.IsReversible setting.literals)
    (fillable : ∀ item ∈ items, ¬item.isNamed Capture.ellipsis → item.IsFillable setting origin)
    (unbound : ∀ name, ¬isVariable setting.literals name → captures.lookup name = none)
    (shaped : AreShaped setting.literals origin items captures)
    (before : Store) :
    ∃ copies after,
      fillItems setting items captures before = (.ok copies, after) ∧ before.Grows after ∧
        AllFit setting.literals (IsFilledWith origin) after items captures copies := by
  cases sequence with
  | plain plain =>
      exact fill_each plain (plain.all reversible) (plain.all fillable) unbound shaped before
  | @repeating head rest repeated dots plainHead plainRepeated occurs isDots plainRest =>
      obtain ⟨reversibleHead, reversibleRepeated, reversibleRest⟩ :=
        all_repeating plainHead plainRepeated plainRest reversible
      obtain ⟨fillableHead, fillableRepeated, fillableRest⟩ :=
        all_repeating plainHead plainRepeated plainRest fillable
      refine fill_before plainHead (noEllipsis_head_cons plainRepeated _) reversibleHead
        fillableHead unbound shaped (fun shaped before => ?_) before
      rw [AreShaped, if_pos isDots] at shaped
      obtain ⟨⟨count, repeats, shapedEach⟩, shapedRest⟩ := shaped
      obtain ⟨middle, between, filledMiddle, growsMiddle, fitMiddle⟩ :=
        fill_repeatedly reversibleRepeated fillableRepeated occurs unbound repeats shapedEach before
      obtain ⟨last, after, filledLast, growsLast, fitLast⟩ :=
        fill_each plainRest reversibleRest fillableRest unbound shapedRest between
      refine ⟨middle ++ last, after, ?_, growsMiddle.trans growsLast, ?_⟩
      · rw [fillItems, if_neg plainRepeated, if_pos isDots]
        exact StoreM.bind_eq_ok_iff.mpr ⟨middle, between, filledMiddle,
          StoreM.bind_eq_ok_iff.mpr ⟨last, after, filledLast, rfl⟩⟩
      · rw [AllFit, if_pos isDots]
        refine ⟨middle, last, rfl, ?_, fitLast⟩
        exact carry_repeatedly (reversibleRepeated.isCarried_of_grows growsLast)
          (fun _ _ => .of_eq rfl) fitMiddle (List.forall₂_eq_eq_eq ▸ rfl)

/-- A free identifier is put in under its own name, plain or scoped. -/
theorem freeIdentifier_identified
    {name : String}
    {value : Value}
    (identified : value.identifier? = some name)
    (store : Store) :
    (setting.freeIdentifier name value store).identifier? = some name := by
  unfold TemplateSetting.freeIdentifier
  split
  · exact identified
  · split
    · rfl
    · split <;> rfl

/-- What a pattern needs suffices to fill it, and what it is filled to is its instance. -/
theorem IsReversible.isFillable
    {pattern : Form}
    (reversible : pattern.IsReversible setting.literals)
    (unfolded : pattern.IsUnfolded)
    (origin : Store) :
    pattern.IsFillable setting origin := by
  induction reversible with
  | @atom value isExact =>
      intro captures before _ _
      exact ⟨value, before, rfl, .refl _, Store.alike_of_isExact isExact⟩
  | @capturing name value isVariable =>
      intro captures before _ shaped
      obtain ⟨form, found, finite⟩ := shaped isVariable
      refine ⟨form, before, ?_, .refl _, ?_⟩
      · rw [fill, found]
        rfl
      · rw [Fits, if_pos isVariable]
        exact ⟨.one form, found, trivial, rfl, finite⟩
  | @literal name value isLiteral _ =>
      intro captures before unbound _
      cases unfolded with
      | identifier identified =>
          have notVariable : ¬isVariable setting.literals name := by simp [isVariable, isLiteral]
          refine ⟨setting.freeIdentifier name value before, before, ?_, .refl _, ?_⟩
          · rw [fill, unbound name notVariable]
            rfl
          · rw [Fits, if_neg notVariable]
            exact freeIdentifier_identified identified before
  | list sequence reversible reversibleTail _ fillableItems fillableTail =>
      intro captures before unbound shaped
      cases unfolded with
      | list _ unfoldedItems unfoldedTail _ =>
          obtain ⟨copies, between, filledItems, growsItems, fitItems⟩ :=
            fill_items sequence reversible
              (fun item member plain => fillableItems item member plain (unfoldedItems item member))
              unbound shaped.1 before
          obtain ⟨ending, last, filledTail, growsTail, fitsTail⟩ :=
            @fillableTail unfoldedTail captures between unbound shaped.2
          obtain ⟨growsList, spells⟩ := Store.newListWithTail_spells copies ending last
          refine ⟨(last.newListWithTail copies ending).1, (last.newListWithTail copies ending).2,
            ?_, (growsItems.trans growsTail).trans growsList, ?_⟩
          · rw [fill]
            exact StoreM.bind_eq_ok_iff.mpr ⟨copies, between, filledItems,
              StoreM.bind_eq_ok_iff.mpr ⟨ending, last, filledTail, rfl⟩⟩
          · exact ⟨copies, ending, spells,
              allFit_congr sequence reversible (growsTail.trans growsList) (fun _ _ => rfl)
                fitItems,
              reversibleTail.fits_congr growsList (fun _ _ => rfl) fitsTail⟩
  | vector sequence reversible fillableItems =>
      intro captures before unbound shaped
      cases unfolded with
      | vector unfoldedItems =>
          obtain ⟨copies, between, filledItems, growsItems, fitItems⟩ :=
            fill_items sequence reversible
              (fun item member plain => fillableItems item member plain (unfoldedItems item member))
              unbound shaped before
          have growsVector := Store.grows_newVector copies.toArray between
          refine ⟨(between.newVector copies.toArray).1, (between.newVector copies.toArray).2, ?_,
            growsItems.trans growsVector, ?_⟩
          · rw [fill]
            exact StoreM.bind_eq_ok_iff.mpr ⟨copies, between, filledItems, rfl⟩
          · exact ⟨_, copies, rfl, Array.getElem?_push_size,
              allFit_congr sequence reversible growsVector (fun _ _ => rfl) fitItems⟩

end Sequences

/-! Captures under which there is an instance have the shape that filling needs. -/

section Shape

variable
  {origin : Store}
  {leaf : Capture → Value → Prop}

/-- Captures are shaped like two lists of items if they are shaped like both. -/
theorem areShaped_append
    {items others : List Form}
    (plain : NoEllipsis items)
    (notFollowed : NoEllipsis others.head?.toList) :
    AreShaped literals origin (items ++ others) captures ↔
      (∀ item ∈ items, item.IsShaped literals origin captures) ∧
        AreShaped literals origin others captures := by
  induction items with
  | nil => simp
  | cons item items inductionHypothesis =>
      have plainItems : NoEllipsis items := (List.forall_mem_cons.mp plain).2
      rw [List.cons_append, areShaped_cons (plainItems.head_append notFollowed),
        inductionHypothesis plainItems, List.forall_mem_cons, and_assoc]

/-- Captures are shaped like items without an ellipsis if they are shaped like each. -/
theorem areShaped_plain
    {items : List Form}
    (plain : NoEllipsis items) :
    AreShaped literals origin items captures ↔
      ∀ item ∈ items, item.IsShaped literals origin captures := by
  have alone : NoEllipsis [] := fun _ member => nomatch member
  have shaped := @areShaped_append literals captures origin items [] plain alone.head
  have nothing : AreShaped literals origin [] captures := trivial
  rwa [List.append_nil, and_iff_left nothing] at shaped

/-- Captures under which there is an instance of the pattern have the shape it needs. -/
def InstancesShape
    (literals : List String)
    (leaf : Capture → Value → Prop)
    (store origin : Store)
    (pattern : Form) : Prop :=
  ∀ {captures : Captures} {form : Value},
    pattern.Fits literals leaf store captures form → pattern.IsShaped literals origin captures

/-- Captures under which items are instances are shaped like the items. -/
theorem shaped_of_forall₂
    {items : List Form}
    {forms : List Value}
    (shape : ∀ item ∈ items, item.InstancesShape literals leaf store origin)
    (fits :
      List.Forall₂ (fun item form => item.Fits literals leaf store captures form) items forms) :
    ∀ item ∈ items, item.IsShaped literals origin captures := by
  induction fits with
  | nil => exact fun _ member => nomatch member
  | cons fitsItem _ inductionHypothesis =>
      obtain ⟨shapeItem, shapeItems⟩ := List.forall_mem_cons.mp shape
      exact List.forall_mem_cons.mpr ⟨shapeItem fitsItem, inductionHypothesis shapeItems⟩

/-- Captures under which a sequence is an instance are shaped like the sequence. -/
theorem shaped_items
    {items : List Form}
    (sequence : IsSequence literals items)
    (shape :
      ∀ item ∈ items, ¬item.isNamed Capture.ellipsis →
        item.InstancesShape literals leaf store origin)
    {forms : List Value}
    (fits : AllFit literals leaf store items captures forms) :
    AreShaped literals origin items captures := by
  cases sequence with
  | plain plain =>
      rw [allFit_plain plain] at fits
      rw [areShaped_plain plain]
      exact shaped_of_forall₂ (plain.all shape) fits
  | @repeating head rest repeated dots plainHead plainRepeated _ isDots plainRest =>
      rw [allFit_repeating plainHead plainRepeated isDots plainRest] at fits
      obtain ⟨start, middle, last, rfl, fitHead, ⟨repeats, fitEach⟩, fitRest⟩ := fits
      obtain ⟨shapeHead, shapeRepeated, shapeRest⟩ :=
        all_repeating plainHead plainRepeated plainRest shape
      rw [areShaped_append plainHead (noEllipsis_head_cons plainRepeated _), AreShaped,
        if_pos isDots, areShaped_plain plainRest]
      refine ⟨shaped_of_forall₂ shapeHead fitHead, ⟨_, repeats, fun index within => ?_⟩,
        shaped_of_forall₂ shapeRest fitRest⟩
      have fitsForm := fitEach.get (by rwa [List.length_range]) within
      simp only [List.get_eq_getElem, List.getElem_range] at fitsForm
      exact shapeRepeated fitsForm

/-- Captures under which a reversible pattern has an instance are shaped like the pattern. -/
theorem IsReversible.isShaped
    {pattern : Form}
    (reversible : pattern.IsReversible literals)
    (leaves :
      ∀ {capture : Capture} {form : Value},
        leaf capture form → ∃ value, capture = .one value ∧ origin.IsFinite value) :
    pattern.InstancesShape literals leaf store origin := by
  induction reversible with
  | atom _ =>
      intro _ _ _
      trivial
  | @capturing name value isVariable =>
      intro captures form fits _
      rw [Fits, if_pos isVariable] at fits
      obtain ⟨_, found, _, fits⟩ := fits
      obtain ⟨value, rfl, finite⟩ := leaves fits
      exact ⟨value, found, finite⟩
  | literal isLiteral _ =>
      intro _ _ _ isVariable
      exact ((isVariable_iff.mp isVariable).2.2 isLiteral).elim
  | list sequence _ _ _ shapedItems shapedTail =>
      rintro _ _ ⟨_, _, _, fitItems, fitsTail⟩
      exact ⟨shaped_items sequence shapedItems fitItems, shapedTail fitsTail⟩
  | vector sequence _ shapedItems =>
      rintro _ _ ⟨_, _, _, _, fitItems⟩
      exact shaped_items sequence shapedItems fitItems

end Shape

end Form

end SmallScheme
