import SmallScheme.Proofs.Store.Likeness
import SmallScheme.Proofs.Transformer.Matching

namespace SmallScheme

/-!
# Instances are matched

A finite form that is an instance of a pattern under any captures is matched by the pattern, and
what the match captures stands for what the variables were bound to.
-/

namespace Form

variable
  {store : Store}
  {literals : List String}
  {leaf : Capture → Value → Prop}

/-- The capture stands for a form that the other one may stand for. -/
def Regains
    (store : Store)
    (leaf : Capture → Value → Prop)
    (capture bound : Capture) : Prop :=
  ∃ form, capture.IsSettled store (.one form) ∧ leaf bound form

/-- Finite instances of the pattern are matched. -/
def IsComplete
    (store : Store)
    (literals : List String)
    (leaf : Capture → Value → Prop)
    (pattern : Form) : Prop :=
  (pattern.occurrences literals).Nodup →
    ∀ {form : Value} {bindings : Captures} (captures : Captures),
      store.IsFinite form →
      pattern.Fits literals leaf store bindings form →
      ∃ result,
        pattern.matchForm store literals form captures = some result ∧
          ∀ name ∈ pattern.occurrences literals,
            Captures.Agree (Regains store leaf) result bindings name

section Parts

variable {bindings : Captures}

theorem complete_each
    {items : List Form}
    (reversible : ∀ item ∈ items, item.IsReversible literals)
    (complete : ∀ item ∈ items, item.IsComplete store literals leaf)
    (distinct : (allOccurrences literals items).Nodup)
    {forms : List Value}
    (finite : ∀ form ∈ forms, store.IsFinite form)
    (fits : List.Forall₂ (fun item form => item.Fits literals leaf store bindings form) items forms)
    (captures : Captures) :
    ∃ result,
      matchEach store literals items forms captures = some result ∧
        ∀ name ∈ allOccurrences literals items,
          Captures.Agree (Regains store leaf) result bindings name := by
  induction fits generalizing captures with
  | nil => exact ⟨captures, rfl, fun _ member => nomatch member⟩
  | @cons item form items forms fitsItem fitItems inductionHypothesis =>
      obtain ⟨_, reversibleItems⟩ := List.forall_mem_cons.mp reversible
      obtain ⟨completeItem, completeItems⟩ := List.forall_mem_cons.mp complete
      obtain ⟨distinctItem, distinctItems, apart⟩ := List.nodup_append.mp distinct
      obtain ⟨finiteForm, finiteForms⟩ := List.forall_mem_cons.mp finite
      obtain ⟨between, matchedItem, agreeItem⟩ :=
        completeItem distinctItem captures finiteForm fitsItem
      obtain ⟨result, matchedItems, agreeItems⟩ :=
        inductionHypothesis reversibleItems completeItems distinctItems finiteForms between
      obtain ⟨extendsItems, _⟩ :=
        sound_each reversibleItems (fun item member => (reversibleItems item member).isSound)
          distinctItems finiteForms fitItems.length_eq.symm matchedItems
      refine ⟨result, ?_, fun name occurs => ?_⟩
      · rw [matchEach_cons, matchedItem]
        exact matchedItems
      · rcases List.mem_append.mp occurs with inItem | inItems
        · rw [Captures.Agree,
            extendsItems.outside name fun later => apart name inItem name later rfl]
          exact agreeItem name inItem
        · exact agreeItems name inItems

/-- The captures of all repetitions, put together, are the ones they were spread from. -/
theorem complete_repeatedly
    {item : Form}
    (complete : item.IsComplete store literals leaf)
    (distinct : (item.occurrences literals).Nodup)
    {forms : List Value}
    (finite : ∀ form ∈ forms, store.IsFinite form)
    (fits :
      FitRepeatedly (item.Fits literals leaf store) (item.variables literals []) bindings forms) :
    ∃ repetitions,
      matchRepeatedly store literals item forms repetitions ∧
        ∀ captures, ∀ name ∈ item.occurrences literals,
          Captures.Agree (Regains store leaf)
            (collectRepetitions (item.variables literals []) repetitions captures) bindings
            name := by
  obtain ⟨repeats, fitEach⟩ := fits
  -- Each repetition agrees with the bindings at its index, whatever the other ones capture.
  obtain ⟨repetitions, agreeEach, matched⟩ := forall₂_collect
    (fun index form member fitsForm => by
      obtain ⟨result, matched, agree⟩ := complete distinct [] (finite form member) fitsForm
      exact ⟨result, agree, matched⟩)
    fitEach
  refine ⟨repetitions, matched, fun captures name occurs => ?_⟩
  have among : name ∈ item.variables literals [] := (mem_variables item [] name).mpr (.inr occurs)
  obtain ⟨each, found, size⟩ := repeats name among
  have sizes : (repetitions.map (repetitionCapture name)).length = each.length := by
    rw [List.length_map, size, matched.length_eq]
  rw [Captures.Agree, lookup_collectRepetitions, if_pos among, found]
  refine .some (.many (List.forall₂_of_length_eq_of_get sizes fun index inCaptures inEach => ?_))
  have inForms : index < (List.range forms.length).length := by
    rwa [List.length_range, ← size]
  have inRepetitions : index < repetitions.length := agreeEach.length_eq ▸ inForms
  have agree := agreeEach.get inForms inRepetitions name occurs
  simp only [List.get_eq_getElem, List.getElem_range] at agree
  rw [Captures.Agree, Captures.lookup_repetition_of_mem _ among found inEach] at agree
  simp only [List.get_eq_getElem, List.getElem_map, repetitionCapture]
  generalize repetitions[index].lookup name = own at agree
  cases agree with
  | some lifts => exact lifts

/-- The repetitions are matched last, after the items that stand behind the ellipsis. -/
theorem complete_sequence
    {items : List Form}
    (sequence : IsSequence literals items)
    (reversible : ∀ item ∈ items, ¬item.isNamed Capture.ellipsis → item.IsReversible literals)
    (complete :
      ∀ item ∈ items, ¬item.isNamed Capture.ellipsis → item.IsComplete store literals leaf)
    (distinct : (allOccurrences literals items).Nodup)
    {forms : List Value}
    (finite : ∀ form ∈ forms, store.IsFinite form)
    (fits : AllFit literals leaf store items bindings forms)
    (matchTail : List Value → Value → Captures → Option Captures)
    (captures : Captures) :
    ∃ result,
      matchSequence store literals items true matchTail forms .nil captures = some result ∧
        ∀ name ∈ allOccurrences literals items,
          Captures.Agree (Regains store leaf) result bindings name := by
  cases sequence with
  | plain plain =>
      rw [allFit_plain plain] at fits
      obtain ⟨result, matched, agree⟩ :=
        complete_each (plain.all reversible) (plain.all complete) distinct finite fits captures
      exact ⟨result, (matchSequence_plain_closed plain matchTail).mpr
        ⟨fits.length_eq.symm, rfl, matched⟩, agree⟩
  | @repeating head rest repeated dots plainHead plainRepeated _ isDots plainRest =>
      rw [allFit_repeating plainHead plainRepeated isDots plainRest] at fits
      obtain ⟨start, middle, last, rfl, fitHead, fitRepeated, fitRest⟩ := fits
      obtain ⟨reversibleHead, _, reversibleRest⟩ :=
        all_repeating plainHead plainRepeated plainRest reversible
      obtain ⟨completeHead, completeRepeated, completeRest⟩ :=
        all_repeating plainHead plainRepeated plainRest complete
      rw [allOccurrences_repeating isDots] at distinct ⊢
      obtain ⟨distinctHead, distinctOthers, apartHead⟩ := List.nodup_append.mp distinct
      obtain ⟨distinctRepeated, distinctRest, apartRest⟩ := List.nodup_append.mp distinctOthers
      have finiteLast : ∀ form ∈ last, store.IsFinite form := fun form member =>
        finite form (by simp [member])
      obtain ⟨first, matchedHead, agreeHead⟩ :=
        complete_each reversibleHead completeHead distinctHead
          (fun form member => finite form (by simp [member])) fitHead captures
      obtain ⟨second, matchedRest, agreeRest⟩ :=
        complete_each reversibleRest completeRest distinctRest finiteLast fitRest first
      obtain ⟨extendsRest, _⟩ :=
        sound_each reversibleRest (fun item member => (reversibleRest item member).isSound)
          distinctRest finiteLast fitRest.length_eq.symm matchedRest
      obtain ⟨repetitions, matchedRepeated, agreeRepeated⟩ :=
        complete_repeatedly completeRepeated distinctRepeated
          (fun form member => finite form (by simp [member])) fitRepeated
      have passed {name : String} (absent : name ∉ repeated.occurrences literals) :
          (collectRepetitions (repeated.variables literals []) repetitions second).lookup name =
            second.lookup name := by
        rw [lookup_collectRepetitions, if_neg fun among =>
          absent (((mem_variables repeated [] name).mp among).resolve_left List.not_mem_nil)]
      refine ⟨_, (matchSequence_repeating plainHead plainRepeated isDots plainRest matchTail).mpr
        ⟨rfl, start, middle, last, first, second, repetitions, rfl, fitHead.length_eq.symm,
          fitRest.length_eq.symm, matchedHead, matchedRest, matchedRepeated, rfl⟩,
        fun name occurs => ?_⟩
      rcases List.mem_append.mp occurs with inHead | inOthers
      · rw [Captures.Agree,
          passed fun later => apartHead name inHead name (List.mem_append_left _ later) rfl,
          extendsRest.outside name fun later =>
            apartHead name inHead name (List.mem_append_right _ later) rfl]
        exact agreeHead name inHead
      · rcases List.mem_append.mp inOthers with inRepeated | inRest
        · exact agreeRepeated second name inRepeated
        · rw [Captures.Agree, passed fun later => apartRest name later name inRest rfl]
          exact agreeRest name inRest

theorem listParts?_of_spells
    {form ending : Value}
    {forms : List Value}
    (spells : store.Spells form forms ending)
    (isLast : ∀ address, ending ≠ .pair address)
    (isList : forms ≠ [] ∨ ending = .nil) :
    listParts? store form = some (forms, ending) := by
  cases spells with
  | nothing =>
      cases isList.resolve_left fun nonempty => nonempty rfl
      rfl
  | pair found spells =>
      exact congrArg some (Store.chain_of_spells (.pair found spells) isLast)

/-- Only a variable takes what items leave of a list. -/
theorem complete_remainder
    {tail : Form}
    (reversible : tail.IsReversible literals)
    (complete : tail.IsComplete store literals leaf)
    (noList : ∀ others last whole, tail ≠ .list others last whole)
    (distinct : (tail.occurrences literals).Nodup)
    {form ending : Value}
    {rest : List Value}
    (spells : store.Spells form rest ending)
    (finite : store.IsFinite form)
    (fits : tail.Fits literals leaf store bindings form)
    (captures : Captures) :
    ∃ result,
      matchRemainder (matchForm store literals tail) literals tail rest ending captures =
          some result ∧
        ∀ name ∈ tail.occurrences literals,
          Captures.Agree (Regains store leaf) result bindings name := by
  cases spells with
  | nothing => exact complete distinct captures finite fits
  | @pair address head next _ rest found spells =>
      cases reversible with
      | @capturing name value isVariable =>
          obtain ⟨_, notWildcard, notLiteral⟩ := isVariable_iff.mp isVariable
          rw [Fits, if_pos isVariable] at fits
          obtain ⟨bound, foundBound, isLeaf, fits⟩ := fits
          refine ⟨(name, .rest (head :: rest) ending) :: captures, ?_, fun other occurs => ?_⟩
          · unfold matchRemainder
            dsimp only [identifier?]
            rw [if_neg (by simp), if_neg notWildcard,
              if_neg (mt List.contains_iff_mem.mp notLiteral)]
          · rw [occurrences, if_pos isVariable] at occurs
            cases List.mem_singleton.mp occurs
            rw [Captures.Agree, List.lookup_cons_self, foundBound]
            exact .some (.leaf trivial isLeaf ⟨.pair address, .rest (.pair found spells), fits⟩)
      | @literal name value isLiteral _ =>
          have notVariable : ¬isVariable literals name := by simp [isVariable, isLiteral]
          rw [Fits, if_neg notVariable] at fits
          cases fits
      | atom isExact =>
          obtain ⟨outline, shows, shows'⟩ := fits
          obtain ⟨_, _, _, _, rfl, _⟩ := shows'.of_pair
          obtain ⟨_, _, _, rfl, _⟩ := shows
          exact isExact.elim
      | list _ _ _ _ => exact (noList _ _ _ rfl).elim
      | vector _ _ =>
          obtain ⟨_, _, same, _⟩ := fits
          cases same

/-- Before a tail, the items take the first forms of a list, and the tail takes what is left. -/
theorem complete_open
    {items : List Form}
    {tail : Form}
    {value : Value}
    (nonempty : items ≠ [])
    (plain : NoEllipsis items)
    (reversible : ∀ item ∈ items, item.IsReversible literals)
    (complete : ∀ item ∈ items, item.IsComplete store literals leaf)
    (reversibleTail : tail.IsReversible literals)
    (completeTail : tail.IsComplete store literals leaf)
    (noList : ∀ others last whole, tail ≠ .list others last whole)
    (notNil : tail.isNil = false)
    (distinct : (occurrences literals (.list items tail value)).Nodup)
    {form : Value}
    (finite : store.IsFinite form)
    (fits : Fits literals leaf store (.list items tail value) bindings form)
    (captures : Captures) :
    ∃ result,
      matchForm store literals (.list items tail value) form captures = some result ∧
        ∀ name ∈ occurrences literals (.list items tail value),
          Captures.Agree (Regains store leaf) result bindings name := by
  -- The instance may split the list earlier than the chain of its pairs ends.
  obtain ⟨forms, ending, spells, fitItems, fitsTail⟩ := fits
  rw [allFit_plain plain] at fitItems
  obtain ⟨_, finiteForms, finiteEnding⟩ := finite.spells (.refl store) spells
  obtain ⟨distinctItems, distinctTail, apart⟩ := List.nodup_append.mp distinct
  obtain ⟨rest, last, spellsRest, isLast⟩ := finiteEnding.exists_spells
  obtain ⟨between, matchedItems, agreeItems⟩ :=
    complete_each reversible complete distinctItems finiteForms fitItems captures
  obtain ⟨result, matchedTail, agreeTail⟩ := complete_remainder reversibleTail completeTail noList
    distinctTail spellsRest finiteEnding fitsTail between
  obtain ⟨extendsTail, _⟩ := sound_remainder reversibleTail reversibleTail.isSound distinctTail
    spellsRest finiteEnding matchedTail
  have nonemptyForms : forms ++ rest ≠ [] := by
    intro none
    have size := fitItems.length_eq
    rw [(List.append_eq_nil_iff.mp none).1] at size
    exact nonempty (List.length_eq_zero_iff.mp size)
  refine ⟨result, ?_, fun name occurs => ?_⟩
  · rw [matchForm_list,
      listParts?_of_spells (spells.append spellsRest) isLast (.inl nonemptyForms), notNil]
    exact (matchSequence_plain_open plain _).mpr
      ⟨forms, rest, between, rfl, fitItems.length_eq.symm, matchedItems, matchedTail⟩
  · rcases List.mem_append.mp occurs with inItems | inTail
    · rw [Captures.Agree, extendsTail.outside name fun later => apart name inItems name later rfl]
      exact agreeItems name inItems
    · exact agreeTail name inTail

/-- Whatever the leaves may stand for, an instance with distinct variables is matched. -/
theorem IsReversible.isComplete
    {pattern : Form}
    (reversible : pattern.IsReversible literals)
    (unfolded : pattern.IsUnfolded) :
    pattern.IsComplete store literals leaf := by
  induction reversible with
  | @atom value isExact =>
      intro _ form bindings captures _ fits
      refine ⟨captures, ?_, fun _ member => nomatch member⟩
      rw [matchForm, if_pos ((Store.equal_iff_alike isExact).mpr fits)]
  | @capturing name value isVariable =>
      intro _ form bindings captures _ fits
      rw [Fits, if_pos isVariable] at fits
      obtain ⟨bound, found, isLeaf, fits⟩ := fits
      refine ⟨_, matchForm_capturing isVariable, fun other occurs => ?_⟩
      rw [occurrences, if_pos isVariable] at occurs
      cases List.mem_singleton.mp occurs
      rw [Captures.Agree, List.lookup_cons_self, found]
      exact .some (.leaf trivial isLeaf ⟨form, .one, fits⟩)
  | @literal name value isLiteral notWildcard =>
      intro _ form bindings captures _ fits
      have notVariable : ¬isVariable literals name := by simp [isVariable, isLiteral]
      rw [Fits, if_neg notVariable] at fits
      have named : form.isNamed name := decide_eq_true fits
      refine ⟨captures, ?_, fun other occurs => ?_⟩
      · rw [matchForm_literal isLiteral notWildcard, if_pos named]
      · rw [occurrences, if_neg notVariable] at occurs
        cases occurs
  | @list items tail value sequence reversible reversibleTail closed completeItems completeTail =>
      intro distinct form bindings captures finite fits
      cases unfolded with
      | list nonempty unfoldedItems unfoldedTail noList =>
          have complete :
              ∀ item ∈ items, ¬item.isNamed Capture.ellipsis →
                item.IsComplete store literals leaf :=
            fun item member plain => completeItems item member plain (unfoldedItems item member)
          cases isNil : tail.isNil with
          | true =>
              obtain rfl := eq_atom_of_isNil isNil
              obtain ⟨forms, ending, spells, fitItems, fitsTail⟩ := fits
              obtain ⟨_, finiteForms, _⟩ := finite.spells (.refl store) spells
              have distinctItems := (List.nodup_append.mp distinct).1
              have bare : Value.IsBare (.nil) := trivial
              cases (Store.alike_bare_iff bare).mp fitsTail
              obtain ⟨result, matched, agree⟩ := complete_sequence sequence reversible
                complete distinctItems finiteForms fitItems _ captures
              refine ⟨result, ?_, fun name occurs => ?_⟩
              · rw [matchForm_list, listParts?_of_spells spells (by rintro _ ⟨⟩) (.inr rfl), isNil]
                exact matched
              · exact agree name ((List.mem_append.mp occurs).resolve_right List.not_mem_nil)
          | false =>
              have plain := closed.resolve_left (by simp [isNil])
              exact complete_open nonempty plain (plain.all reversible) (plain.all complete)
                reversibleTail (completeTail unfoldedTail) noList isNil distinct finite fits
                captures
  | @vector items value sequence reversible completeItems =>
      intro distinct form bindings captures finite fits
      cases unfolded with
      | vector unfoldedItems =>
          obtain ⟨address, forms, rfl, found, fitItems⟩ := fits
          obtain ⟨_, finiteForms⟩ := finite.vector (.refl store) found
          obtain ⟨result, matched, agree⟩ := complete_sequence sequence reversible
            (fun item member plain => completeItems item member plain (unfoldedItems item member))
            distinct finiteForms fitItems _ captures
          refine ⟨result, ?_, agree⟩
          rw [matchForm_vector, Store.vectorAt, found]
          exact matched

end Parts

end Form

end SmallScheme
