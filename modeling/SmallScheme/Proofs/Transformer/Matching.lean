import SmallScheme.Proofs.Transformer.Overlay

namespace SmallScheme

/-!
# Matches are instances

If a pattern matches a form, every variable of the pattern has got a capture, and the form is the
instance of the pattern under the captures.
-/

namespace Captures

/-- The names have got captures, and no other names have got any. -/
structure Extends
    (names : List String)
    (before after : Captures) : Prop where
  inside : ∀ name ∈ names, ∃ capture, after.lookup name = some capture
  outside : ∀ name ∉ names, after.lookup name = before.lookup name

theorem Extends.none
    (captures : Captures) :
    Extends [] captures captures :=
  ⟨(fun _ member => nomatch member), fun _ _ => rfl⟩

/-- Only which names there are matters. -/
theorem Extends.congr
    {names others : List String}
    {before after : Captures}
    (captured : Extends names before after)
    (same : ∀ name, name ∈ names ↔ name ∈ others) :
    Extends others before after :=
  ⟨fun name member => captured.inside name ((same name).mpr member),
    fun name absent => captured.outside name (mt (same name).mp absent)⟩

theorem Extends.append
    {names others : List String}
    {before between after : Captures}
    (first : Extends names before between)
    (second : Extends others between after) :
    Extends (names ++ others) before after where
  inside name member := by
    by_cases later : name ∈ others
    · exact second.inside name later
    · obtain ⟨capture, found⟩ :=
        first.inside name ((List.mem_append.mp member).resolve_right later)
      exact ⟨capture, (second.outside name later).trans found⟩
  outside name absent := by
    obtain ⟨notFirst, notSecond⟩ := not_or.mp (mt List.mem_append.mpr absent)
    exact (second.outside name notSecond).trans (first.outside name notFirst)

end Captures

namespace Form

variable
  {store : Store}
  {literals : List String}

/-- A repetition of a variable, whether or not the item was matched. -/
theorem lookup_collectRepetitions
    (names : List String)
    (repetitions : List Captures)
    (captures : Captures)
    (name : String) :
    (collectRepetitions names repetitions captures).lookup name =
      if name ∈ names then
        some (.many (repetitions.map (repetitionCapture name)))
      else
        captures.lookup name := by
  unfold collectRepetitions
  induction names generalizing captures with
  | nil => rfl
  | cons own names inductionHypothesis =>
      rw [List.foldl_cons, inductionHypothesis]
      by_cases later : name ∈ names
      · rw [if_pos later, if_pos (List.mem_cons_of_mem _ later)]
      · rw [if_neg later, List.lookup_cons]
        by_cases same : name = own
        · subst same
          rw [beq_self_eq_true, if_pos List.mem_cons_self]
        · rw [beq_false_of_ne same, if_neg fun member =>
            later ((List.mem_cons.mp member).resolve_left same)]

/-- The capture stands for a finite form. -/
def Stands
    (store : Store)
    (capture : Capture)
    (form : Value) : Prop :=
  capture.IsSettled store (.one form) ∧ store.IsFinite form

/-- What a match of the pattern says about a finite form. -/
def IsSound
    (store : Store)
    (literals : List String)
    (pattern : Form) : Prop :=
  (pattern.occurrences literals).Nodup →
    ∀ {form : Value} {captures result : Captures},
      store.IsFinite form →
      pattern.matchForm store literals form captures = some result →
      Captures.Extends (pattern.occurrences literals) captures result ∧
        pattern.Fits literals (Stands store) store result form

section Soundness

theorem sound_each
    {items : List Form}
    (reversible : ∀ item ∈ items, item.IsReversible literals)
    (sound : ∀ item ∈ items, item.IsSound store literals)
    (distinct : (allOccurrences literals items).Nodup)
    {forms : List Value}
    (finite : ∀ form ∈ forms, store.IsFinite form)
    (size : forms.length = items.length)
    {captures result : Captures}
    (matched : matchEach store literals items forms captures = some result) :
    Captures.Extends (allOccurrences literals items) captures result ∧
      List.Forall₂ (fun item form => item.Fits literals (Stands store) store result form) items
        forms := by
  induction items generalizing forms captures with
  | nil =>
      cases List.length_eq_zero_iff.mp size
      cases matched
      exact ⟨.none _, .nil⟩
  | cons item items inductionHypothesis =>
      cases forms with
      | nil => cases size
      | cons form forms =>
          obtain ⟨reversibleItem, reversibleItems⟩ := List.forall_mem_cons.mp reversible
          obtain ⟨soundItem, soundItems⟩ := List.forall_mem_cons.mp sound
          obtain ⟨distinctItem, distinctItems, apart⟩ := List.nodup_append.mp distinct
          rw [matchEach_cons] at matched
          obtain ⟨between, matchedItem, matchedItems⟩ := Option.bind_eq_some_iff.mp matched
          obtain ⟨finiteForm, finiteForms⟩ := List.forall_mem_cons.mp finite
          obtain ⟨extendsItem, fits⟩ := soundItem distinctItem finiteForm matchedItem
          obtain ⟨extendsItems, fitItems⟩ :=
            inductionHypothesis reversibleItems soundItems distinctItems finiteForms
              (Nat.succ.inj size) matchedItems
          refine ⟨extendsItem.append extendsItems, .cons ?_ fitItems⟩
          refine reversibleItem.fits_congr (.refl store) (fun name occurs => ?_) fits
          exact (extendsItems.outside name fun later => apart name occurs name later rfl).symm

theorem sound_repeatedly
    {item : Form}
    (reversible : item.IsReversible literals)
    (sound : item.IsSound store literals)
    (distinct : (item.occurrences literals).Nodup)
    {forms : List Value}
    (finite : ∀ form ∈ forms, store.IsFinite form)
    {repetitions : List Captures}
    (matched : matchRepeatedly store literals item forms repetitions)
    (captures : Captures) :
    Captures.Extends (item.occurrences literals) captures
        (collectRepetitions (item.variables literals []) repetitions captures) ∧
      FitRepeatedly (item.Fits literals (Stands store) store) (item.variables literals [])
        (collectRepetitions (item.variables literals []) repetitions captures) forms := by
  have among {name : String} :
      name ∈ item.variables literals [] ↔ name ∈ item.occurrences literals :=
    (mem_variables item [] name).trans (or_iff_right List.not_mem_nil)
  have collected {name : String} (occurs : name ∈ item.occurrences literals) :
      (collectRepetitions (item.variables literals []) repetitions captures).lookup name =
        some (.many (repetitions.map (repetitionCapture name))) := by
    rw [lookup_collectRepetitions, if_pos (among.mpr occurs)]
  refine ⟨⟨fun name occurs => ⟨_, collected occurs⟩, fun name absent => ?_⟩, ?repeats, ?each⟩
  · rw [lookup_collectRepetitions, if_neg (mt among.mp absent)]
  case repeats =>
    intro name member
    refine ⟨_, collected (among.mp member), ?_⟩
    rw [List.length_map, matched.length_eq]
  case each =>
    refine List.forall₂_of_length_eq_of_get List.length_range fun index _ within => ?_
    have inRepetitions : index < repetitions.length := matched.length_eq ▸ within
    obtain ⟨captured, fits⟩ :=
      sound distinct (finite _ (List.get_mem forms ⟨index, within⟩))
        (matched.get within inRepetitions)
    rw [List.get_eq_getElem, List.getElem_range]
    refine reversible.fits_congr (.refl store) (fun name occurs => ?_) fits
    obtain ⟨capture, found⟩ := captured.inside name occurs
    have inCollected : index < (repetitions.map (repetitionCapture name)).length := by
      rwa [List.length_map]
    rw [Captures.lookup_repetition_of_mem _ (among.mpr occurs) (collected occurs) inCollected,
      List.getElem_map, repetitionCapture, found]
    rw [List.get_eq_getElem] at found
    rw [found]
    rfl

/-- The parts of a sequence are matched in another order than the one in which they stand. -/
theorem sound_sequence
    {items : List Form}
    (sequence : IsSequence literals items)
    (reversible : ∀ item ∈ items, ¬item.isNamed Capture.ellipsis → item.IsReversible literals)
    (sound : ∀ item ∈ items, ¬item.isNamed Capture.ellipsis → item.IsSound store literals)
    (distinct : (allOccurrences literals items).Nodup)
    {matchTail : List Value → Value → Captures → Option Captures}
    {forms : List Value}
    (finite : ∀ form ∈ forms, store.IsFinite form)
    {ending : Value}
    {captures result : Captures}
    (matched :
      matchSequence store literals items true matchTail forms ending captures = some result) :
    ending.isNil ∧
      Captures.Extends (allOccurrences literals items) captures result ∧
        AllFit literals (Stands store) store items result forms := by
  cases sequence with
  | plain plain =>
      obtain ⟨size, isNil, matched⟩ := (matchSequence_plain_closed plain matchTail).mp matched
      rw [allFit_plain plain]
      exact ⟨isNil,
        sound_each (plain.all reversible) (plain.all sound) distinct finite size matched⟩
  | @repeating head rest repeated dots plainHead plainRepeated _ isDots plainRest =>
      obtain ⟨isNil, start, middle, last, first, second, repetitions, rfl, size, sizeLast,
          matchedHead, matchedRest, matchedRepeated, rfl⟩ :=
        (matchSequence_repeating plainHead plainRepeated isDots plainRest matchTail).mp matched
      obtain ⟨reversibleHead, reversibleRepeated, reversibleRest⟩ :=
        all_repeating plainHead plainRepeated plainRest reversible
      obtain ⟨soundHead, soundRepeated, soundRest⟩ :=
        all_repeating plainHead plainRepeated plainRest sound
      rw [allOccurrences_repeating isDots] at distinct ⊢
      obtain ⟨distinctHead, distinctOthers, apartHead⟩ := List.nodup_append.mp distinct
      obtain ⟨distinctRepeated, distinctRest, apartRest⟩ := List.nodup_append.mp distinctOthers
      obtain ⟨extendsHead, fitHead⟩ :=
        sound_each reversibleHead soundHead distinctHead
          (fun form member => finite form (by simp [member])) size matchedHead
      obtain ⟨extendsRest, fitRest⟩ :=
        sound_each reversibleRest soundRest distinctRest
          (fun form member => finite form (by simp [member])) sizeLast matchedRest
      obtain ⟨extendsRepeated, fitRepeated⟩ :=
        sound_repeatedly reversibleRepeated soundRepeated distinctRepeated
          (fun form member => finite form (by simp [member])) matchedRepeated second
      -- The repetitions are collected last; what was captured before is not hidden by them.
      refine ⟨isNil, ?_, ?_⟩
      · refine ((extendsHead.append extendsRest).append extendsRepeated).congr fun name => ?_
        simp only [List.mem_append]
        tauto
      · rw [allFit_repeating plainHead plainRepeated isDots plainRest]
        refine ⟨start, middle, last, rfl, ?_, fitRepeated, ?_⟩
        · rw [← allFit_plain plainHead] at fitHead ⊢
          refine allFit_congr (.plain plainHead) (fun item member _ => reversibleHead item member)
            (.refl store) (fun name occurs => ?_) fitHead
          rw [extendsRepeated.outside name fun later =>
              apartHead name occurs name (List.mem_append_left _ later) rfl,
            extendsRest.outside name fun later =>
              apartHead name occurs name (List.mem_append_right _ later) rfl]
        · rw [← allFit_plain plainRest] at fitRest ⊢
          refine allFit_congr (.plain plainRest) (fun item member _ => reversibleRest item member)
            (.refl store) (fun name occurs => ?_) fitRest
          rw [extendsRepeated.outside name fun later => apartRest name later name occurs rfl]

theorem matchForm_list
    {items : List Form}
    {tail : Form}
    {value form : Value}
    {captures : Captures} :
    matchForm store literals (.list items tail value) form captures =
      (listParts? store form).bind fun parts =>
        matchSequence store literals items tail.isNil
          (fun items ending captures =>
            matchRemainder (matchForm store literals tail) literals tail items ending captures)
          parts.1 parts.2 captures :=
  rfl

theorem matchForm_vector
    {items : List Form}
    {value : Value}
    {address : Nat}
    {captures : Captures} :
    matchForm store literals (.vector items value) (.vector address) captures =
      matchSequence store literals items true (fun _ _ _ => none)
        (store.vectorAt address).toList .nil captures :=
  rfl

theorem eq_atom_of_isNil
    {form : Form}
    (isNil : form.isNil) :
    form = .atom .nil := by
  cases form with
  | atom value => cases value <;> first | rfl | cases isNil
  | _ => cases isNil

theorem matchForm_capturing
    {name : String}
    {value form : Value}
    {captures : Captures}
    (isVariable : isVariable literals name) :
    matchForm store literals (.identifier name value) form captures =
      some ((name, .one form) :: captures) := by
  obtain ⟨_, notWildcard, notLiteral⟩ := isVariable_iff.mp isVariable
  rw [matchForm, if_neg notWildcard, if_neg (mt List.contains_iff_mem.mp notLiteral)]

theorem matchForm_literal
    {name : String}
    {value form : Value}
    {captures : Captures}
    (isLiteral : name ∈ literals)
    (notWildcard : name ≠ Capture.wildcard) :
    matchForm store literals (.identifier name value) form captures =
      if form.isNamed name then some captures else none := by
  rw [matchForm, if_neg notWildcard, if_pos (List.contains_iff_mem.mpr isLiteral)]

theorem spells_of_listParts?
    {form ending : Value}
    {forms : List Value}
    (parts : listParts? store form = some (forms, ending)) :
    store.Spells form forms ending := by
  unfold listParts? at parts
  split at parts
  case h_1 address =>
    have spells := store.chain_spells (.pair address)
    rw [Option.some.inj parts] at spells
    exact spells
  case h_2 =>
    cases parts
    exact .nothing
  case h_3 => cases parts

theorem extends_capturing
    {name : String}
    {value : Value}
    (isVariable : isVariable literals name)
    (capture : Capture)
    (captures : Captures) :
    Captures.Extends (occurrences literals (.identifier name value)) captures
      ((name, capture) :: captures) := by
  rw [occurrences, if_pos isVariable]
  refine ⟨fun other member => ?_, fun other absent => ?_⟩
  · cases List.mem_singleton.mp member
    exact ⟨capture, List.lookup_cons_self⟩
  · rw [List.lookup_cons, beq_false_of_ne (mt List.mem_singleton.mpr absent)]

/-- The tail of a pattern takes what its items leave of a list. -/
theorem sound_remainder
    {tail : Form}
    (reversible : tail.IsReversible literals)
    (sound : tail.IsSound store literals)
    (distinct : (tail.occurrences literals).Nodup)
    {form ending : Value}
    {rest : List Value}
    (spells : store.Spells form rest ending)
    (finite : store.IsFinite form)
    {captures result : Captures}
    (matched :
      matchRemainder (matchForm store literals tail) literals tail rest ending captures =
        some result) :
    Captures.Extends (tail.occurrences literals) captures result ∧
      tail.Fits literals (Stands store) store result form := by
  unfold matchRemainder at matched
  cases rest with
  | nil =>
      cases spells
      exact sound distinct finite matched
  | cons item rest =>
      rw [if_neg (by simp)] at matched
      cases reversible with
      | @capturing name value isVariable =>
          obtain ⟨_, notWildcard, notLiteral⟩ := isVariable_iff.mp isVariable
          dsimp only [identifier?] at matched
          rw [if_neg notWildcard, if_neg (mt List.contains_iff_mem.mp notLiteral)] at matched
          cases matched
          refine ⟨extends_capturing isVariable _ _, ?_⟩
          rw [Fits, if_pos isVariable]
          exact ⟨_, List.lookup_cons_self, trivial, .rest spells, finite⟩
      | @literal name value isLiteral notWildcard =>
          dsimp only [identifier?] at matched
          rw [if_neg notWildcard, if_pos (List.contains_iff_mem.mpr isLiteral)] at matched
          cases matched
      | atom _ => cases matched
      | list _ _ _ _ => cases matched
      | vector _ _ => cases matched

theorem eq_nil_of_isNil
    {value : Value}
    (isNil : value.isNil) :
    value = .nil := by
  cases value <;> first | rfl | cases isNil

/-- Before a tail, the items are matched with the first forms of a list. -/
theorem sound_open
    {items : List Form}
    {tail : Form}
    {value : Value}
    (plain : NoEllipsis items)
    (reversible : ∀ item ∈ items, item.IsReversible literals)
    (sound : ∀ item ∈ items, item.IsSound store literals)
    (reversibleTail : tail.IsReversible literals)
    (soundTail : tail.IsSound store literals)
    (distinct : (occurrences literals (.list items tail value)).Nodup)
    {form ending : Value}
    (finite : store.IsFinite form)
    {forms : List Value}
    (spells : store.Spells form forms ending)
    {captures result : Captures}
    (matched :
      matchSequence store literals items false
          (fun rest ending captures =>
            matchRemainder (matchForm store literals tail) literals tail rest ending captures)
          forms ending captures =
        some result) :
    Captures.Extends (occurrences literals (.list items tail value)) captures result ∧
      Fits literals (Stands store) store (.list items tail value) result form := by
  obtain ⟨start, rest, between, rfl, size, matchedItems, matchedTail⟩ :=
    (matchSequence_plain_open plain _).mp matched
  obtain ⟨middle, spellsStart, spellsRest⟩ := spells.split
  obtain ⟨_, finiteStart, finiteMiddle⟩ := finite.spells (.refl store) spellsStart
  obtain ⟨distinctItems, distinctTail, apart⟩ := List.nodup_append.mp distinct
  obtain ⟨extendsItems, fitItems⟩ :=
    sound_each reversible sound distinctItems finiteStart size matchedItems
  obtain ⟨extendsTail, fitsTail⟩ :=
    sound_remainder reversibleTail soundTail distinctTail spellsRest finiteMiddle matchedTail
  refine ⟨extendsItems.append extendsTail, start, middle, spellsStart, ?_, fitsTail⟩
  refine allFit_congr (.plain plain) (fun item member _ => reversible item member) (.refl store)
    (fun name occurs => ?_) ((allFit_plain plain).mpr fitItems)
  exact (extendsTail.outside name fun later => apart name occurs name later rfl).symm

/-- What a match has captured makes the matched form an instance of the pattern. -/
theorem IsReversible.isSound
    {pattern : Form}
    (reversible : pattern.IsReversible literals) :
    pattern.IsSound store literals := by
  induction reversible with
  | @atom value isExact =>
      intro _ form captures result _ matched
      unfold matchForm at matched
      split at matched
      case isTrue same =>
        cases matched
        exact ⟨.none _, (Store.equal_iff_alike isExact).mp same⟩
      case isFalse => cases matched
  | @capturing name value isVariable =>
      intro _ form captures result finite matched
      rw [matchForm_capturing isVariable] at matched
      cases matched
      refine ⟨extends_capturing isVariable _ _, ?_⟩
      rw [Fits, if_pos isVariable]
      exact ⟨_, List.lookup_cons_self, trivial, .one, finite⟩
  | @literal name value isLiteral notWildcard =>
      intro _ form captures result _ matched
      have notVariable : ¬isVariable literals name := by simp [isVariable, isLiteral]
      rw [matchForm_literal isLiteral notWildcard] at matched
      split at matched
      case isTrue named =>
        cases matched
        rw [occurrences, Fits, if_neg notVariable, if_neg notVariable]
        exact ⟨.none _, of_decide_eq_true named⟩
      case isFalse => cases matched
  | @list items tail value sequence reversible reversibleTail closed soundItems soundTail =>
      intro distinct form captures result finite matched
      rw [matchForm_list] at matched
      obtain ⟨⟨forms, ending⟩, parts, matched⟩ := Option.bind_eq_some_iff.mp matched
      have spells := spells_of_listParts? parts
      obtain ⟨_, finiteForms, finiteEnding⟩ := finite.spells (.refl store) spells
      cases isNil : tail.isNil with
      | true =>
          rw [isNil] at matched
          have distinctItems := (List.nodup_append.mp distinct).1
          obtain ⟨endsNil, captured, fitItems⟩ :=
            sound_sequence sequence reversible soundItems distinctItems finiteForms matched
          cases eq_nil_of_isNil endsNil
          obtain rfl := eq_atom_of_isNil isNil
          refine ⟨?_, forms, .nil, spells, fitItems, Store.alike_of_isExact trivial⟩
          exact captured.congr fun name => by simp [occurrences]
      | false =>
          rw [isNil] at matched
          have plain := closed.resolve_left (by simp [isNil])
          exact sound_open plain (plain.all reversible) (plain.all soundItems) reversibleTail
            soundTail distinct finite spells matched
  | @vector items value sequence reversible soundItems =>
      intro distinct form captures result finite matched
      cases form with
      | vector address =>
          obtain ⟨items, found⟩ := finite.exists_vector
          obtain ⟨_, finiteItems⟩ := finite.vector (.refl store) found
          rw [matchForm_vector, Store.vectorAt, found] at matched
          obtain ⟨_, captured, fitItems⟩ :=
            sound_sequence sequence reversible soundItems distinct finiteItems matched
          exact ⟨captured, address, items, rfl, found, fitItems⟩
      | _ => cases matched

end Soundness

end Form

end SmallScheme
