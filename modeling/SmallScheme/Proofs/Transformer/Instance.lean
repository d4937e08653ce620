import SmallScheme.Proofs.RelatedLists
import SmallScheme.Proofs.Transformer.Reversible

namespace SmallScheme

/-!
# Instances of patterns

What it is for a form to be the instance of a pattern under captures: part by part, and in an order
that neither matching nor filling has a say in.
-/

/-- Values of the first store correspond to values of the second one, and so do their parts. -/
structure Store.Carries
    (before after : Store)
    (alike : Value → Value → Prop) : Prop where
  atom :
    ∀ {value form form' : Value},
      value.IsExact → before.Alike value form → alike form form' → after.Alike value form'
  identifier :
    ∀ {name : String} {form form' : Value},
      form.identifier? = some name → alike form form' → form'.identifier? = some name
  spells :
    ∀ {form form' ending : Value} {items : List Value},
      before.Spells form items ending →
      alike form form' →
      ∃ items' ending',
        after.Spells form' items' ending' ∧ List.Forall₂ alike items items' ∧ alike ending ending'
  vector :
    ∀ {address : Nat} {items : List Value} {form' : Value},
      before.vectors[address]? = some items.toArray →
      alike (.vector address) form' →
      ∃ address' items',
        form' = .vector address' ∧ after.vectors[address']? = some (List.toArray items') ∧
          List.Forall₂ alike items items'

/-- A store that grows carries each form to itself. -/
theorem Store.Grows.carries
    {before after : Store}
    (grows : before.Grows after) :
    before.Carries after Eq where
  atom _ alike same := same ▸ alike.grows grows
  identifier identified same := same ▸ identified
  spells spells same := same ▸ ⟨_, _, spells.grows grows, List.forall₂_eq_eq_eq ▸ rfl, rfl⟩
  vector found same := ⟨_, _, same.symm, grows.vectors found, List.forall₂_eq_eq_eq ▸ rfl⟩

/-- From a larger store back to the forms that were finite before, through all that is like them. -/
theorem Store.Grows.carriesBack
    {before after : Store}
    (grows : before.Grows after) :
    after.Carries before fun form form' => after.Alike form form' ∧ before.IsFinite form' where
  atom isExact alike same :=
    (alike.trans same.1).of_grows grows (Store.alike_of_isExact isExact).isFinite same.2
  identifier identified same := same.1.identifier identified
  spells spells same := by
    obtain ⟨items', ending', spells', alikeItems, alikeEnding⟩ := same.1.spells spells
    obtain ⟨spellsBefore, finiteItems, finiteEnding⟩ := same.2.spells grows spells'
    exact ⟨items', ending', spellsBefore, forall₂_and_right alikeItems finiteItems, alikeEnding,
      finiteEnding⟩
  vector found same := by
    obtain ⟨address', items', rfl, found', alikeItems⟩ := same.1.vector found
    obtain ⟨foundBefore, finiteItems⟩ := same.2.vector grows found'
    exact ⟨address', items', rfl, foundBefore, forall₂_and_right alikeItems finiteItems⟩

namespace Form

/-- The forms fit an item that is followed by an ellipsis, one repetition after the other. -/
def FitRepeatedly
    (fits : Captures → Value → Prop)
    (names : List String)
    (captures : Captures)
    (forms : List Value) : Prop :=
  captures.Repeats names forms.length ∧
    List.Forall₂ (fun index form => fits (captures.repetition names index) form)
      (List.range forms.length) forms

mutual

/-- The form is an instance of the pattern under the captures, up to what leaves may stand for. -/
def Fits
    (literals : List String)
    (leaf : Capture → Value → Prop)
    (store : Store) : Form → Captures → Value → Prop
  | .atom value, _, form => store.Alike value form
  | .identifier name _, captures, form =>
      if isVariable literals name then
        ∃ capture, captures.lookup name = some capture ∧ capture.IsLeaf ∧ leaf capture form
      else
        form.identifier? = some name
  | .list items tail _, captures, form =>
      ∃ forms ending,
        store.Spells form forms ending ∧ AllFit literals leaf store items captures forms ∧
          Fits literals leaf store tail captures ending
  | .vector items _, captures, form =>
      ∃ address forms,
        form = .vector address ∧ store.vectors[address]? = some (List.toArray forms) ∧
          AllFit literals leaf store items captures forms
  | .marked _ _ _, _, _ => False

/-- The forms are instances of the items of a list or a vector. -/
def AllFit
    (literals : List String)
    (leaf : Capture → Value → Prop)
    (store : Store) : List Form → Captures → List Value → Prop
  | [], _, forms => forms = []
  | [item], captures, forms =>
      ∃ form, forms = [form] ∧ Fits literals leaf store item captures form
  | item :: next :: rest, captures, forms =>
      if next.isNamed Capture.ellipsis then
        ∃ repeated others,
          forms = repeated ++ others ∧
            FitRepeatedly (fun captures form => Fits literals leaf store item captures form)
              (item.variables literals []) captures repeated ∧
            AllFit literals leaf store rest captures others
      else
        ∃ form others,
          forms = form :: others ∧ Fits literals leaf store item captures form ∧
            AllFit literals leaf store (next :: rest) captures others

end

variable
  {literals : List String}
  {leaf : Capture → Value → Prop}
  {store : Store}
  {captures : Captures}

/-! Sequences with and without an ellipsis. -/

/-- Items of which no ellipsis follows the first fit one form and then the others. -/
theorem allFit_cons
    {item : Form}
    {rest : List Form}
    (notFollowed : NoEllipsis rest.head?.toList)
    {forms : List Value} :
    AllFit literals leaf store (item :: rest) captures forms ↔
      ∃ form others,
        forms = form :: others ∧ item.Fits literals leaf store captures form ∧
          AllFit literals leaf store rest captures others := by
  match rest with
  | [] =>
      constructor
      · rintro ⟨form, rfl, fits⟩
        exact ⟨form, [], rfl, fits, rfl⟩
      · rintro ⟨form, others, rfl, fits, rfl⟩
        exact ⟨form, rfl, fits⟩
  | next :: rest =>
      have plain : ¬next.isNamed Capture.ellipsis := notFollowed next (by simp)
      rw [AllFit, if_neg plain]

/-- Items without an ellipsis fit one form each. -/
theorem allFit_plain
    {items : List Form}
    (plain : NoEllipsis items)
    {forms : List Value} :
    AllFit literals leaf store items captures forms ↔
      List.Forall₂ (fun item form => item.Fits literals leaf store captures form) items forms := by
  induction items generalizing forms with
  | nil => simp [AllFit]
  | cons item rest inductionHypothesis =>
      have plainRest : NoEllipsis rest := (List.forall_mem_cons.mp plain).2
      rw [allFit_cons plainRest.head, List.forall₂_cons_left_iff]
      constructor
      · rintro ⟨form, others, rfl, fits, allFit⟩
        exact ⟨form, others, fits, (inductionHypothesis plainRest).mp allFit, rfl⟩
      · rintro ⟨form, others, fits, allFit, rfl⟩
        exact ⟨form, others, rfl, fits, (inductionHypothesis plainRest).mpr allFit⟩

/-- A repeated item fits any number of forms between those before and those after. -/
theorem allFit_repeating
    {before after : List Form}
    {repeated dots : Form}
    (plainBefore : NoEllipsis before)
    (plainRepeated : ¬repeated.isNamed Capture.ellipsis)
    (isDots : dots.isNamed Capture.ellipsis)
    (plainAfter : NoEllipsis after)
    {forms : List Value} :
    AllFit literals leaf store (before ++ repeated :: dots :: after) captures forms ↔
      ∃ first middle last,
        forms = first ++ (middle ++ last) ∧
          List.Forall₂ (fun item form => item.Fits literals leaf store captures form) before
            first ∧
          FitRepeatedly (repeated.Fits literals leaf store) (repeated.variables literals [])
            captures middle ∧
          List.Forall₂ (fun item form => item.Fits literals leaf store captures form) after
            last := by
  induction before generalizing forms with
  | nil =>
      rw [List.nil_append, AllFit, if_pos isDots]
      constructor
      · rintro ⟨middle, last, rfl, fits, allFit⟩
        exact ⟨[], middle, last, rfl, .nil, fits, (allFit_plain plainAfter).mp allFit⟩
      · rintro ⟨first, middle, last, rfl, none, fits, allFit⟩
        cases none
        exact ⟨middle, last, rfl, fits, (allFit_plain plainAfter).mpr allFit⟩
  | cons item before inductionHypothesis =>
      have plainRest : NoEllipsis before := (List.forall_mem_cons.mp plainBefore).2
      have notFollowed := plainRest.head_append
        (noEllipsis_head_cons plainRepeated (dots :: after))
      rw [List.cons_append, allFit_cons notFollowed]
      constructor
      · rintro ⟨form, others, rfl, fits, allFit⟩
        obtain ⟨first, middle, last, rfl, fitFirst, fitMiddle, fitLast⟩ :=
          (inductionHypothesis plainRest).mp allFit
        exact ⟨form :: first, middle, last, rfl, .cons fits fitFirst, fitMiddle, fitLast⟩
      · rintro ⟨first, middle, last, rfl, fitFirst, fitMiddle, fitLast⟩
        cases fitFirst with
        | cons fits fitFirst =>
            have allFit := (inductionHypothesis plainRest).mpr
              ⟨_, middle, last, rfl, fitFirst, fitMiddle, fitLast⟩
            exact ⟨_, _, rfl, fits, allFit⟩

/-! An instance is carried over to captures, a store and a form that correspond to its own. -/

section Carrying

variable
  {leaf' : Capture → Value → Prop}
  {link : Capture → Capture → Prop}
  {alike : Value → Value → Prop}
  {before after : Store}

/-- Instances of the pattern can be carried over. -/
def IsCarried
    (literals : List String)
    (leaf leaf' : Capture → Value → Prop)
    (link : Capture → Capture → Prop)
    (alike : Value → Value → Prop)
    (before after : Store)
    (pattern : Form) : Prop :=
  ∀ {first second : Captures} {form form' : Value},
    (∀ name ∈ pattern.occurrences literals, first.Agree link second name) →
    pattern.Fits literals leaf before first form →
    alike form form' →
    pattern.Fits literals leaf' after second form'

/-- A repeated pattern is carried where its captures agree on the names that occur. -/
theorem carry_repeatedly
    {pattern : Form}
    (carried : pattern.IsCarried literals leaf leaf' link alike before after)
    {first second : Captures}
    (agree : ∀ name ∈ pattern.occurrences literals, first.Agree link second name)
    {forms forms' : List Value}
    (fits :
      FitRepeatedly (pattern.Fits literals leaf before) (pattern.variables literals []) first
        forms)
    (same : List.Forall₂ alike forms forms') :
    FitRepeatedly (pattern.Fits literals leaf' after) (pattern.variables literals []) second
      forms' := by
  obtain ⟨repeats, fitEach⟩ := fits
  have occurs {name : String} (member : name ∈ pattern.variables literals []) :
      name ∈ pattern.occurrences literals :=
    ((mem_variables pattern [] name).mp member).resolve_left List.not_mem_nil
  obtain ⟨repeatsSecond, agreeEach⟩ := repeats.agree fun name member => agree name (occurs member)
  rw [same.length_eq] at repeatsSecond
  refine ⟨repeatsSecond, ?_⟩
  rw [← same.length_eq]
  refine forall₂_trans (fun index member form form' fitsForm sameForm => ?_) fitEach same
  refine carried (fun name occurs => ?_) fitsForm sameForm
  exact agreeEach index (List.mem_range.mp member) name
    ((mem_variables pattern [] name).mpr (.inr occurs))

/-- Patterns are carried one by one where their captures agree on the names that occur. -/
theorem carry_each
    {items : List Form}
    (carried : ∀ item ∈ items, item.IsCarried literals leaf leaf' link alike before after)
    {first second : Captures}
    (agree : ∀ name ∈ allOccurrences literals items, first.Agree link second name)
    {forms forms' : List Value}
    (fits : List.Forall₂ (fun item form => item.Fits literals leaf before first form) items forms)
    (same : List.Forall₂ alike forms forms') :
    List.Forall₂ (fun item form => item.Fits literals leaf' after second form) items forms' := by
  refine forall₂_trans ?_ fits same
  intro item member form form' fitsItem sameItem
  exact carried item member (fun name occurs => agree name (occurrences_subset member occurs))
    fitsItem sameItem

/-- The items of a sequence are carried, the repeated one as often as it stands. -/
theorem carry_items
    {items : List Form}
    (sequence : IsSequence literals items)
    (carried :
      ∀ item ∈ items, ¬item.isNamed Capture.ellipsis →
        item.IsCarried literals leaf leaf' link alike before after)
    {first second : Captures}
    (agree : ∀ name ∈ allOccurrences literals items, first.Agree link second name)
    {forms forms' : List Value}
    (fits : AllFit literals leaf before items first forms)
    (same : List.Forall₂ alike forms forms') :
    AllFit literals leaf' after items second forms' := by
  cases sequence with
  | plain plain =>
      rw [allFit_plain plain] at fits ⊢
      exact carry_each (plain.all carried) agree fits same
  | @repeating head rest repeated dots plainHead plainRepeated _ isDots plainRest =>
      rw [allFit_repeating plainHead plainRepeated isDots plainRest] at fits ⊢
      obtain ⟨start, middle, last, rfl, fitStart, fitMiddle, fitLast⟩ := fits
      obtain ⟨start', others', rfl, sameStart, same⟩ := forall₂_append_left same
      obtain ⟨middle', last', rfl, sameMiddle, sameLast⟩ := forall₂_append_left same
      obtain ⟨carriedHead, carriedRepeated, carriedRest⟩ :=
        all_repeating plainHead plainRepeated plainRest carried
      simp only [allOccurrences_repeating isDots, List.mem_append, or_imp, forall_and] at agree
      obtain ⟨agreeHead, agreeRepeated, agreeRest⟩ := agree
      exact ⟨start', middle', last', rfl, carry_each carriedHead agreeHead fitStart sameStart,
        carry_repeatedly carriedRepeated agreeRepeated fitMiddle sameMiddle,
        carry_each carriedRest agreeRest fitLast sameLast⟩

/-- An instance of a reversible pattern is carried along with its leaves. -/
theorem IsReversible.isCarried
    {pattern : Form}
    (reversible : pattern.IsReversible literals)
    (carries : before.Carries after alike)
    (leaves :
      ∀ {capture capture' : Capture} {form form' : Value},
        link capture capture' → leaf capture form → alike form form' → leaf' capture' form') :
    pattern.IsCarried literals leaf leaf' link alike before after := by
  induction reversible with
  | atom isExact =>
      intro first second form form' _ fits same
      exact carries.atom isExact fits same
  | @capturing name value isVariable =>
      intro first second form form' agree fits same
      rw [Fits, if_pos isVariable] at fits ⊢
      obtain ⟨capture, found, isLeaf, fits⟩ := fits
      have related := agree name (by simp [occurrences, isVariable])
      rw [Captures.Agree, found] at related
      generalize found' : second.lookup name = present at related
      cases related with
      | some lifts =>
          cases lifts with
          | leaf _ isLeaf' linked => exact ⟨_, rfl, isLeaf', leaves linked fits same⟩
          | many _ => exact isLeaf.elim
  | @literal name value isLiteral notWildcard =>
      intro first second form form' _ fits same
      have notVariable : ¬isVariable literals name := by simp [isVariable, isLiteral]
      rw [Fits, if_neg notVariable] at fits ⊢
      exact carries.identifier fits same
  | list sequence _ _ _ carriedItems carriedTail =>
      intro first second form form' agree fits same
      obtain ⟨forms, ending, spells, fitItems, fitsTail⟩ := fits
      obtain ⟨forms', ending', spells', sameForms, sameEnding⟩ := carries.spells spells same
      refine ⟨forms', ending', spells', ?_, ?_⟩
      · refine carry_items sequence carriedItems (fun name occurs => ?_) fitItems sameForms
        exact agree name (List.mem_append_left _ occurs)
      · exact carriedTail (fun name occurs => agree name (List.mem_append_right _ occurs)) fitsTail
          sameEnding
  | vector sequence _ carriedItems =>
      intro first second form form' agree fits same
      obtain ⟨address, forms, rfl, found, fitItems⟩ := fits
      obtain ⟨address', forms', rfl, found', sameForms⟩ := carries.vector found same
      exact ⟨address', forms', rfl, found',
        carry_items sequence carriedItems agree fitItems sameForms⟩

end Carrying

section Growing

variable
  {pattern : Form}
  {before after : Store}
  {first second : Captures}

/-- An instance of a reversible pattern stays one when the store grows. -/
theorem IsReversible.isCarried_of_grows
    (reversible : pattern.IsReversible literals)
    (grows : before.Grows after) :
    pattern.IsCarried literals leaf leaf Eq Eq before after := by
  refine reversible.isCarried grows.carries fun linked fits related => ?_
  cases linked
  cases related
  exact fits

/-- An instance stays one when the store grows and other names are captured besides. -/
theorem IsReversible.fits_congr
    (reversible : pattern.IsReversible literals)
    (grows : before.Grows after)
    (same : ∀ name ∈ pattern.occurrences literals, first.lookup name = second.lookup name)
    {form : Value}
    (fits : pattern.Fits literals leaf before first form) :
    pattern.Fits literals leaf after second form :=
  reversible.isCarried_of_grows grows (fun name occurs => .of_eq (same name occurs)) fits rfl

/-- Whether forms fit depends on the captures of the names that occur. -/
theorem allFit_congr
    {items : List Form}
    (sequence : IsSequence literals items)
    (reversible : ∀ item ∈ items, ¬item.isNamed Capture.ellipsis → item.IsReversible literals)
    (grows : before.Grows after)
    (same : ∀ name ∈ allOccurrences literals items, first.lookup name = second.lookup name)
    {forms : List Value}
    (fits : AllFit literals leaf before items first forms) :
    AllFit literals leaf after items second forms :=
  carry_items sequence
    (fun item member plain => (reversible item member plain).isCarried_of_grows grows)
    (fun name occurs => .of_eq (same name occurs)) fits (List.forall₂_eq_eq_eq ▸ rfl)

end Growing

/-! Under the same captures, instances of a pattern are like one another. -/

section Likeness

variable {leaf' : Capture → Value → Prop}

/-- Instances of the pattern under the same captures are alike. -/
def InstancesAlike
    (literals : List String)
    (leaf leaf' : Capture → Value → Prop)
    (store : Store)
    (pattern : Form) : Prop :=
  ∀ {captures : Captures} {form form' : Value},
    pattern.Fits literals leaf store captures form →
    pattern.Fits literals leaf' store captures form' →
    store.Alike form form'

/-- Instances of several patterns are alike one by one. -/
theorem alike_each
    {items : List Form}
    (alike : ∀ item ∈ items, item.InstancesAlike literals leaf leaf' store)
    {forms forms' : List Value}
    (fits :
      List.Forall₂ (fun item form => item.Fits literals leaf store captures form) items forms)
    (fits' :
      List.Forall₂ (fun item form => item.Fits literals leaf' store captures form) items forms') :
    List.Forall₂ store.Alike forms forms' := by
  refine forall₂_join ?_ fits fits'
  intro item member form form' fitsForm fitsForm'
  exact alike item member fitsForm fitsForm'

/-- Instances of a repeated pattern are equally many, and alike one by one. -/
theorem alike_repeatedly
    {pattern : Form}
    (occurs : pattern.occurrences literals ≠ [])
    (alike : pattern.InstancesAlike literals leaf leaf' store)
    {forms forms' : List Value}
    (fits :
      FitRepeatedly (pattern.Fits literals leaf store) (pattern.variables literals []) captures
        forms)
    (fits' :
      FitRepeatedly (pattern.Fits literals leaf' store) (pattern.variables literals []) captures
        forms') :
    List.Forall₂ store.Alike forms forms' := by
  obtain ⟨repeats, fitEach⟩ := fits
  obtain ⟨repeats', fitEach'⟩ := fits'
  -- A variable of the item tells how many repetitions there are.
  have sameLength : forms.length = forms'.length := by
    obtain ⟨name, occurs⟩ := List.exists_mem_of_ne_nil _ occurs
    have member := (mem_variables pattern [] name).mpr (.inr occurs)
    obtain ⟨each, found, size⟩ := repeats name member
    obtain ⟨each', found', size'⟩ := repeats' name member
    cases found.symm.trans found'
    exact size.symm.trans size'
  rw [← sameLength] at fitEach'
  refine forall₂_join ?_ fitEach fitEach'
  intro index _ form form' fitsForm fitsForm'
  exact alike fitsForm fitsForm'

/-- Instances of a sequence are alike item by item. -/
theorem alike_items
    {items : List Form}
    (sequence : IsSequence literals items)
    (alike :
      ∀ item ∈ items, ¬item.isNamed Capture.ellipsis →
        item.InstancesAlike literals leaf leaf' store)
    {forms forms' : List Value}
    (fits : AllFit literals leaf store items captures forms)
    (fits' : AllFit literals leaf' store items captures forms') :
    List.Forall₂ store.Alike forms forms' := by
  cases sequence with
  | plain plain =>
      rw [allFit_plain plain] at fits fits'
      exact alike_each (plain.all alike) fits fits'
  | @repeating head rest repeated dots plainHead plainRepeated occurs isDots plainRest =>
      rw [allFit_repeating plainHead plainRepeated isDots plainRest] at fits fits'
      obtain ⟨start, middle, last, rfl, fitStart, fitMiddle, fitLast⟩ := fits
      obtain ⟨start', middle', last', rfl, fitStart', fitMiddle', fitLast'⟩ := fits'
      obtain ⟨alikeHead, alikeRepeated, alikeRest⟩ :=
        all_repeating plainHead plainRepeated plainRest alike
      have alikeMiddle := alike_repeatedly occurs alikeRepeated fitMiddle fitMiddle'
      exact List.rel_append (alike_each alikeHead fitStart fitStart')
        (List.rel_append alikeMiddle (alike_each alikeRest fitLast fitLast'))

/--
Two instances of a reversible pattern under the same captures are alike where their leaves are.
-/
theorem IsReversible.alike
    {pattern : Form}
    (reversible : pattern.IsReversible literals)
    (leaves :
      ∀ {capture : Capture} {form form' : Value},
        leaf capture form → leaf' capture form' → store.Alike form form') :
    pattern.InstancesAlike literals leaf leaf' store := by
  induction reversible with
  | atom isExact =>
      intro captures form form' fits fits'
      exact fits.symm.trans fits'
  | @capturing name value isVariable =>
      intro captures form form' fits fits'
      rw [Fits, if_pos isVariable] at fits fits'
      obtain ⟨capture, found, _, fits⟩ := fits
      obtain ⟨capture', found', _, fits'⟩ := fits'
      cases found.symm.trans found'
      exact leaves fits fits'
  | @literal name value isLiteral notWildcard =>
      intro captures form form' fits fits'
      have notVariable : ¬isVariable literals name := by simp [isVariable, isLiteral]
      rw [Fits, if_neg notVariable] at fits fits'
      exact .of_identifiers fits fits'
  | list sequence _ _ _ alikeItems alikeTail =>
      intro captures form form' fits fits'
      obtain ⟨forms, ending, spells, fitItems, fitsTail⟩ := fits
      obtain ⟨forms', ending', spells', fitItems', fitsTail'⟩ := fits'
      exact .of_spells spells spells'
        (alike_items sequence alikeItems fitItems fitItems')
        (alikeTail fitsTail fitsTail')
  | vector sequence _ alikeItems =>
      intro captures form form' fits fits'
      obtain ⟨address, forms, rfl, found, fitItems⟩ := fits
      obtain ⟨address', forms', rfl, found', fitItems'⟩ := fits'
      exact .of_vectors found found'
        (alike_items sequence alikeItems fitItems fitItems')

end Likeness

end Form

end SmallScheme
