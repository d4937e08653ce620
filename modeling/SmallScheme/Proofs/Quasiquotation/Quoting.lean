import SmallScheme.Proofs.Quasiquotation.Filling
import SmallScheme.Proofs.Quasiquotation.Reading
import SmallScheme.Proofs.Store.Likeness

namespace SmallScheme

/-!
# Templates without gaps

What is made of a template that has no gaps, and what its quotation is, are the same template filled
with nothing.
-/

namespace Store

variable
  {store before after : Store}
  {value quotation : Value}

/--
The second value quotes the first one: its structure is the same, except that identifiers are plain
and that a marked form is a list of the keyword and what quotes the form.
-/
inductive IsQuotedAs (store : Store) : Value → Value → Prop
  | constant {value : Value} : value.StandsForItself → IsQuotedAs store value value
  | identifier {name : String} {value : Value} :
      value.identifier? = some name → IsQuotedAs store value (.symbol name)
  | pair {address copy : Nat} {head tail headCopy tailCopy : Value} :
      store.pairs[address]? = some ⟨head, tail⟩ →
      store.pairs[copy]? = some ⟨headCopy, tailCopy⟩ →
      IsQuotedAs store head headCopy →
      IsQuotedAs store tail tailCopy →
      IsQuotedAs store (.pair address) (.pair copy)
  | vector {address copy : Nat} {items copies : List Value} :
      store.vectors[address]? = some items.toArray →
      store.vectors[copy]? = some copies.toArray →
      items.length = copies.length →
      (∀ {item itemCopy}, (item, itemCopy) ∈ items.zip copies → IsQuotedAs store item itemCopy) →
      IsQuotedAs store (.vector address) (.vector copy)
  | marked {mark : Mark} {address : Nat} {inner datum quotation : Value} :
      store.marked[address]? = some inner →
      IsQuotedAs store inner datum →
      store.Spells quotation [.symbol mark.keyword, datum] .nil →
      IsQuotedAs store (.marked mark address) quotation

/-- A quotation stays one while the store grows. -/
theorem IsQuotedAs.grows
    (grows : before.Grows after)
    (quotes : before.IsQuotedAs value quotation) :
    after.IsQuotedAs value quotation := by
  induction quotes with
  | constant isConstant => exact .constant isConstant
  | identifier identified => exact .identifier identified
  | pair found foundCopy _ _ quotesHead quotesTail =>
      exact .pair (grows.pairs found) (grows.pairs foundCopy) quotesHead quotesTail
  | vector found foundCopy sameLength _ quotesItem =>
      exact .vector (grows.vectors found) (grows.vectors foundCopy) sameLength quotesItem
  | marked found _ spells quotesInner =>
      exact .marked (grows.marked found) quotesInner (spells.grows grows)

/-- A vector is quoted item by item. -/
theorem IsQuotedAs.of_vectors
    {address copy : Nat}
    {items copies : List Value}
    (found : store.vectors[address]? = some items.toArray)
    (foundCopy : store.vectors[copy]? = some copies.toArray)
    (quotes : List.Forall₂ store.IsQuotedAs items copies) :
    store.IsQuotedAs (.vector address) (.vector copy) := by
  obtain ⟨sameLength, quotesItem⟩ := List.forall₂_iff_zip.mp quotes
  exact .vector found foundCopy sameLength quotesItem

/-- A list is quoted item by item, and so is its ending. -/
theorem IsQuotedAs.of_spells
    {items copies : List Value}
    {ending endingCopy : Value}
    (spells : store.Spells value items ending)
    (spellsCopy : store.Spells quotation copies endingCopy)
    (quotes : List.Forall₂ store.IsQuotedAs items copies)
    (quotesEnding : store.IsQuotedAs ending endingCopy) :
    store.IsQuotedAs value quotation := by
  induction quotes generalizing value quotation with
  | nil =>
      cases spells
      cases spellsCopy
      exact quotesEnding
  | cons quotesItem _ inductionHypothesis =>
      cases spells with
      | pair found spells =>
          cases spellsCopy with
          | pair foundCopy spellsCopy =>
              exact .pair found foundCopy quotesItem (inductionHypothesis spells spellsCopy)

/-! What quoting gives. -/

/-- The value has an outline that is less high than that. -/
def IsWithin (store : Store) (bound : Nat) (value : Value) : Prop :=
  ∃ outline, store.Shows outline value ∧ outline.height < bound

/-- What is within a bound is finite. -/
theorem IsWithin.isFinite
    {bound : Nat}
    (isWithin : store.IsWithin bound value) :
    store.IsFinite value := by
  obtain ⟨outline, shows, _⟩ := isWithin
  exact ⟨outline, shows⟩

/-- The items of a list are within less, and so is its ending. -/
theorem IsWithin.items
    {bound : Nat}
    {items : List Value}
    {ending : Value}
    (isWithin : store.IsWithin (bound + 1) value)
    (spells : store.Spells value items ending) :
    (∀ item ∈ items, store.IsWithin bound item) ∧
      (items ≠ [] → store.IsWithin bound ending) := by
  induction spells with
  | nothing => exact ⟨nofun, fun nonempty => (nonempty rfl).elim⟩
  | @pair address head tail rest ending found spells inductionHypothesis =>
      obtain ⟨outline, shows, fits⟩ := isWithin
      obtain ⟨headOutline, tailOutline, _, _, rfl, foundAgain, showsHead, showsTail⟩ :=
        shows.of_pair
      cases found.symm.trans foundAgain
      rw [Outline.height] at fits
      obtain ⟨restFit, endingFits⟩ := inductionHypothesis ⟨tailOutline, showsTail, by omega⟩
      refine ⟨List.forall_mem_cons.mpr ⟨⟨headOutline, showsHead, by omega⟩, restFit⟩, fun _ => ?_⟩
      cases spells with
      | nothing => exact ⟨tailOutline, showsTail, by omega⟩
      | pair found spells => exact endingFits (List.cons_ne_nil _ _)

/-- The items of a vector are within less. -/
theorem IsWithin.vector
    {bound address : Nat}
    (isWithin : store.IsWithin (bound + 1) (.vector address)) :
    ∃ items : List Value,
      store.vectors[address]? = some items.toArray ∧ ∀ item ∈ items, store.IsWithin bound item := by
  obtain ⟨outline, shows, fits⟩ := isWithin
  obtain ⟨outlines, items, rfl, found, showAll⟩ := shows.of_vector
  refine ⟨items, found, ?_⟩
  rw [Outline.height] at fits
  replace fits : Outline.heightOfAll outlines < bound := by omega
  clear found shows
  induction outlines generalizing items with
  | nil =>
      cases showAll
      exact nofun
  | cons first rest inductionHypothesis =>
      obtain ⟨item, others, rfl, showsFirst, showRest⟩ := showAll
      rw [Outline.heightOfAll] at fits
      exact List.forall_mem_cons.mpr
        ⟨⟨first, showsFirst, by omega⟩, inductionHypothesis others showRest (by omega)⟩

/-- What is under a mark is within less. -/
theorem IsWithin.marked
    {bound address : Nat}
    {mark : Mark}
    (isWithin : store.IsWithin (bound + 1) (.marked mark address)) :
    ∃ inner, store.marked[address]? = some inner ∧ store.IsWithin bound inner := by
  obtain ⟨outline, shows, fits⟩ := isWithin
  obtain ⟨innerOutline, inner, rfl, found, showsInner⟩ := shows.of_marked
  exact ⟨inner, found, innerOutline, showsInner, Nat.lt_of_succ_lt_succ fits⟩

/-- Forms are plain if each of them is. -/
theorem allPlain_map_iff
    {depth : Nat}
    {items : List Value} :
    Form.allPlain (items.map (store.formWithin depth)) ↔
      ∀ item ∈ items, (store.formWithin depth item).isPlain := by
  induction items with
  | nil => simp [Form.allPlain]
  | cons item rest inductionHypothesis =>
      rw [List.map_cons, Form.allPlain, Bool.and_eq_true, inductionHypothesis,
        List.forall_mem_cons]

/-- A plain value quotes itself. -/
theorem IsWithin.quotes_self
    {depth : Nat}
    (isWithin : store.IsWithin depth value)
    (plain : (store.formWithin depth value).isPlain) :
    store.IsQuotedAs value value := by
  induction depth generalizing value with
  | zero =>
      obtain ⟨_, _, below⟩ := isWithin
      exact (Nat.not_lt_zero _ below).elim
  | succ depth inductionHypothesis =>
      have together {items : List Value}
          (finite : ∀ item ∈ items, store.IsWithin depth item)
          (plain : Form.allPlain (items.map (store.formWithin depth))) :
          List.Forall₂ store.IsQuotedAs items items :=
        List.forall₂_same.mpr fun item member =>
          inductionHypothesis (finite item member) (allPlain_map_iff.mp plain item member)
      cases value with
      | symbol name => exact .identifier rfl
      | «scoped» name home => cases plain
      | marked mark address => cases plain
      | pair address =>
          obtain ⟨items, ending, spells, isLast⟩ := isWithin.isFinite.exists_spells
          obtain ⟨finiteItems, finiteEnding⟩ := isWithin.items spells
          have nonempty : items ≠ [] := by
            rintro rfl
            cases spells
            exact isLast address rfl
          rw [formWithin, chain_of_spells spells isLast] at plain
          simp only [Form.isPlain, Bool.and_eq_true] at plain
          exact .of_spells spells spells (together finiteItems plain.1)
            (inductionHypothesis (finiteEnding nonempty) plain.2)
      | vector address =>
          obtain ⟨items, found, finiteItems⟩ := isWithin.vector
          rw [formWithin, vectorAt, found] at plain
          exact .of_vectors found found (together finiteItems plain)
      | _ => exact .constant trivial

/-- To quote one thing after the other, as long as every one of them is quoted right. -/
theorem allQuoted_quotes
    {depth : Nat}
    {items : List Value}
    (quoted :
      ∀ item ∈ items,
        ∀ {store : Store},
          before.Grows store →
          store.Grows ((before.formWithin depth item).quoted store).2 ∧
            ((before.formWithin depth item).quoted store).2.IsQuotedAs item
              ((before.formWithin depth item).quoted store).1)
    (grows : before.Grows store) :
    store.Grows (Form.allQuoted (items.map (before.formWithin depth)) store).2 ∧
      List.Forall₂ (Form.allQuoted (items.map (before.formWithin depth)) store).2.IsQuotedAs items
        (Form.allQuoted (items.map (before.formWithin depth)) store).1 := by
  induction items generalizing store with
  | nil => exact ⟨.refl store, .nil⟩
  | cons item rest inductionHypothesis =>
      obtain ⟨quotedFirst, quotedRest⟩ := List.forall_mem_cons.mp quoted
      obtain ⟨growsFirst, quotesFirst⟩ := quotedFirst grows
      obtain ⟨growsRest, quoteRest⟩ := inductionHypothesis quotedRest (grows.trans growsFirst)
      exact ⟨growsFirst.trans growsRest, .cons (quotesFirst.grows growsRest) quoteRest⟩

/-- What is within the depth is quoted by what is made for it. -/
theorem IsWithin.quoted_quotes
    {depth : Nat}
    (isWithin : before.IsWithin depth value)
    {store : Store}
    (grows : before.Grows store) :
    store.Grows ((before.formWithin depth value).quoted store).2 ∧
      ((before.formWithin depth value).quoted store).2.IsQuotedAs value
        ((before.formWithin depth value).quoted store).1 := by
  induction depth generalizing value store with
  | zero =>
      obtain ⟨_, _, below⟩ := isWithin
      exact (Nat.not_lt_zero _ below).elim
  | succ depth inductionHypothesis =>
      cases value with
      | symbol name => exact ⟨.refl store, .identifier rfl⟩
      | «scoped» name home => exact ⟨.refl store, .identifier rfl⟩
      | marked mark address =>
          obtain ⟨inner, found, finiteInner⟩ := isWithin.marked
          obtain ⟨growsInner, quotesInner⟩ := inductionHypothesis finiteInner grows
          rw [formWithin, markedAt, found]
          obtain ⟨growsList, spells⟩ :=
            newListWithTail_spells [.symbol mark.keyword, _] .nil
              ((before.formWithin depth inner).quoted store).2
          have foundAfter := (grows.trans (growsInner.trans growsList)).marked found
          exact ⟨growsInner.trans growsList,
            .marked foundAfter (quotesInner.grows growsList) spells⟩
      | pair address =>
          obtain ⟨items, ending, spells, isLast⟩ := isWithin.isFinite.exists_spells
          obtain ⟨finiteItems, finiteEnding⟩ := isWithin.items spells
          have nonempty : items ≠ [] := by
            rintro rfl
            cases spells
            exact isLast address rfl
          have self := isWithin.quotes_self
          simp only [formWithin, chain_of_spells spells isLast, Form.quoted] at self ⊢
          split
          case isTrue plain =>
            exact ⟨.refl store, (self plain).grows grows⟩
          case isFalse =>
            obtain ⟨growsItems, quoteItems⟩ := allQuoted_quotes
              (fun item member {_} grows => inductionHypothesis (finiteItems item member) grows)
              grows
            obtain ⟨growsEnding, quotesEnding⟩ :=
              inductionHypothesis (finiteEnding nonempty) (grows.trans growsItems)
            obtain ⟨growsList, spellsList⟩ := newListWithTail_spells
              (Form.allQuoted (items.map (before.formWithin depth)) store).1 _ _
            have growsAfter := growsEnding.trans growsList
            refine ⟨growsItems.trans growsAfter, .of_spells
              (spells.grows (grows.trans (growsItems.trans growsAfter))) spellsList ?_
              (quotesEnding.grows growsList)⟩
            exact quoteItems.imp fun _ _ quotes => quotes.grows growsAfter
      | vector address =>
          obtain ⟨items, found, finiteItems⟩ := isWithin.vector
          have self := isWithin.quotes_self
          simp only [formWithin, vectorAt, found, Option.getD_some, Form.quoted] at self ⊢
          split
          case isTrue plain =>
            exact ⟨.refl store, (self plain).grows grows⟩
          case isFalse =>
            obtain ⟨growsItems, quoteItems⟩ := allQuoted_quotes
              (fun item member {_} grows => inductionHypothesis (finiteItems item member) grows)
              grows
            have growsVector := grows_newVector
              (Form.allQuoted (items.map (before.formWithin depth)) store).1.toArray
              (Form.allQuoted (items.map (before.formWithin depth)) store).2
            refine ⟨growsItems.trans growsVector, .of_vectors
              ((grows.trans (growsItems.trans growsVector)).vectors found)
              Array.getElem?_push_size ?_⟩
            exact quoteItems.imp fun _ _ quotes => quotes.grows growsVector
      | _ => exact ⟨.refl store, .constant trivial⟩

/-- The quotation of a finite value quotes it. -/
theorem IsFinite.quoteValue_quotes
    (isFinite : store.IsFinite value) :
    store.Grows (store.quoteValue value).2 ∧
      (store.quoteValue value).2.IsQuotedAs value (store.quoteValue value).1 := by
  obtain ⟨outline, shows⟩ := isFinite
  have isWithin : store.IsWithin (store.extent + 1) value :=
    ⟨outline, shows, Nat.lt_succ_of_le shows.height_le_extent⟩
  exact isWithin.quoted_quotes (.refl store)

/-! What quotes a template without gaps. -/

/-- A value without parts is its own quotation. -/
theorem IsQuotedAs.of_constant
    (isConstant : value.StandsForItself)
    (quotes : store.IsQuotedAs value quotation) :
    quotation = value := by
  cases quotes with
  | constant _ => rfl
  | identifier identified => cases value <;> first | exact isConstant.elim | cases identified
  | _ => exact isConstant.elim

/-- An identifier is quoted by the plain symbol. -/
theorem IsQuotedAs.of_identifier
    {name : String}
    (identified : value.identifier? = some name)
    (quotes : store.IsQuotedAs value quotation) :
    quotation = .symbol name := by
  cases quotes with
  | constant isConstant => cases value <;> first | exact isConstant.elim | cases identified
  | identifier again =>
      cases identified.symm.trans again
      rfl
  | _ => cases identified

/-- A pair is quoted by a pair. -/
theorem IsQuotedAs.of_pair
    {address : Nat}
    {head tail : Value}
    (found : store.pairs[address]? = some ⟨head, tail⟩)
    (quotes : store.IsQuotedAs (.pair address) quotation) :
    ∃ copy headCopy tailCopy,
      quotation = .pair copy ∧ store.pairs[copy]? = some ⟨headCopy, tailCopy⟩ ∧
        store.IsQuotedAs head headCopy ∧ store.IsQuotedAs tail tailCopy := by
  cases quotes with
  | constant isConstant => exact isConstant.elim
  | identifier identified => cases identified
  | pair foundAgain foundCopy quotesHead quotesTail =>
      cases found.symm.trans foundAgain
      exact ⟨_, _, _, rfl, foundCopy, quotesHead, quotesTail⟩

/-- However the mark is spelled, the quotation is the list of the keyword and a quotation. -/
theorem IsQuotedAs.of_hasMark
    {mark : Mark}
    {inner : Value}
    (hasMark : store.HasMark value mark inner)
    (quotes : store.IsQuotedAs value quotation) :
    ∃ datum,
      store.IsQuotedAs inner datum ∧ store.Spells quotation [.symbol mark.keyword, datum] .nil := by
  cases hasMark with
  | abbreviated found =>
      cases quotes with
      | constant isConstant => exact isConstant.elim
      | identifier identified => cases identified
      | marked foundAgain quotesInner spells =>
          cases found.symm.trans foundAgain
          exact ⟨_, quotesInner, spells⟩
  | spelled found named foundRest =>
      obtain ⟨_, keyword, rest, rfl, foundCopy, quotesKeyword, quotesRest⟩ := quotes.of_pair found
      obtain ⟨_, datum, ending, rfl, foundDatum, quotesInner, quotesEnding⟩ :=
        quotesRest.of_pair foundRest
      cases quotesKeyword.of_identifier (of_decide_eq_true named)
      have isNil : ending = .nil := quotesEnding.of_constant trivial
      subst isNil
      exact ⟨datum, quotesInner, .pair foundCopy (.pair foundDatum .nothing)⟩

open Quasiquotation (Template)

/-- An item without gaps is a template without gaps. -/
theorem gapsOfItem_eq_nil
    {template : Template}
    (complete : template.gapsOfItem template.gaps = []) :
    template.gaps = [] := by
  cases template with
  | «spliced» form value => cases complete
  | _ => exact complete

/-- Without gaps an item stands for one value. -/
theorem itemIsFilled_of_complete
    {template : Template}
    (complete : template.gaps = [])
    (isFilled : store.IsFilled template [] quotation) :
    ItemIsFilled (store.IsFilled template) template [] [quotation] := by
  cases template with
  | «spliced» form value => cases complete
  | _ => exact ⟨quotation, isFilled, rfl⟩

mutual

/-- The quotation of a template without gaps is the template filled. -/
theorem IsQuotedAs.isFilled
    (template : Template)
    {level : Nat}
    {quotation : Value}
    (reads : store.Reads level template)
    (complete : template.gaps = [])
    (quotes : store.IsQuotedAs template.value quotation) :
    store.IsFilled template [] quotation := by
  match template with
  | .constant value => exact ⟨rfl, quotes.of_constant reads⟩
  | .identifier name value => exact ⟨rfl, quotes.of_identifier reads⟩
  | .unquoted _ _ => cases complete
  | .spliced _ _ => cases complete
  | .marked mark inner value =>
      obtain ⟨_, hasMark, readsInner⟩ := reads
      obtain ⟨datum, quotesInner, spells⟩ := quotes.of_hasMark hasMark
      exact ⟨datum, quotesInner.isFilled inner readsInner complete, spells⟩
  | .pair head tail value =>
      obtain ⟨_, ⟨address, rfl, found⟩, readsHead, readsTail⟩ := reads
      obtain ⟨headComplete, tailComplete⟩ := List.append_eq_nil_iff.mp complete
      replace headComplete := gapsOfItem_eq_nil headComplete
      obtain ⟨_, headCopy, tailCopy, rfl, foundCopy, quotesHead, quotesTail⟩ := quotes.of_pair found
      have headIsFilled := quotesHead.isFilled head readsHead headComplete
      exact ⟨[], [], [headCopy], tailCopy, rfl, itemIsFilled_of_complete headComplete headIsFilled,
        quotesTail.isFilled tail readsTail tailComplete, .pair foundCopy .nothing⟩
  | .vector items value =>
      obtain ⟨address, rfl, found, readAll⟩ := reads
      cases quotes with
      | constant isConstant => exact isConstant.elim
      | identifier identified => cases identified
      | @vector _ copy _ copies foundAgain foundCopy sameLength quotesItem =>
          have same := List.toArray_inj (Option.some.inj (found.symm.trans foundAgain))
          subst same
          have quotes : List.Forall₂ store.IsQuotedAs (items.map Template.value) copies :=
            List.forall₂_iff_zip.mpr ⟨sameLength, quotesItem⟩
          exact ⟨copy, copies, rfl, foundCopy,
            allFilled_of_quotes items readAll complete quotes⟩

theorem allFilled_of_quotes
    (templates : List Template)
    {level : Nat}
    {quotations : List Value}
    (readAll : store.ReadAll level templates)
    (complete : Template.gapsOfAll templates = [])
    (quotes : List.Forall₂ store.IsQuotedAs (templates.map Template.value) quotations) :
    store.ItemsAreFilled templates [] quotations := by
  match templates with
  | [] =>
      cases quotes
      exact ⟨rfl, rfl⟩
  | template :: rest =>
      obtain ⟨firstComplete, restComplete⟩ := List.append_eq_nil_iff.mp complete
      replace firstComplete := gapsOfItem_eq_nil firstComplete
      cases quotes with
      | cons quotesFirst quoteRest =>
          have isFilled := quotesFirst.isFilled template readAll.1 firstComplete
          exact ⟨[], [], [_], _, rfl, rfl, itemIsFilled_of_complete firstComplete isFilled,
            allFilled_of_quotes rest readAll.2 restComplete quoteRest⟩

end

/-! What a template without gaps is filled to is alike. -/

/-- A value without parts is like itself. -/
theorem alike_of_standsForItself
    (isConstant : value.StandsForItself) :
    store.Alike value value := by
  have ofBare (bare : value.IsBare) : store.Alike value value := (alike_bare_iff bare).mpr rfl
  cases value with
  | text address => exact alike_text_iff.mpr ⟨address, rfl, rfl⟩
  | bytevector address => exact alike_bytevector_iff.mpr ⟨address, rfl, rfl⟩
  | _ => first | exact isConstant.elim | exact ofBare trivial

/-- An item without gaps is filled with one value. -/
theorem exists_of_itemIsFilled
    {template : Template}
    {items : List Value}
    (complete : template.gaps = [])
    (isFilled : ItemIsFilled (store.IsFilled template) template [] items) :
    ∃ item, store.IsFilled template [] item ∧ items = [item] := by
  cases template with
  | «spliced» form value => cases complete
  | _ => exact isFilled

mutual

/-- Filled without gaps, one template gives values that are alike. -/
theorem IsFilled.alike
    (template : Template)
    {level : Nat}
    {value other : Value}
    (reads : store.Reads level template)
    (complete : template.gaps = [])
    (first : store.IsFilled template [] value)
    (second : store.IsFilled template [] other) :
    store.Alike value other := by
  match template with
  | .constant own =>
      obtain ⟨_, rfl⟩ := first
      obtain ⟨_, rfl⟩ := second
      exact alike_of_standsForItself reads
  | .identifier name own =>
      obtain ⟨_, rfl⟩ := first
      obtain ⟨_, rfl⟩ := second
      exact .of_identifiers rfl rfl
  | .unquoted _ _ => cases complete
  | .spliced _ _ => cases complete
  | .marked mark inner own =>
      obtain ⟨datum, isFilled, spells⟩ := first
      obtain ⟨otherDatum, otherIsFilled, otherSpells⟩ := second
      have alike := IsFilled.alike inner reads.2.2 complete isFilled otherIsFilled
      have sameKeyword : store.Alike (.symbol mark.keyword) (.symbol mark.keyword) :=
        .of_identifiers rfl rfl
      exact .of_spells spells otherSpells (.cons sameKeyword (.cons alike .nil))
        ((alike_bare_iff (show Value.nil.IsBare from trivial)).mpr rfl)
  | .pair head tail own =>
      obtain ⟨headComplete, tailComplete⟩ := List.append_eq_nil_iff.mp complete
      replace headComplete := gapsOfItem_eq_nil headComplete
      obtain ⟨before, after, _, ending, isAll, headIsFilled, tailIsFilled, spells⟩ := first
      obtain ⟨rfl, rfl⟩ := List.append_eq_nil_iff.mp isAll.symm
      obtain ⟨item, fillsHead, rfl⟩ := exists_of_itemIsFilled headComplete headIsFilled
      obtain ⟨before, after, _, otherEnding, isAll, otherHead, otherTail, otherSpells⟩ := second
      obtain ⟨rfl, rfl⟩ := List.append_eq_nil_iff.mp isAll.symm
      obtain ⟨otherItem, otherFillsHead, rfl⟩ := exists_of_itemIsFilled headComplete otherHead
      have alike := IsFilled.alike head reads.2.2.1 headComplete fillsHead otherFillsHead
      have alikeTail := IsFilled.alike tail reads.2.2.2 tailComplete tailIsFilled otherTail
      exact .of_spells spells otherSpells (.cons alike .nil) alikeTail
  | .vector items own =>
      obtain ⟨_, _, _, readAll⟩ := reads
      obtain ⟨address, values, rfl, found, areFilled⟩ := first
      obtain ⟨otherAddress, others, rfl, otherFound, othersAreFilled⟩ := second
      exact .of_vectors found otherFound
        (alike_of_areFilled items readAll complete areFilled othersAreFilled)

theorem alike_of_areFilled
    (templates : List Template)
    {level : Nat}
    {values others : List Value}
    (readAll : store.ReadAll level templates)
    (complete : Template.gapsOfAll templates = [])
    (first : store.ItemsAreFilled templates [] values)
    (second : store.ItemsAreFilled templates [] others) :
    List.Forall₂ store.Alike values others := by
  match templates with
  | [] =>
      obtain ⟨_, rfl⟩ := first
      obtain ⟨_, rfl⟩ := second
      exact .nil
  | template :: rest =>
      obtain ⟨firstComplete, restComplete⟩ := List.append_eq_nil_iff.mp complete
      replace firstComplete := gapsOfItem_eq_nil firstComplete
      obtain ⟨before, after, _, _, isAll, rfl, isFilled, areFilled⟩ := first
      obtain ⟨rfl, rfl⟩ := List.append_eq_nil_iff.mp isAll.symm
      obtain ⟨item, fills, rfl⟩ := exists_of_itemIsFilled firstComplete isFilled
      obtain ⟨before, after, _, _, isAll, rfl, otherIsFilled, othersAreFilled⟩ := second
      obtain ⟨rfl, rfl⟩ := List.append_eq_nil_iff.mp isAll.symm
      obtain ⟨otherItem, otherFills, rfl⟩ := exists_of_itemIsFilled firstComplete otherIsFilled
      exact .cons (IsFilled.alike template readAll.1 firstComplete fills otherFills)
        (alike_of_areFilled rest readAll.2 restComplete areFilled othersAreFilled)

end

end Store

end SmallScheme
