import SmallScheme.Proofs.Quasiquotation.Meaning
import SmallScheme.Proofs.Store.Likeness
import SmallScheme.Proofs.Store.Parts

namespace SmallScheme

/-!
# Every finite value is read as one template

How a value is read is told by its mark and by what it is, so that there is one template at most.  A
value without cycles has an outline.  On the way down an outline the places of the store are all
different, so that the extent of the store bounds how deep one can go, and what is read of a value
as a template is no deeper than its outline.
-/

/-! At most one template. -/

namespace Quasiquotation

/-- The ways in which values are read as templates. -/
inductive Reading
  | constant
  | identifier
  | unquoted
  | «spliced»
  | marked
  | pair
  | vector

def Template.reading : Template → Reading
  | .constant _ => .constant
  | .identifier _ _ => .identifier
  | .unquoted _ _ => .unquoted
  | .spliced _ _ => .spliced
  | .marked _ _ _ => .marked
  | .pair _ _ _ => .pair
  | .vector _ _ => .vector

end Quasiquotation

namespace Store

open Quasiquotation (Template Reading)

variable
  {store : Store}
  {level : Nat}

/-- How the value is read at the level: by its mark, or by what it is. -/
def readingOf (store : Store) (level : Nat) (value : Value) : Reading :=
  match store.mark? value, value with
  | some (.unquote, _), _ => if level = 1 then .unquoted else .marked
  | some (.unquoteSplicing, _), _ => if level = 1 then .spliced else .marked
  | some _, _ => .marked
  | none, .pair _ => .pair
  | none, .vector _ => .vector
  | none, .symbol _ => .identifier
  | none, .scoped _ _ => .identifier
  | none, _ => .constant

theorem Reads.reading_eq
    {template : Template}
    (reads : store.Reads level template) :
    template.reading = store.readingOf level template.value := by
  cases template with
  | constant value => cases value <;> first | exact reads.elim | rfl
  | identifier name value =>
      obtain ⟨home, rfl⟩ | rfl := exists_scoped_or_eq_symbol reads <;> rfl
  | unquoted form value =>
      obtain ⟨rfl, hasMark⟩ := reads
      simp [readingOf, Template.value, hasMark.mark?_eq, Template.reading]
  | «spliced» form value =>
      obtain ⟨rfl, hasMark⟩ := reads
      simp [readingOf, Template.value, hasMark.mark?_eq, Template.reading]
  | marked mark inner value =>
      obtain ⟨levels, hasMark, _⟩ := reads
      have isMark : store.mark? (Template.marked mark inner value).value =
          some (mark, inner.value) :=
        hasMark.mark?_eq
      unfold readingOf
      rw [isMark]
      cases mark with
      | quote => rfl
      | quasiquote => rfl
      | unquote => exact (if_neg (levels rfl)).symm
      | unquoteSplicing => exact (if_neg (levels rfl)).symm
  | pair head tail value =>
      obtain ⟨unmarked, ⟨address, rfl, _⟩, _⟩ := reads
      simp [readingOf, Template.value, mark?_eq_none unmarked, Template.reading]
  | vector items value =>
      obtain ⟨address, rfl, _⟩ := reads
      rfl

mutual

/-- A value is read as one template at most. -/
theorem Reads.unique
    (template other : Template)
    {level : Nat}
    (reads : store.Reads level template)
    (readsOther : store.Reads level other)
    (same : template.value = other.value) :
    template = other := by
  have alike : template.reading = other.reading := by
    rw [reads.reading_eq, readsOther.reading_eq, same]
  match template with
  | .constant value =>
      cases other with
      | constant own => exact congrArg Template.constant same
      | _ => cases alike
  | .identifier name value =>
      cases other with
      | identifier own other =>
          obtain rfl : value = other := same
          cases reads.symm.trans readsOther
          rfl
      | _ => cases alike
  | .unquoted form value =>
      cases other with
      | unquoted own other =>
          obtain rfl : value = other := same
          cases reads.2.mark?_eq.symm.trans readsOther.2.mark?_eq
          rfl
      | _ => cases alike
  | .spliced form value =>
      cases other with
      | «spliced» own other =>
          obtain rfl : value = other := same
          cases reads.2.mark?_eq.symm.trans readsOther.2.mark?_eq
          rfl
      | _ => cases alike
  | .marked mark inner value =>
      cases other with
      | marked own otherInner other =>
          obtain rfl : value = other := same
          obtain ⟨rfl, sameInner⟩ : mark = own ∧ inner.value = otherInner.value := by
            simpa using reads.2.1.mark?_eq.symm.trans readsOther.2.1.mark?_eq
          rw [Reads.unique inner otherInner reads.2.2 readsOther.2.2 sameInner]
      | _ => cases alike
  | .pair head tail value =>
      cases other with
      | pair otherHead otherTail other =>
          obtain rfl : value = other := same
          obtain ⟨_, ⟨address, rfl, found⟩, readsHead, readsTail⟩ := reads
          obtain ⟨_, ⟨_, isPair, foundOther⟩, readsOtherHead, readsOtherTail⟩ := readsOther
          cases isPair
          obtain ⟨sameHead, sameTail⟩ :
              head.value = otherHead.value ∧ tail.value = otherTail.value := by
            simpa using found.symm.trans foundOther
          rw [Reads.unique head otherHead readsHead readsOtherHead sameHead,
            Reads.unique tail otherTail readsTail readsOtherTail sameTail]
      | _ => cases alike
  | .vector items value =>
      cases other with
      | vector others other =>
          obtain rfl : value = other := same
          obtain ⟨address, rfl, found, readItems⟩ := reads
          obtain ⟨_, isVector, foundOther, readOthers⟩ := readsOther
          cases isVector
          have sameValues : items.map Template.value = others.map Template.value := by
            simpa using found.symm.trans foundOther
          rw [ReadAll.unique items others readItems readOthers sameValues]
      | _ => cases alike

theorem ReadAll.unique
    (templates others : List Template)
    {level : Nat}
    (readAll : store.ReadAll level templates)
    (readOthers : store.ReadAll level others)
    (same : templates.map Template.value = others.map Template.value) :
    templates = others := by
  match templates, others with
  | [], [] => rfl
  | template :: rest, other :: more =>
      obtain ⟨sameFirst, sameRest⟩ := List.cons_eq_cons.mp same
      rw [Reads.unique template other readAll.1 readOthers.1 sameFirst,
        ReadAll.unique rest more readAll.2 readOthers.2 sameRest]

end

end Store

/-! A template for every outline. -/

namespace Outline

mutual

/-- How many objects with parts are inside one another. -/
def height : Outline → Nat
  | .leaf _ => 0
  | .identifier _ => 0
  | .text _ => 0
  | .bytes _ => 0
  | .pair head tail => max (height head) (height tail) + 1
  | .vector items => heightOfAll items + 1
  | .marked _ inner => height inner + 1

def heightOfAll : List Outline → Nat
  | [] => 0
  | item :: rest => max (height item) (heightOfAll rest)

end

end Outline

namespace Store

variable
  {store : Store}
  {value : Value}
  {outline : Outline}
  {place : Place}

/-! The depth of outlines. -/

/-- At one place there are outlines of one height. -/
theorem height_eq_of_place?_eq
    {other : Value}
    {otherOutline : Outline}
    (isPlace : value.place? = some place)
    (samePlace : other.place? = some place)
    (shows : store.Shows outline value)
    (showsOther : store.Shows otherOutline other) :
    outline.height = otherOutline.height := by
  cases value <;> cases isPlace <;> cases other <;> cases samePlace
  · rw [Shows.unique outline otherOutline shows showsOther]
  · rw [Shows.unique outline otherOutline shows showsOther]
  · obtain ⟨inner, _, rfl, found, showsInner⟩ := shows.of_marked
    obtain ⟨otherInner, _, rfl, foundOther, showsOtherInner⟩ := showsOther.of_marked
    cases found.symm.trans foundOther
    rw [Shows.unique inner otherInner showsInner showsOtherInner]
    rfl
  · rw [Shows.unique outline otherOutline shows showsOther]
  · rw [Shows.unique outline otherOutline shows showsOther]

open Classical in
/-- The places of which the outline is not higher than that. -/
noncomputable def placesBelow (store : Store) (bound : Nat) : Finset Place :=
  {place ∈ store.places |
    ∃ value outline,
      value.place? = some place ∧ store.Shows outline value ∧ outline.height ≤ bound}

theorem mem_placesBelow
    {bound : Nat} :
    place ∈ store.placesBelow bound ↔
      place ∈ store.places ∧
        ∃ value outline,
          value.place? = some place ∧ store.Shows outline value ∧ outline.height ≤ bound := by
  simp only [placesBelow, Finset.mem_filter]

theorem card_placesBelow_lt
    {bound : Nat}
    (present : place ∈ store.places)
    (isPlace : value.place? = some place)
    (shows : store.Shows outline value)
    (less : bound < outline.height) :
    (store.placesBelow bound).card < (store.placesBelow outline.height).card := by
  refine Finset.card_lt_card (Finset.ssubset_iff_subset_ne.mpr ⟨fun other member => ?_, ?_⟩)
  · obtain ⟨isThere, last, shown, isOther, showsLast, below⟩ := mem_placesBelow.mp member
    exact mem_placesBelow.mpr ⟨isThere, last, shown, isOther, showsLast, by omega⟩
  · intro same
    have member : place ∈ store.placesBelow bound :=
      same ▸ mem_placesBelow.mpr ⟨present, value, outline, isPlace, shows, Nat.le_refl _⟩
    obtain ⟨_, other, shown, isOther, showsOther, below⟩ := mem_placesBelow.mp member
    have := height_eq_of_place?_eq isPlace isOther shows showsOther
    omega

mutual

theorem Shows.height_le_card
    (outline : Outline)
    {value : Value}
    (shows : store.Shows outline value) :
    outline.height ≤ (store.placesBelow outline.height).card := by
  match outline with
  | .leaf _ => exact Nat.zero_le _
  | .identifier _ => exact Nat.zero_le _
  | .text _ => exact Nat.zero_le _
  | .bytes _ => exact Nat.zero_le _
  | .pair head tail =>
      have whole := shows
      obtain ⟨address, _, _, rfl, found, showsHead, showsTail⟩ := shows
      have headFits := Shows.height_le_card head showsHead
      have tailFits := Shows.height_le_card tail showsTail
      have fewer {bound : Nat} (less : bound < (Outline.pair head tail).height) :=
        card_placesBelow_lt (pair_mem_places found) rfl whole less
      have fewerHead := @fewer head.height (by rw [Outline.height]; omega)
      have fewerTail := @fewer tail.height (by rw [Outline.height]; omega)
      rw [Outline.height] at fewerHead fewerTail ⊢
      omega
  | .vector items =>
      have whole := shows
      obtain ⟨address, _, rfl, found, showItems⟩ := shows
      have itemsFit := ShowAll.heightOfAll_le_card items showItems
      have present : Place.vector address ∈ store.places := by
        have inside := (Array.getElem?_eq_some_iff.mp found).1
        simp [places, inside]
      have fewer :=
        card_placesBelow_lt present rfl whole
          (show Outline.heightOfAll items < (Outline.vector items).height by
            rw [Outline.height]; omega)
      rw [Outline.height] at fewer ⊢
      omega
  | .marked mark inner =>
      have whole := shows
      obtain ⟨address, _, rfl, found, showsInner⟩ := shows
      have innerFits := Shows.height_le_card inner showsInner
      have present : Place.marked address ∈ store.places := by
        have inside := (Array.getElem?_eq_some_iff.mp found).1
        simp [places, inside]
      have fewer :=
        card_placesBelow_lt present rfl whole
          (show inner.height < (Outline.marked mark inner).height by rw [Outline.height]; omega)
      rw [Outline.height] at fewer ⊢
      omega

theorem ShowAll.heightOfAll_le_card
    (outlines : List Outline)
    {values : List Value}
    (showAll : store.ShowAll outlines values) :
    Outline.heightOfAll outlines ≤ (store.placesBelow (Outline.heightOfAll outlines)).card := by
  match outlines with
  | [] => exact Nat.zero_le _
  | outline :: rest =>
      obtain ⟨_, _, _, shows, showRest⟩ := showAll
      have fits := Shows.height_le_card outline shows
      have restFits := ShowAll.heightOfAll_le_card rest showRest
      rw [Outline.heightOfAll]
      rcases Nat.le_total outline.height (Outline.heightOfAll rest) with le | le
      · rwa [Nat.max_eq_right le]
      · rwa [Nat.max_eq_left le]

end

/-- No outline is deeper than the extent of the store. -/
theorem Shows.height_le_extent
    (shows : store.Shows outline value) :
    outline.height ≤ store.extent := by
  refine (Shows.height_le_card outline shows).trans (Nat.le_trans ?_ store.card_places_le)
  exact Finset.card_le_card fun place member => (mem_placesBelow.mp member).1

/-! Templates. -/

section Templates

open Quasiquotation (Template)

/-- At the level the value is read as a template of a limited height. -/
def IsReadWithin (store : Store) (level bound : Nat) (value : Value) : Prop :=
  ∃ template, template.value = value ∧ store.Reads level template ∧ template.height ≤ bound

/-- A marked form is read as what is under the mark is, or as a part that is unquoted. -/
theorem HasMark.isReadWithin
    {mark : Mark}
    {inner : Value}
    {level bound : Nat}
    (hasMark : store.HasMark value mark inner)
    (readsInner : store.IsReadWithin (mark.levelUnder level) bound inner) :
    store.IsReadWithin level (bound + 1) value := by
  have asMarked (levels : mark.isUnquoting → level ≠ 1) :
      store.IsReadWithin level (bound + 1) value := by
    obtain ⟨template, rfl, reads, fits⟩ := readsInner
    exact ⟨.marked mark template value, rfl, ⟨levels, hasMark, reads⟩, Nat.succ_le_succ fits⟩
  by_cases first : level = 1
  · cases mark with
    | quote => exact asMarked nofun
    | quasiquote => exact asMarked nofun
    | unquote => exact ⟨.unquoted inner value, rfl, ⟨first, hasMark⟩, Nat.zero_le _⟩
    | unquoteSplicing => exact ⟨.spliced inner value, rfl, ⟨first, hasMark⟩, Nat.zero_le _⟩
  · exact asMarked fun _ => first

mutual

theorem Shows.isReadWithin
    (outline : Outline)
    {value : Value}
    (shows : store.Shows outline value)
    (level : Nat) :
    store.IsReadWithin level outline.height value := by
  match outline with
  | .leaf own =>
      obtain ⟨rfl, bare⟩ := shows
      refine ⟨.constant value, rfl, ?_, Nat.zero_le _⟩
      cases value <;> first | exact bare.elim | trivial
  | .identifier name => exact ⟨.identifier name value, rfl, shows, Nat.zero_le _⟩
  | .text _ =>
      obtain ⟨address, rfl, _⟩ := shows
      exact ⟨.constant (.text address), rfl, trivial, Nat.zero_le _⟩
  | .bytes _ =>
      obtain ⟨address, rfl, _⟩ := shows
      exact ⟨.constant (.bytevector address), rfl, trivial, Nat.zero_le _⟩
  | .pair head tail =>
      obtain ⟨address, headValue, tailValue, rfl, found, showsHead, showsTail⟩ := shows
      by_cases isMarked : ∃ mark inner, store.HasMark (.pair address) mark inner
      · obtain ⟨mark, inner, hasMark⟩ := isMarked
        cases hasMark with
        | @spelled _ _ rest keyword _ foundAgain named foundRest =>
            cases found.symm.trans foundAgain
            obtain ⟨innerOutline, nilOutline, _, _, isPair, foundInner, showsInner, _⟩ :=
              showsTail.of_pair
            cases foundRest.symm.trans foundInner
            have smaller : sizeOf innerOutline < sizeOf tail := by
              rw [isPair]
              simp
              omega
            have readsInner := Shows.isReadWithin innerOutline showsInner (mark.levelUnder level)
            have hasMark : store.HasMark (.pair address) mark inner :=
              .spelled foundAgain named foundRest
            obtain ⟨template, same, reads, fits⟩ := hasMark.isReadWithin readsInner
            refine ⟨template, same, reads, fits.trans ?_⟩
            rw [isPair, Outline.height, Outline.height]
            omega
      · obtain ⟨headTemplate, rfl, readsHead, headFits⟩ := Shows.isReadWithin head showsHead level
        obtain ⟨tailTemplate, rfl, readsTail, tailFits⟩ := Shows.isReadWithin tail showsTail level
        refine ⟨.pair headTemplate tailTemplate (.pair address), rfl,
          ⟨fun mark inner hasMark => isMarked ⟨mark, inner, hasMark⟩, ⟨address, rfl, found⟩,
            readsHead, readsTail⟩, ?_⟩
        rw [Template.height, Outline.height]
        omega
  | .vector items =>
      obtain ⟨address, values, rfl, found, showItems⟩ := shows
      obtain ⟨templates, rfl, readAll, fits⟩ := ShowAll.areReadWithin items showItems level
      exact ⟨.vector templates (.vector address), rfl, ⟨address, rfl, found, readAll⟩,
        Nat.succ_le_succ fits⟩
  | .marked mark inner =>
      obtain ⟨address, innerValue, rfl, found, showsInner⟩ := shows
      exact (HasMark.abbreviated found).isReadWithin (Shows.isReadWithin inner showsInner _)
termination_by sizeOf outline

theorem ShowAll.areReadWithin
    (outlines : List Outline)
    {values : List Value}
    (showAll : store.ShowAll outlines values)
    (level : Nat) :
    ∃ templates : List Template,
      templates.map Template.value = values ∧ store.ReadAll level templates ∧
        Template.heightOfAll templates ≤ Outline.heightOfAll outlines := by
  match outlines with
  | [] =>
      obtain rfl := showAll
      exact ⟨[], rfl, trivial, Nat.le_refl _⟩
  | outline :: rest =>
      obtain ⟨_, _, rfl, shows, showRest⟩ := showAll
      obtain ⟨template, rfl, reads, fits⟩ := Shows.isReadWithin outline shows level
      obtain ⟨templates, rfl, readAll, restFit⟩ := ShowAll.areReadWithin rest showRest level
      refine ⟨template :: templates, rfl, ⟨reads, readAll⟩, ?_⟩
      rw [Template.heightOfAll, Outline.heightOfAll]
      omega
termination_by sizeOf outlines

end

end Templates

end Store

end SmallScheme
