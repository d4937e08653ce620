import SmallScheme.Proofs.Store.Growth

namespace SmallScheme

/-!
# Outlines of values

A value without cycles can be spelled out down to its leaves.  Its outline has identifiers by their
names and texts and bytes by what is in them, so two values with the same outline differ in nothing
but the identity of objects and the scopes of identifiers.
-/

inductive Outline
  /-- A value that nothing but itself is like. -/
  | leaf (value : Value)
  | identifier (name : String)
  | text (text : String)
  | bytes (bytes : List UInt8)
  | pair (head tail : Outline)
  | vector (items : List Outline)
  | marked (mark : Mark) (inner : Outline)

/-- The value is no identifier, and nothing is in it that the store keeps. -/
def Value.IsBare : Value → Prop
  | .symbol _ => False
  | .scoped _ _ => False
  | .text _ => False
  | .bytevector _ => False
  | .pair _ => False
  | .vector _ => False
  | .marked _ _ => False
  | _ => True

theorem Value.IsBare.not_identified
    {value : Value}
    {name : String}
    (bare : value.IsBare) :
    value.identifier? ≠ some name := by
  intro identified
  cases value <;> first | exact bare.elim | cases identified

namespace Store

mutual

/-- The value has the outline. -/
def Shows (store : Store) : Outline → Value → Prop
  | .leaf value, shown => shown = value ∧ value.IsBare
  | .identifier name, shown => shown.identifier? = some name
  | .text text, shown => ∃ address, shown = .text address ∧ store.textAt address = text
  | .bytes bytes, shown =>
      ∃ address, shown = .bytevector address ∧ (store.bytevectorAt address).toList = bytes
  | .pair head tail, shown =>
      ∃ address headShown tailShown,
        shown = .pair address ∧ store.pairs[address]? = some ⟨headShown, tailShown⟩ ∧
          Shows store head headShown ∧ Shows store tail tailShown
  | .vector items, shown =>
      ∃ address itemsShown,
        shown = .vector address ∧ store.vectors[address]? = some (List.toArray itemsShown) ∧
          ShowAll store items itemsShown
  | .marked mark inner, shown =>
      ∃ address innerShown,
        shown = .marked mark address ∧ store.marked[address]? = some innerShown ∧
          Shows store inner innerShown

/-- The values have the outlines, one by one. -/
def ShowAll (store : Store) : List Outline → List Value → Prop
  | [], shown => shown = []
  | item :: rest, shown =>
      ∃ itemShown restShown,
        shown = itemShown :: restShown ∧ Shows store item itemShown ∧
          ShowAll store rest restShown

end

variable {store before after : Store}

mutual

theorem Shows.grows
    (grows : before.Grows after)
    (outline : Outline)
    {value : Value}
    (shows : before.Shows outline value) :
    after.Shows outline value := by
  match outline with
  | .leaf _ => exact shows
  | .identifier _ => exact shows
  | .text text =>
      obtain ⟨address, rfl, same⟩ := shows
      exact ⟨address, rfl, by rw [← same, textAt, textAt, grows.texts]⟩
  | .bytes bytes =>
      obtain ⟨address, rfl, same⟩ := shows
      exact ⟨address, rfl, by rw [← same, bytevectorAt, bytevectorAt, grows.bytevectors]⟩
  | .pair head tail =>
      obtain ⟨address, headShown, tailShown, rfl, found, showsHead, showsTail⟩ := shows
      exact ⟨address, headShown, tailShown, rfl, grows.pairs found,
        Shows.grows grows head showsHead, Shows.grows grows tail showsTail⟩
  | .vector items =>
      obtain ⟨address, itemsShown, rfl, found, showAll⟩ := shows
      exact ⟨address, itemsShown, rfl, grows.vectors found, ShowAll.grows grows items showAll⟩
  | .marked mark inner =>
      obtain ⟨address, innerShown, rfl, found, showsInner⟩ := shows
      exact ⟨address, innerShown, rfl, grows.marked found, Shows.grows grows inner showsInner⟩

theorem ShowAll.grows
    (grows : before.Grows after)
    (outlines : List Outline)
    {values : List Value}
    (showAll : before.ShowAll outlines values) :
    after.ShowAll outlines values := by
  match outlines with
  | [] => exact showAll
  | outline :: rest =>
      obtain ⟨value, others, rfl, shows, showsRest⟩ := showAll
      exact ⟨value, others, rfl, Shows.grows grows outline shows,
        ShowAll.grows grows rest showsRest⟩

end

/-! The kind of a value tells the kind of its outline. -/

section Kinds

variable
  {outline : Outline}
  {address : Nat}

theorem Shows.of_pair
    (shows : store.Shows outline (.pair address)) :
    ∃ head tail headShown tailShown,
      outline = .pair head tail ∧ store.pairs[address]? = some ⟨headShown, tailShown⟩ ∧
        store.Shows head headShown ∧ store.Shows tail tailShown := by
  cases outline with
  | pair head tail =>
      obtain ⟨_, headShown, tailShown, same, found, showsHead, showsTail⟩ := shows
      cases same
      exact ⟨head, tail, headShown, tailShown, rfl, found, showsHead, showsTail⟩
  | leaf value =>
      obtain ⟨rfl, bare⟩ := shows
      exact bare.elim
  | identifier name => cases shows
  | _ => simp [Shows] at shows

theorem Shows.of_vector
    (shows : store.Shows outline (.vector address)) :
    ∃ items itemsShown,
      outline = .vector items ∧ store.vectors[address]? = some (List.toArray itemsShown) ∧
        store.ShowAll items itemsShown := by
  cases outline with
  | vector items =>
      obtain ⟨_, itemsShown, same, found, showAll⟩ := shows
      cases same
      exact ⟨items, itemsShown, rfl, found, showAll⟩
  | leaf value =>
      obtain ⟨rfl, bare⟩ := shows
      exact bare.elim
  | identifier name => cases shows
  | _ => simp [Shows] at shows

theorem Shows.of_marked
    {mark : Mark}
    (shows : store.Shows outline (.marked mark address)) :
    ∃ inner innerShown,
      outline = .marked mark inner ∧ store.marked[address]? = some innerShown ∧
        store.Shows inner innerShown := by
  cases outline with
  | marked own inner =>
      obtain ⟨_, innerShown, same, found, showsInner⟩ := shows
      cases same
      exact ⟨inner, innerShown, rfl, found, showsInner⟩
  | leaf value =>
      obtain ⟨rfl, bare⟩ := shows
      exact bare.elim
  | identifier name => cases shows
  | _ => simp [Shows] at shows

theorem Shows.of_text
    (shows : store.Shows outline (.text address)) :
    outline = .text (store.textAt address) := by
  cases outline with
  | text text =>
      obtain ⟨_, same, rfl⟩ := shows
      cases same
      rfl
  | leaf value =>
      obtain ⟨rfl, bare⟩ := shows
      exact bare.elim
  | identifier name => cases shows
  | _ => simp [Shows] at shows

theorem Shows.of_bytevector
    (shows : store.Shows outline (.bytevector address)) :
    outline = .bytes (store.bytevectorAt address).toList := by
  cases outline with
  | bytes bytes =>
      obtain ⟨_, same, rfl⟩ := shows
      cases same
      rfl
  | leaf value =>
      obtain ⟨rfl, bare⟩ := shows
      exact bare.elim
  | identifier name => cases shows
  | _ => simp [Shows] at shows

theorem Shows.of_identifier
    {value : Value}
    {name : String}
    (identified : value.identifier? = some name)
    (shows : store.Shows outline value) :
    outline = .identifier name := by
  cases outline with
  | identifier own =>
      cases identified.symm.trans shows
      rfl
  | leaf own =>
      obtain ⟨rfl, bare⟩ := shows
      exact (bare.not_identified identified).elim
  | pair head tail =>
      obtain ⟨_, _, _, rfl, _⟩ := shows
      cases identified
  | text text =>
      obtain ⟨_, rfl, _⟩ := shows
      cases identified
  | bytes bytes =>
      obtain ⟨_, rfl, _⟩ := shows
      cases identified
  | vector items =>
      obtain ⟨_, _, rfl, _⟩ := shows
      cases identified
  | marked mark inner =>
      obtain ⟨_, _, rfl, _⟩ := shows
      cases identified

theorem Shows.of_bare
    {value : Value}
    (bare : value.IsBare)
    (shows : store.Shows outline value) :
    outline = .leaf value := by
  cases outline with
  | leaf own =>
      obtain ⟨rfl, _⟩ := shows
      rfl
  | identifier name => exact (bare.not_identified shows).elim
  | pair head tail =>
      obtain ⟨_, _, _, rfl, _⟩ := shows
      exact bare.elim
  | text text =>
      obtain ⟨_, rfl, _⟩ := shows
      exact bare.elim
  | bytes bytes =>
      obtain ⟨_, rfl, _⟩ := shows
      exact bare.elim
  | vector items =>
      obtain ⟨_, _, rfl, _⟩ := shows
      exact bare.elim
  | marked mark inner =>
      obtain ⟨_, _, rfl, _⟩ := shows
      exact bare.elim

end Kinds

mutual

/-- A value has one outline at most. -/
theorem Shows.unique
    (first second : Outline)
    {value : Value}
    (showsFirst : store.Shows first value)
    (showsSecond : store.Shows second value) :
    first = second := by
  match first with
  | .leaf own =>
      obtain ⟨rfl, bare⟩ := showsFirst
      exact (showsSecond.of_bare bare).symm
  | .identifier name => exact (showsSecond.of_identifier showsFirst).symm
  | .text text =>
      obtain ⟨address, rfl, rfl⟩ := showsFirst
      exact showsSecond.of_text.symm
  | .bytes bytes =>
      obtain ⟨address, rfl, rfl⟩ := showsFirst
      exact showsSecond.of_bytevector.symm
  | .pair head tail =>
      obtain ⟨address, headShown, tailShown, rfl, found, showsHead, showsTail⟩ := showsFirst
      obtain ⟨otherHead, otherTail, _, _, rfl, foundOther, showsOtherHead, showsOtherTail⟩ :=
        showsSecond.of_pair
      cases found.symm.trans foundOther
      rw [Shows.unique head otherHead showsHead showsOtherHead,
        Shows.unique tail otherTail showsTail showsOtherTail]
  | .vector items =>
      obtain ⟨address, itemsShown, rfl, found, showItems⟩ := showsFirst
      obtain ⟨otherItems, _, rfl, foundOther, showOtherItems⟩ := showsSecond.of_vector
      cases found.symm.trans foundOther
      rw [ShowAll.unique items otherItems showItems showOtherItems]
  | .marked mark inner =>
      obtain ⟨address, innerShown, rfl, found, showsInner⟩ := showsFirst
      obtain ⟨otherInner, _, rfl, foundOther, showsOtherInner⟩ := showsSecond.of_marked
      cases found.symm.trans foundOther
      rw [Shows.unique inner otherInner showsInner showsOtherInner]

theorem ShowAll.unique
    (first second : List Outline)
    {values : List Value}
    (showFirst : store.ShowAll first values)
    (showSecond : store.ShowAll second values) :
    first = second := by
  match first with
  | [] =>
      cases showFirst
      cases second with
      | nil => rfl
      | cons _ _ =>
          obtain ⟨_, _, same, _⟩ := showSecond
          cases same
  | outline :: rest =>
      obtain ⟨value, others, rfl, shows, showRest⟩ := showFirst
      cases second with
      | nil => cases showSecond
      | cons otherOutline otherRest =>
          obtain ⟨_, _, same, showsOther, showOtherRest⟩ := showSecond
          cases same
          rw [Shows.unique outline otherOutline shows showsOther,
            ShowAll.unique rest otherRest showRest showOtherRest]

end

end Store

end SmallScheme
