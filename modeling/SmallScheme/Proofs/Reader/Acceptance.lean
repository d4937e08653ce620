import SmallScheme.Proofs.Reader.Literal

namespace SmallScheme

/-!
# Data that have a written form

What a datum must look like to be read from a text, how deep the reader goes into it, and the two
kinds of datum whose written form says something else.
-/

variable {engine : Regex.Engine}

namespace Datum

mutual

/-- The datum and all data in it have the property. -/
def Everywhere (holds : Datum → Prop) : Datum → Prop
  | .pair head tail => holds (.pair head tail) ∧ Everywhere holds head ∧ Everywhere holds tail
  | .vector items => holds (.vector items) ∧ EverywhereIn holds items
  | .marked mark inner => holds (.marked mark inner) ∧ Everywhere holds inner
  | .program forms => holds (.program forms) ∧ EverywhereIn holds forms
  | .circular items => holds (.circular items) ∧ EverywhereIn holds items
  | datum => holds datum

def EverywhereIn (holds : Datum → Prop) : List Datum → Prop
  | [] => True
  | item :: rest => Everywhere holds item ∧ EverywhereIn holds rest

end

/-- Where a datum is read as the tail of a list, the reader goes one level deeper for it. -/
def Place.deepen (place : Place) (levels : Nat) : Nat :=
  match place with
  | .whole => levels
  | .tail => levels + 1

mutual

/-- How many levels below that of a list or of the datum itself the reader goes at a place. -/
def nesting (place : Place) : Datum → Nat
  | .nil => 0
  | .pair head tail => max (nesting .whole head + 1) (nesting .tail tail)
  | .vector items => place.deepen (nestingIn items)
  | .bytevector bytes => place.deepen (if bytes.isEmpty then 0 else 1)
  | .marked _ inner => place.deepen (nesting .whole inner + 1)
  | _ => place.deepen 0

def nestingIn : List Datum → Nat
  | [] => 0
  | item :: rest => max (nesting .whole item + 1) (nestingIn rest)

end

/-- The datum itself can be read from a text, given that the data in it can. -/
def IsReadable [Regex.Engine] : Datum → Prop
  | .symbol name => Reader.IsName name.toList
  | .regex pattern => Reader.IsPattern pattern.toList ∧ Regex.Engine.compiles pattern
  | .unspecified => False
  | .program _ => False
  | .circular _ => False
  | .handle _ _ => False
  | _ => True

def IsReal : Datum → Prop
  | .real _ => True
  | _ => False

/--
The written form of the datum itself says what it is.  A slash in a pattern would end it, and a
symbol that starts with an at sign would turn the comma before it into another mark.
-/
def IsUnambiguous : Datum → Prop
  | .regex pattern => '/' ∉ pattern.toList
  | .marked .unquote (.symbol name) => name.toList.head? ≠ some '@'
  | _ => True

/-- A datum without numbers other than whole ones and without regular expressions. -/
def IsPlain : Datum → Prop
  | .nil => True
  | .integer _ => True
  | .boolean _ => True
  | .character _ => True
  | .text _ => True
  | .bytevector _ => True
  | .symbol name => Reader.IsName name.toList
  | .pair _ _ => True
  | .vector _ => True
  | .marked .unquote (.symbol name) => name.toList.head? ≠ some '@'
  | .marked _ _ => True
  | _ => False

/-- Plain data are readable, are no reals and are written as what they are. -/
theorem IsPlain.facts
    {datum : Datum}
    (plain : datum.IsPlain) :
    datum.IsReadable ∧ ¬datum.IsReal ∧ datum.IsUnambiguous := by
  cases datum with
  | marked mark inner =>
      refine ⟨trivial, nofun, ?_⟩
      unfold IsUnambiguous
      split
      case h_1 => trivial
      case h_2 same =>
        cases same
        exact plain
      case h_3 => trivial
  | symbol name => exact ⟨plain, nofun, trivial⟩
  | nil => exact ⟨trivial, nofun, trivial⟩
  | integer value => exact ⟨trivial, nofun, trivial⟩
  | boolean value => exact ⟨trivial, nofun, trivial⟩
  | character value => exact ⟨trivial, nofun, trivial⟩
  | text value => exact ⟨trivial, nofun, trivial⟩
  | bytevector bytes => exact ⟨trivial, nofun, trivial⟩
  | pair head tail => exact ⟨trivial, nofun, trivial⟩
  | vector items => exact ⟨trivial, nofun, trivial⟩
  | unspecified => exact plain.elim
  | real value => exact plain.elim
  | regex pattern => exact plain.elim
  | program forms => exact plain.elim
  | circular items => exact plain.elim
  | handle kind shown => exact plain.elim

variable {first second : Datum → Prop}

/-- What holds everywhere in a datum holds of the datum. -/
theorem Everywhere.here
    {datum : Datum}
    (everywhere : datum.Everywhere first) :
    first datum := by
  cases datum <;> simp only [Everywhere] at everywhere <;>
    first
      | exact everywhere
      | exact everywhere.1

mutual

/-- Everywhere in a datum more may be implied. -/
theorem Everywhere.mono
    (implies : ∀ part, first part → second part) :
    ∀ {datum : Datum}, datum.Everywhere first → datum.Everywhere second
  | .pair _ _, ⟨here, head, tail⟩ =>
      ⟨implies _ here, Everywhere.mono implies head, Everywhere.mono implies tail⟩
  | .vector _, ⟨here, items⟩ => ⟨implies _ here, EverywhereIn.mono implies items⟩
  | .marked _ _, ⟨here, inner⟩ => ⟨implies _ here, Everywhere.mono implies inner⟩
  | .program _, ⟨here, forms⟩ => ⟨implies _ here, EverywhereIn.mono implies forms⟩
  | .circular _, ⟨here, items⟩ => ⟨implies _ here, EverywhereIn.mono implies items⟩
  | .nil, here => implies _ here
  | .unspecified, here => implies _ here
  | .integer _, here => implies _ here
  | .real _, here => implies _ here
  | .boolean _, here => implies _ here
  | .character _, here => implies _ here
  | .text _, here => implies _ here
  | .symbol _, here => implies _ here
  | .bytevector _, here => implies _ here
  | .regex _, here => implies _ here
  | .handle _ _, here => implies _ here

/-- Everywhere in some data more may be implied. -/
theorem EverywhereIn.mono
    (implies : ∀ part, first part → second part) :
    ∀ {data : List Datum}, EverywhereIn first data → EverywhereIn second data
  | [], _ => trivial
  | _ :: _, ⟨item, rest⟩ => ⟨Everywhere.mono implies item, EverywhereIn.mono implies rest⟩

end

/-- To hold everywhere in data is to hold everywhere in each of them. -/
theorem everywhereIn_iff
    {data : List Datum} :
    EverywhereIn first data ↔ ∀ datum ∈ data, datum.Everywhere first := by
  induction data with
  | nil =>
      simp [EverywhereIn]
  | cons datum rest inductionHypothesis =>
      simp [EverywhereIn, inductionHypothesis]

end Datum

/-!
## What the reader accepts

Every datum that the reader makes of a text is readable in all its parts, and it is nested no deeper
than the reader goes.  The proof follows the five mutually recursive functions of the reader, by
induction on their fuel.
-/

namespace Reader

/-- A reading that goes on after a first one succeeds exactly if both succeed. -/
theorem bind_eq_ok_iff
    {First Second : Type}
    {first : Except Failure First}
    {rest : First → Except Failure Second}
    {result : Second} :
    first >>= rest = .ok result ↔ ∃ found, first = .ok found ∧ rest found = .ok result := by
  cases first with
  | error failure =>
      simp [bind, Except.bind]
  | ok found =>
      simp [bind, Except.bind]

end Reader

namespace Datum

/-- The datum is readable, and it fits at a place in the nesting that a depth leaves. -/
structure FitsAt [Regex.Engine] (place : Place) (depth : Nat) (datum : Datum) : Prop where
  readable : datum.Everywhere IsReadable
  shallow : depth + datum.nesting place < maxNesting

/-- As the rest of a list a datum is at most one level further in. -/
theorem nesting_tail_le
    (datum : Datum) :
    datum.nesting .tail ≤ datum.nesting .whole + 1 := by
  cases datum <;> simp [nesting, Place.deepen]

/-- What is read after a dot, one level deeper, fits as the tail of the list. -/
theorem FitsAt.tail
    {depth : Nat}
    {datum : Datum}
    (fits : datum.FitsAt .whole (depth + 1)) :
    datum.FitsAt .tail depth := by
  have deeper := datum.nesting_tail_le
  have shallow := fits.shallow
  exact ⟨fits.readable, by omega⟩

/-- A list that fits as the rest of another one fits by itself. -/
theorem FitsAt.whole
    {depth : Nat}
    {datum : Datum}
    (fits : datum.FitsAt .tail depth) :
    datum.FitsAt .whole depth := by
  have deeper : datum.nesting .whole ≤ datum.nesting .tail := by
    cases datum <;> simp [nesting, Place.deepen]
  have shallow := fits.shallow
  exact ⟨fits.readable, by omega⟩

/-- What has no parts fits wherever a datum may stand. -/
theorem FitsAt.atom
    {depth : Nat}
    {datum : Datum}
    (readable : datum.Everywhere IsReadable)
    (flat : datum.nesting .whole = 0)
    (shallow : depth < maxNesting) :
    datum.FitsAt .whole depth :=
  ⟨readable, by rw [flat]; exact shallow⟩

end Datum

namespace Reader

open Datum

variable
  {text rest : List Char}
  {datum : Datum}
  {depth : Nat}

/-- An atom that was accepted can be written. -/
theorem fits_of_readAtom
    (shallow : depth < maxNesting)
    (notHash : text.head? ≠ some '#')
    (accepted : readAtom text = .ok (datum, rest)) :
    datum.FitsAt .whole depth := by
  have shape : text = (spanToken text).1 ++ (spanToken text).2 := by
    rw [spanToken, List.span_eq_takeWhile_dropWhile, List.takeWhile_append_dropWhile]
  unfold readAtom at accepted
  have undelimited := spanToken_fst text
  generalize spanToken text = token at accepted undelimited shape
  obtain ⟨token, after⟩ := token
  dsimp only at accepted undelimited shape
  split at accepted
  case isTrue => cases accepted
  case isFalse notEmptyOrDot =>
    simp only [Bool.or_eq_true, decide_eq_true_eq, not_or] at notEmptyOrDot
    obtain ⟨nonempty, notDot⟩ := notEmptyOrDot
    have nonempty : token ≠ [] := by simpa using nonempty
    have tokenNotHash : token.head? ≠ some '#' := by
      intro isHash
      simp [shape, isHash] at notHash
    split at accepted
    case h_1 number means =>
      cases accepted
      unfold readNumeral at means
      split at means
      · cases means
        exact .atom trivial rfl shallow
      · split_ifs at means
        · split at means
          · cases means
            exact .atom trivial rfl shallow
          · split at means
            · cases means
              exact .atom trivial rfl shallow
            · cases means
        · split at means
          · cases means
            exact .atom trivial rfl shallow
          · cases means
    case h_2 => cases accepted
    case h_3 notNumeric =>
      cases accepted
      have isName : IsName (String.ofList token).toList := by
        rw [String.toList_ofList]
        exact ⟨nonempty, undelimited, notDot, tokenNotHash, notNumeric⟩
      exact .atom isName rfl shallow

/-- A pattern that was accepted can be written. -/
theorem fits_of_readRegex
    (shallow : depth < maxNesting)
    (accepted : readRegex text = .ok (datum, rest)) :
    datum.FitsAt .whole depth := by
  obtain ⟨⟨characters, after⟩, reads, accepted⟩ := bind_eq_ok_iff.mp accepted
  dsimp only at accepted
  split at accepted
  case isTrue compiles =>
    cases accepted
    have readable : IsReadable (.regex (String.ofList characters)) := by
      refine ⟨?_, compiles⟩
      rw [String.toList_ofList]
      exact isPattern_of_readPattern reads
    exact .atom readable rfl shallow
  case isFalse => cases accepted

/-- A character that was accepted can be written. -/
theorem fits_of_readCharacter
    (shallow : depth < maxNesting)
    (accepted : readCharacter text = .ok (datum, rest)) :
    datum.FitsAt .whole depth := by
  unfold readCharacter at accepted
  split at accepted
  · cases accepted
  · dsimp only at accepted
    split_ifs at accepted
    · cases accepted
      exact .atom trivial rfl shallow
    · split at accepted
      · cases accepted
        exact .atom trivial rfl shallow
      · cases accepted

/-- A constant that was accepted can be written. -/
theorem fits_of_readConstant
    (shallow : depth < maxNesting)
    (accepted : readConstant text = .ok (datum, rest)) :
    datum.FitsAt .whole depth := by
  unfold readConstant at accepted
  dsimp only at accepted
  split at accepted
  case h_5 =>
    split_ifs at accepted
    split at accepted
    · cases accepted
      exact .atom trivial rfl shallow
    · cases accepted
  all_goals
    cases accepted
    try exact .atom trivial rfl shallow

/-- As many bytes as data, so that an empty bytevector comes from no data. -/
theorem nesting_bytevector
    {items : List Datum}
    {bytes : List UInt8}
    (denotes : items.mapM byte? = some bytes) :
    (Datum.bytevector bytes).nesting .whole ≤ nestingIn items := by
  cases items with
  | nil =>
      cases denotes
      rfl
  | cons item others =>
      have atMost : (Datum.bytevector bytes).nesting .whole ≤ 1 := by
        rw [nesting, Place.deepen]
        split <;> omega
      rw [nestingIn]
      omega

/-- What the functions of the reader make of a text with some fuel fits where they read it. -/
structure Accepts [Regex.Engine] (fuel : Nat) : Prop where
  whole :
    ∀ {depth text datum rest},
      readDatum fuel depth text = .ok (datum, rest) → datum.FitsAt .whole depth
  marked :
    ∀ {depth mark text datum rest},
      readMarked fuel depth mark text = .ok (datum, rest) → datum.FitsAt .whole depth
  items :
    ∀ {depth text data rest},
      depth < maxNesting →
      readItems fuel depth text = .ok (data, rest) →
      EverywhereIn IsReadable data ∧ depth + nestingIn data < maxNesting
  tail :
    ∀ {depth started text datum rest},
      depth < maxNesting →
      readTail fuel depth started text = .ok (datum, rest) →
      datum.FitsAt .tail depth
  element :
    ∀ {depth text datum rest},
      depth < maxNesting →
      readElement fuel depth text = .ok (datum, rest) →
      datum.FitsAt .tail depth

namespace Accepts

variable
  {fuel depth : Nat}
  {text rest : List Char}
  {datum : Datum}

/-- An accepted datum fits if its parts do, which were read with less fuel. -/
theorem whole_succ
    (holds : Accepts fuel)
    (accepted : readDatum (fuel + 1) depth text = .ok (datum, rest)) :
    datum.FitsAt .whole depth := by
  rw [readDatum] at accepted
  rcases Nat.lt_or_ge depth maxNesting with shallow | deep
  case inr =>
    rw [if_pos deep] at accepted
    cases accepted
  rw [if_neg (Nat.not_le.mpr shallow)] at accepted
  split at accepted
  case h_1 => exact holds.marked accepted
  case h_2 => exact holds.marked accepted
  case h_3 => exact holds.marked accepted
  case h_4 => exact holds.marked accepted
  case h_5 => exact (holds.tail shallow accepted).whole
  case h_6 =>
    obtain ⟨_, _, accepted⟩ := bind_eq_ok_iff.mp accepted
    cases accepted
    exact .atom trivial rfl shallow
  case h_7 =>
    obtain ⟨⟨items, after⟩, reads, accepted⟩ := bind_eq_ok_iff.mp accepted
    cases accepted
    obtain ⟨readable, nested⟩ := holds.items shallow reads
    exact ⟨⟨trivial, readable⟩, nested⟩
  case h_8 =>
    obtain ⟨⟨items, after⟩, reads, accepted⟩ := bind_eq_ok_iff.mp accepted
    obtain ⟨_, nested⟩ := holds.items shallow reads
    dsimp only at accepted
    split at accepted
    case h_1 bytes denotes =>
      cases accepted
      have atMost := nesting_bytevector denotes
      exact ⟨trivial, by omega⟩
    case h_2 => cases accepted
  case h_9 => exact fits_of_readRegex shallow accepted
  case h_10 => exact fits_of_readCharacter shallow accepted
  case h_11 => exact fits_of_readConstant shallow accepted
  case h_12 notHash =>
    refine fits_of_readAtom shallow ?_ accepted
    intro isHash
    obtain ⟨others, shape⟩ := List.head?_eq_some_iff.mp isHash
    exact notHash others shape

/-- A marked datum fits if what it marks does. -/
theorem marked_succ
    (holds : Accepts fuel)
    {mark : Mark}
    (accepted : readMarked (fuel + 1) depth mark text = .ok (datum, rest)) :
    datum.FitsAt .whole depth := by
  rw [readMarked] at accepted
  obtain ⟨⟨inner, after⟩, reads, accepted⟩ := bind_eq_ok_iff.mp accepted
  cases accepted
  obtain ⟨readable, nested⟩ := holds.whole reads
  refine ⟨⟨trivial, readable⟩, ?_⟩
  rw [nesting, Place.deepen]
  omega

/-- Accepted items fit one by one. -/
theorem items_succ
    (holds : Accepts fuel)
    {data : List Datum}
    (shallow : depth < maxNesting)
    (accepted : readItems (fuel + 1) depth text = .ok (data, rest)) :
    EverywhereIn IsReadable data ∧ depth + nestingIn data < maxNesting := by
  rw [readItems] at accepted
  split at accepted
  · cases accepted
  · cases accepted
    exact ⟨trivial, shallow⟩
  · obtain ⟨⟨item, afterItem⟩, readsItem, accepted⟩ := bind_eq_ok_iff.mp accepted
    obtain ⟨⟨items, after⟩, readsItems, accepted⟩ := bind_eq_ok_iff.mp accepted
    cases accepted
    obtain ⟨readableItem, nestedItem⟩ := holds.whole readsItem
    obtain ⟨readableItems, nestedItems⟩ := holds.items shallow readsItems
    refine ⟨⟨readableItem, readableItems⟩, ?_⟩
    rw [nestingIn]
    omega

/-- The rest of a list fits if its parts do. -/
theorem tail_succ
    (holds : Accepts fuel)
    {started : Bool}
    (shallow : depth < maxNesting)
    (accepted : readTail (fuel + 1) depth started text = .ok (datum, rest)) :
    datum.FitsAt .tail depth := by
  rw [readTail] at accepted
  split at accepted
  · cases accepted
  · cases accepted
    exact ⟨trivial, shallow⟩
  · split_ifs at accepted
    · obtain ⟨⟨tail, afterTail⟩, reads, accepted⟩ := bind_eq_ok_iff.mp accepted
      dsimp only at accepted
      split at accepted
      · cases accepted
        exact (holds.whole reads).tail
      · cases accepted
    · exact holds.element shallow accepted
  · exact holds.element shallow accepted

/-- An accepted item fits as a datum does. -/
theorem element_succ
    (holds : Accepts fuel)
    (shallow : depth < maxNesting)
    (accepted : readElement (fuel + 1) depth text = .ok (datum, rest)) :
    datum.FitsAt .tail depth := by
  rw [readElement] at accepted
  obtain ⟨⟨head, afterHead⟩, readsHead, accepted⟩ := bind_eq_ok_iff.mp accepted
  obtain ⟨⟨tail, after⟩, readsTail, accepted⟩ := bind_eq_ok_iff.mp accepted
  cases accepted
  obtain ⟨readableHead, nestedHead⟩ := holds.whole readsHead
  obtain ⟨readableTail, nestedTail⟩ := holds.tail shallow readsTail
  refine ⟨⟨trivial, readableHead, readableTail⟩, ?_⟩
  rw [nesting]
  omega

end Accepts

/-- With every amount of fuel, by the fuel: the functions call one another with one less. -/
theorem accepts
    (fuel : Nat) :
    Accepts fuel := by
  induction fuel with
  | zero =>
      constructor <;> intros <;>
        simp_all [readDatum, readMarked, readItems, readTail, readElement]
  | succ fuel inductionHypothesis =>
      exact ⟨inductionHypothesis.whole_succ, inductionHypothesis.marked_succ,
        inductionHypothesis.items_succ, inductionHypothesis.tail_succ,
        inductionHypothesis.element_succ⟩

end Reader

end SmallScheme
