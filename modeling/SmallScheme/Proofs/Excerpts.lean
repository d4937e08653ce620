import Mathlib.Data.List.Infix
import SmallScheme.Reader.ReadError

namespace SmallScheme

/-!
# Excerpts

An excerpt is put together from whole characters.  It is the same as if offsets were moved back to
boundaries and the text were cut there.

An offset counts the bytes of the UTF-8 encoding before a place.  It is a boundary if a character
begins there or the text ends there; a text may only be cut at boundaries.
-/

namespace Text

/-- Go back to a boundary, byte by byte. -/
def backToBoundary (text : String) : Nat → Nat
  | 0 => 0
  | offset + 1 =>
      if String.Pos.Raw.isValid text ⟨offset + 1⟩ then
        offset + 1
      else
        backToBoundary text offset

/-- The last boundary up to an offset, which may lie beyond the end. -/
def lastBoundary (text : String) (offset : Nat) : Nat :=
  backToBoundary text (min offset text.utf8ByteSize)

/-- The bytes between two offsets as a text, if both are boundaries and come in this order. -/
def slice? (text : String) (start stop : Nat) : Option String :=
  if bounds :
      start ≤ stop ∧ String.Pos.Raw.IsValid text ⟨start⟩ ∧ String.Pos.Raw.IsValid text ⟨stop⟩ then
    some (text.extract ⟨⟨start⟩, bounds.2.1⟩ ⟨⟨stop⟩, bounds.2.2⟩)
  else
    none

/-- Where the excerpt around an offset starts. -/
def excerptStart (text : String) (offset : Nat) : Nat :=
  lastBoundary text (offset - excerptLead)

/-- Where the excerpt around an offset stops. -/
def excerptStop (text : String) (offset : Nat) : Nat :=
  lastBoundary text (excerptStart text offset + excerptWidth)

/-- The mark for a part of the text that was cut off. -/
def cutMark (cut : List Char) : List Char :=
  if cut.isEmpty then [] else ['.', '.', '.']

variable {before piece after text : List Char}

/-! Sizes. -/

@[simp]
theorem byteSize_append
    (before after : List Char) :
    byteSize (before ++ after) = byteSize before + byteSize after := by
  induction before with
  | nil => rw [List.nil_append, byteSize, Nat.zero_add]
  | cons character rest inductionHypothesis =>
      rw [List.cons_append, byteSize, byteSize, inductionHypothesis, Nat.add_assoc]

/-- The size is that of the encoding. -/
theorem utf8ByteSize_ofList
    (text : List Char) :
    (String.ofList text).utf8ByteSize = byteSize text := by
  induction text with
  | nil => rfl
  | cons character rest inductionHypothesis =>
      have one : (String.ofList [character]).utf8ByteSize = character.utf8Size := by simp
      rw [← List.singleton_append, String.ofList_append, String.utf8ByteSize_append, one,
        inductionHypothesis]
      rfl

/-! Boundaries. -/

/-- Boundaries are where a beginning of the text ends. -/
theorem isValid_iff
    {offset : Nat} :
    String.Pos.Raw.IsValid (String.ofList text) ⟨offset⟩ ↔
      ∃ before after, text = before ++ after ∧ byteSize before = offset := by
  rw [String.Pos.Raw.isValid_ofList]
  simp only [utf8ByteSize_ofList]
  constructor
  · rintro ⟨count, rfl⟩
    exact ⟨text.take count, text.drop count, (List.take_append_drop count text).symm, rfl⟩
  · rintro ⟨before, after, rfl, rfl⟩
    exact ⟨before.length, by rw [List.take_left]⟩

/-- Going back one comes to a boundary, the last one before. -/
theorem backToBoundary_spec
    (text : String)
    (offset : Nat) :
    String.Pos.Raw.IsValid text ⟨backToBoundary text offset⟩ ∧
      backToBoundary text offset ≤ offset ∧
      ∀ boundary ≤ offset,
        String.Pos.Raw.IsValid text ⟨boundary⟩ → boundary ≤ backToBoundary text offset := by
  induction offset with
  | zero => exact ⟨String.Pos.Raw.isValid_zero, Nat.le_refl 0, fun _ below _ => below⟩
  | succ offset inductionHypothesis =>
      obtain ⟨isValid, below, isLast⟩ := inductionHypothesis
      rw [backToBoundary]
      split
      case isTrue here =>
        exact ⟨String.Pos.Raw.isValid_eq_true_iff.mp here, Nat.le_refl _, fun _ below _ => below⟩
      case isFalse notHere =>
        refine ⟨isValid, Nat.le_succ_of_le below, fun boundary fits alsoValid => ?_⟩
        rcases Nat.le_succ_iff.mp fits with less | rfl
        · exact isLast boundary less alsoValid
        · exact (notHere (String.Pos.Raw.isValid_eq_true_iff.mpr alsoValid)).elim

/-! Beginnings of texts. -/

/-- A text is split behind its longest beginning of at most so many bytes. -/
structure IsSplit (budget : Nat) (text kept cut : List Char) : Prop where
  whole : kept ++ cut = text
  fits : byteSize kept ≤ budget
  tooMuch :
    ∀ {character : Char} {rest : List Char},
      cut = character :: rest → budget < byteSize kept + character.utf8Size

theorem isSplit_splitBytes
    (budget : Nat)
    (text : List Char) :
    IsSplit budget text (splitBytes budget text).1 (splitBytes budget text).2 := by
  refine ⟨splitBytes_append budget text, ?_, fun {character rest} cut => ?_⟩
  · induction text generalizing budget with
    | nil => exact Nat.zero_le budget
    | cons first others inductionHypothesis =>
        rw [splitBytes]
        split
        case isTrue fits =>
          have othersFit := inductionHypothesis (budget - first.utf8Size)
          dsimp only [byteSize]
          omega
        case isFalse => exact Nat.zero_le budget
  · induction text generalizing budget with
    | nil => cases cut
    | cons first others inductionHypothesis =>
        rw [splitBytes] at cut ⊢
        split
        case isTrue fits =>
          rw [if_pos fits] at cut
          have tooMuch := inductionHypothesis (budget - first.utf8Size) cut
          dsimp only [byteSize]
          omega
        case isFalse tooMuch =>
          rw [if_neg tooMuch] at cut
          cases cut
          exact (Nat.lt_of_not_le tooMuch).trans_eq (Nat.zero_add _).symm

theorem isSplit_of_splitBytes
    {budget : Nat}
    {kept cut : List Char}
    (split : splitBytes budget text = (kept, cut)) :
    IsSplit budget text kept cut := by
  have isSplit := isSplit_splitBytes budget text
  rwa [split] at isSplit

/-- If anything is cut off, at most three bytes are missing to the budget. -/
theorem IsSplit.budget_le
    {budget : Nat}
    {kept cut : List Char}
    (isSplit : IsSplit budget text kept cut)
    (cutOff : cut ≠ []) :
    budget ≤ byteSize kept + 3 := by
  obtain ⟨character, rest, rfl⟩ := List.exists_cons_of_ne_nil cutOff
  have tooMuch := isSplit.tooMuch rfl
  have := character.utf8Size_le_four
  omega

/-- With so many more bytes the beginning is longer by a text of that size in front of it. -/
theorem splitBytes_front
    (before text : List Char)
    (budget : Nat) :
    splitBytes (byteSize before + budget) (before ++ text) =
      (before ++ (splitBytes budget text).1, (splitBytes budget text).2) := by
  induction before with
  | nil => rw [byteSize, Nat.zero_add]; rfl
  | cons character rest inductionHypothesis =>
      have fits : character.utf8Size ≤ byteSize (character :: rest) + budget := by
        rw [byteSize]; omega
      have left :
          byteSize (character :: rest) + budget - character.utf8Size = byteSize rest + budget := by
        rw [byteSize]; omega
      rw [List.cons_append, splitBytes, if_pos fits, left, inductionHypothesis]
      rfl

/-- The longest beginning of at most so many bytes ends at the last boundary up to there. -/
theorem lastBoundary_eq
    (text : List Char)
    (offset : Nat) :
    lastBoundary (String.ofList text) offset = byteSize (splitBytes offset text).1 := by
  obtain ⟨isValid, below, isLast⟩ :=
    backToBoundary_spec (String.ofList text) (min offset (byteSize text))
  rw [lastBoundary, utf8ByteSize_ofList]
  rcases split : splitBytes offset text with ⟨kept, cut⟩
  obtain ⟨rfl, fits, tooMuch⟩ := isSplit_of_splitBytes split
  have inside : byteSize kept ≤ byteSize (kept ++ cut) := by
    rw [byteSize_append]
    exact Nat.le_add_right _ _
  refine Nat.le_antisymm ?_ (isLast _ (Nat.le_min.mpr ⟨fits, inside⟩) ?_)
  · obtain ⟨before, after, same, isBoundary⟩ := isValid_iff.mp isValid
    rw [← isBoundary] at below ⊢
    rcases List.append_eq_append_iff.mp same with ⟨extra, rfl, isCut⟩ | ⟨extra, rfl, _⟩
    · cases extra with
      | nil => rw [List.append_nil]
      | cons character rest =>
          have := tooMuch isCut
          rw [byteSize_append, byteSize] at below
          omega
    · rw [byteSize_append]
      exact Nat.le_add_right _ _
  · exact isValid_iff.mpr ⟨kept, cut, rfl, rfl⟩

/-- To cut a text before and behind a piece of it leaves the piece. -/
theorem slice?_append
    (before piece after : List Char) :
    slice? (String.ofList (before ++ piece ++ after)) (byteSize before)
        (byteSize before + byteSize piece) =
      some (String.ofList piece) := by
  have starts :
      String.Pos.Raw.IsValid (String.ofList (before ++ piece ++ after)) ⟨byteSize before⟩ :=
    isValid_iff.mpr ⟨before, piece ++ after, List.append_assoc _ _ _, rfl⟩
  have stops :
      String.Pos.Raw.IsValid (String.ofList (before ++ piece ++ after))
        ⟨byteSize before + byteSize piece⟩ :=
    isValid_iff.mpr ⟨before ++ piece, after, rfl, byteSize_append _ _⟩
  rw [slice?, dif_pos ⟨Nat.le_add_right _ _, starts, stops⟩]
  refine congrArg some (String.toByteArray_inj.mp ?_)
  have encoded (text : List Char) : (String.ofList text).toByteArray.size = byteSize text :=
    utf8ByteSize_ofList text
  simp only [String.toByteArray_extract, String.ofList_append, String.toByteArray_append]
  rw [ByteArray.append_assoc, ← encoded before, ← encoded piece]
  exact (ByteArray.extract_append_size_add (i := 0)).trans (ByteArray.extract_append_eq_left rfl)

/-- Every offset inside a text lies in one of its characters. -/
theorem exists_character
    {offset : Nat}
    (inside : offset < byteSize text) :
    ∃ front character back,
      text = front ++ character :: back ∧ byteSize front ≤ offset ∧
        offset < byteSize front + character.utf8Size := by
  induction text generalizing offset with
  | nil => cases inside
  | cons first rest inductionHypothesis =>
      rw [byteSize] at inside
      by_cases here : offset < first.utf8Size
      · exact ⟨[], first, rest, rfl, Nat.zero_le offset, by rw [byteSize]; omega⟩
      · obtain ⟨front, character, back, rfl, before, after⟩ :=
          inductionHypothesis (show offset - first.utf8Size < byteSize rest by omega)
        refine ⟨first :: front, character, back, rfl, ?_, ?_⟩ <;> rw [byteSize] <;> omega

/-- What is put on one line has no line ends. -/
theorem not_lineEnd_of_mem_onOneLine
    {character : Char}
    (member : character ∈ onOneLine piece) :
    character ≠ '\r' ∧ character ≠ '\n' := by
  obtain ⟨original, kept, rfl⟩ := List.mem_map.mp member
  have notReturn : original ≠ '\r' := of_decide_eq_true (List.mem_filter.mp kept).2
  split
  case isTrue => decide
  case isFalse notFeed =>
    exact ⟨notReturn, notFeed⟩

/-- The three parts that an excerpt makes of a text, and what is known about where it is cut. -/
theorem exists_parts
    (text : List Char)
    (offset : Nat) :
    ∃ before piece after,
      text = before ++ piece ++ after ∧
        excerptStart (String.ofList text) offset = byteSize before ∧
        excerptStop (String.ofList text) offset = byteSize before + byteSize piece ∧
        excerpt text offset = cutMark before ++ onOneLine piece ++ cutMark after ∧
        byteSize piece ≤ excerptWidth ∧
        (offset < byteSize text →
          byteSize before ≤ offset ∧ offset < byteSize before + byteSize piece) := by
  rcases first : splitBytes (offset - excerptLead) text with ⟨before, fromStart⟩
  have isLead := isSplit_of_splitBytes first
  have leadFits := isLead.fits
  obtain rfl := isLead.whole
  rcases second : splitBytes excerptWidth fromStart with ⟨piece, after⟩
  have isPiece := isSplit_of_splitBytes second
  obtain rfl := isPiece.whole
  have starts :
      excerptStart (String.ofList (before ++ (piece ++ after))) offset = byteSize before := by
    rw [excerptStart, lastBoundary_eq, first]
  have stops :
      excerptStop (String.ofList (before ++ (piece ++ after))) offset =
        byteSize before + byteSize piece := by
    rw [excerptStop, starts, lastBoundary_eq, splitBytes_front, second, byteSize_append]
  have isExcerpt :
      excerpt (before ++ (piece ++ after)) offset =
        cutMark before ++ onOneLine piece ++ cutMark after := by
    rw [excerpt, first]
    dsimp only
    rw [second]
    rfl
  refine ⟨before, piece, after, (List.append_assoc _ _ _).symm, starts, stops, isExcerpt,
    isPiece.fits, fun inside => ⟨by omega, ?_⟩⟩
  rw [byteSize_append, byteSize_append] at inside
  by_cases ends : after = []
  · rw [ends, byteSize] at inside
    exact inside
  · -- Something was cut off, so at most three bytes are missing to the lead and to the width.
    have startIsLate := isLead.budget_le fun none => ends (List.append_eq_nil_iff.mp none).2
    have pieceIsLong := isPiece.budget_le ends
    unfold excerptLead at startIsLate
    unfold excerptWidth at pieceIsLong
    omega

end Text

/--
The excerpt of a reading error is a piece of the text on one line, with marks where text was cut
off.  The piece is what lies between two boundaries, so it consists of whole characters.  It has at
most a hundred bytes, and if the error is about a place inside the text, it has the character there.
-/
theorem excerpts_show_whole_characters_around_their_place
    (cause : ReadCause)
    (text : List Char)
    (offset : Nat) :
    ∃ before piece after : List Char,
      text = before ++ piece ++ after ∧
        (String.ofList before).utf8ByteSize = Text.excerptStart (String.ofList text) offset ∧
        Text.slice? (String.ofList text) (Text.excerptStart (String.ofList text) offset)
            (Text.excerptStop (String.ofList text) offset) =
          some (String.ofList piece) ∧
        (ReadError.around cause text offset).excerpt =
          String.ofList (Text.cutMark before ++ Text.onOneLine piece ++ Text.cutMark after) ∧
        (∀ character ∈ Text.onOneLine piece, character ≠ '\r' ∧ character ≠ '\n') ∧
        (String.ofList piece).utf8ByteSize ≤ 100 ∧
        (offset < (String.ofList text).utf8ByteSize →
          ∃ front character back,
            piece = front ++ character :: back ∧
              (String.ofList (before ++ front)).utf8ByteSize ≤ offset ∧
              offset <
                (String.ofList (before ++ front)).utf8ByteSize + character.utf8Size) := by
  obtain ⟨before, piece, after, whole, starts, stops, isExcerpt, fits, covers⟩ :=
    Text.exists_parts text offset
  refine ⟨before, piece, after, whole, (Text.utf8ByteSize_ofList before).trans starts.symm, ?_,
    congrArg String.ofList isExcerpt, fun _ => Text.not_lineEnd_of_mem_onOneLine, ?_,
    fun inside => ?_⟩
  · rw [starts, stops, whole]
    exact Text.slice?_append before piece after
  · rw [Text.utf8ByteSize_ofList]
    exact fits
  · rw [Text.utf8ByteSize_ofList] at inside
    obtain ⟨starts, stops⟩ := covers inside
    obtain ⟨front, character, back, rfl, reached, passed⟩ :=
      Text.exists_character (show offset - Text.byteSize before < Text.byteSize piece by omega)
    refine ⟨front, character, back, rfl, ?_, ?_⟩ <;>
      rw [Text.utf8ByteSize_ofList, Text.byteSize_append] <;> omega

/-- With three bytes a character, the offsets 50, 70 and 148 all lie inside of characters. -/
theorem excerpt_of_long_characters :
    70 < (String.ofList (List.replicate 50 '€')).utf8ByteSize ∧
      (ReadError.around .endOfText (List.replicate 50 '€') 70).excerpt =
        String.ofList ("...".toList ++ List.replicate 33 '€' ++ "...".toList) ∧
      ∃ before piece after : List Char,
        List.replicate 50 '€' = before ++ piece ++ after ∧
          (String.ofList piece).utf8ByteSize ≤ 100 ∧
          ∃ front character back,
            piece = front ++ character :: back ∧
              (String.ofList (before ++ front)).utf8ByteSize ≤ 70 ∧
              70 < (String.ofList (before ++ front)).utf8ByteSize + character.utf8Size := by
  obtain ⟨before, piece, after, whole, _, _, _, _, fits, covers⟩ :=
    excerpts_show_whole_characters_around_their_place .endOfText (List.replicate 50 '€') 70
  have inside : 70 < (String.ofList (List.replicate 50 '€')).utf8ByteSize := by decide +kernel
  exact ⟨inside, by decide +kernel, before, piece, after, whole, fits, covers inside⟩

end SmallScheme
