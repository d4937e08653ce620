import SmallScheme.Proofs.Reader.Fitting

namespace SmallScheme.Reader

/-!
# Texts that part and meet again

Two texts begin alike, part at a point where both may go on, and meet again if what is left of both
behind the blanks and comments there is one and the same text.  The same data are read from both.
Only a blank that the reader does not pass over keeps them from going on: then neither is accepted.
-/

variable
  {engine : Regex.Engine}
  {First Answer : Type}
  {text rest meeting first second : List Char}

/-- The reader neither passes over the first character nor takes anything up with it. -/
def IsStuck (text : List Char) : Prop :=
  ∃ blank others,
    text = blank :: others ∧ Text.isBlank blank = true ∧ Text.isLayout blank = false

/-- Behind a text with this scan both may follow, and the reader gets from both to the meeting. -/
structure Meets (meeting first second : List Char) (scan : Scan) : Prop where
  fitsFirst : scan.Fits first
  fitsSecond : scan.Fits second
  first : skipGap scan.gap first = meeting
  second : skipGap scan.gap second = meeting

/-- Texts that meet behind a scan meet behind what comes of it. -/
theorem Meets.of_yields
    {scan left : Scan}
    (meets : Meets meeting first second scan)
    (yields : scan.Yields left) :
    Meets meeting first second left where
  fitsFirst := meets.fitsFirst.of_yields yields
  fitsSecond := meets.fitsSecond.of_yields yields
  first := yields.gap_eq ▸ meets.first
  second := yields.gap_eq ▸ meets.second

/-- How the readings of both texts end. -/
inductive EndAlike
    (meeting first second : List Char) :
    Except Failure (Answer × List Char) → Except Failure (Answer × List Char) → Prop
  | failed {failure other : Failure} :
      EndAlike meeting first second (.error failure) (.error other)
  /-- Before the texts part. -/
  | before {answer : Answer} {rest : List Char} :
      Meets meeting first second (Scan.layout.run rest) →
      EndAlike meeting first second (.ok (answer, rest ++ first)) (.ok (answer, rest ++ second))
  /-- Behind the point where they meet again. -/
  | behind {answer : Answer} {rest : List Char} :
      ¬IsStuck meeting →
      EndAlike meeting first second (.ok (answer, rest)) (.ok (answer, rest))

namespace EndAlike

/-- From the meeting on there is one text only. -/
theorem of_same
    {outcome : Except Failure (Answer × List Char)}
    (refused : IsStuck meeting → ∃ failure, outcome = .error failure) :
    EndAlike meeting first second outcome outcome := by
  cases outcome with
  | error failure => exact .failed
  | ok found =>
      refine .behind fun isStuck => ?_
      obtain ⟨failure, fails⟩ := refused isStuck
      cases fails

/-- Where reading is settled, both texts are still to be read. -/
theorem of_settled
    {scan : Scan}
    {outcome one other : Except Failure (Answer × List Char)}
    (meets : Meets meeting first second scan)
    (settledFirst : Settled first scan outcome one)
    (settledSecond : Settled second scan outcome other) :
    EndAlike meeting first second one other := by
  cases settledFirst with
  | rejected =>
      cases settledSecond with
      | rejected => exact .failed
  | accepted yields =>
      cases settledSecond with
      | accepted _ => exact .before (meets.of_yields yields)

/-- Readings that follow one another end alike if each of them does. -/
theorem bind
    {one other : Except Failure (First × List Char)}
    {next nextOther : First × List Char → Except Failure (Answer × List Char)}
    (alike : EndAlike meeting first second one other)
    (thenAlike :
      ∀ answer rest,
        Meets meeting first second (Scan.layout.run rest) →
        EndAlike meeting first second (next (answer, rest ++ first))
          (nextOther (answer, rest ++ second)))
    (thenSame :
      ∀ answer rest,
        ¬IsStuck meeting →
        EndAlike meeting first second (next (answer, rest)) (nextOther (answer, rest))) :
    EndAlike meeting first second (one >>= next) (other >>= nextOther) := by
  cases alike with
  | failed => exact .failed
  | before meets => exact thenAlike _ _ meets
  | behind goesOn => exact thenSame _ _ goesOn

/-- What is made of the answers is made of equal ones. -/
theorem map
    {one other : Except Failure (First × List Char)}
    (make : First → Answer)
    (alike : EndAlike meeting first second one other) :
    EndAlike meeting first second
      (one >>= fun found => return (make found.1, found.2))
      (other >>= fun found => return (make found.1, found.2)) :=
  alike.bind (fun _ _ => .before) fun _ _ => .behind

/-- What is done behind the meeting is the same for both texts. -/
theorem of_goes_on
    {outcome : Except Failure (Answer × List Char)}
    (goesOn : ¬IsStuck meeting) :
    EndAlike meeting first second outcome outcome :=
  .of_same fun isStuck => (goesOn isStuck).elim

end EndAlike

/-! ## Blanks and comments -/

/-- What is left of both texts behind a gap. -/
inductive AreLeft
    (meeting first second : List Char)
    (scan : Scan) :
    List Char → List Char → Prop
  | before {rest : List Char} :
      rest ≠ [] →
      Scan.layout.run rest = scan →
      AreLeft meeting first second scan (rest ++ first) (rest ++ second)
  | meeting :
      AreLeft meeting first second scan meeting meeting

/-- Behind a gap both texts are left, or both have come to the meeting. -/
theorem afterGap_areLeft
    (meets : Meets meeting first second (Scan.layout.run text)) :
    AreLeft meeting first second (Scan.layout.run text) (afterGap (text ++ first))
      (afterGap (text ++ second)) := by
  have clearsFirst := skipGap_clears .layout text meets.fitsFirst []
  have clearsSecond := skipGap_clears .layout text meets.fitsSecond []
  change Clears first _ (afterGap text) (afterGap (text ++ first)) at clearsFirst
  change Clears second _ (afterGap text) (afterGap (text ++ second)) at clearsSecond
  generalize afterGap text = left at clearsFirst clearsSecond
  generalize afterGap (text ++ first) = leftFirst at clearsFirst ⊢
  generalize afterGap (text ++ second) = leftSecond at clearsSecond ⊢
  cases clearsFirst with
  | stops nonempty sameScan =>
      cases clearsSecond with
      | stops _ _ => exact .before nonempty sameScan
      | reaches => exact (nonempty rfl).elim
  | reaches =>
      cases clearsSecond with
      | stops nonempty _ => exact (nonempty rfl).elim
      | reaches =>
          have metFirst := meets.first
          have metSecond := meets.second
          change skipGap (Scan.layout.run text).gap first = meeting at metFirst
          change skipGap (Scan.layout.run text).gap second = meeting at metSecond
          change AreLeft _ _ _ _ (skipGap (Scan.layout.run text).gap first)
            (skipGap (Scan.layout.run text).gap second)
          rw [metFirst, metSecond]
          exact .meeting

/-! ## A blank that is not passed over -/

namespace IsStuck

/-- A character that nothing begins with is not passed over. -/
theorem afterGap_eq
    (isStuck : IsStuck text) :
    afterGap text = text := by
  obtain ⟨blank, others, rfl, isBlank, notLayout⟩ := isStuck
  refine afterGap_sign ⟨notLayout, ?_, ?_⟩ _
  all_goals
    rintro rfl
    exact absurd isBlank (by decide)

/-- Where nothing begins, an atom is asked for. -/
theorem opening_eq
    (isStuck : IsStuck text) :
    opening text = .atom text := by
  obtain ⟨blank, others, rfl, isBlank, notLayout⟩ := isStuck
  have notSign (letter : Char) (notBlank : Text.isBlank letter = false) : blank ≠ letter := by
    rintro rfl
    exact nomatch isBlank.symm.trans notBlank
  unfold opening
  split
  case h_12 => rfl
  case h_1 same | h_2 same | h_3 same | h_4 same | h_5 same | h_6 same | h_7 same | h_8 same |
      h_9 same | h_10 same | h_11 same =>
    exact (notSign _ (by decide) (List.cons.inj same).1).elim

/-- No atom begins with such a character. -/
theorem readAtom_fails
    (isStuck : IsStuck text) :
    readAtom text = .error ⟨.form, text⟩ := by
  obtain ⟨blank, others, rfl, isBlank, notLayout⟩ := isStuck
  simp [readAtom, spanToken, List.span_eq_takeWhile_dropWhile, isDelimiter_of_isBlank isBlank]

/-- No datum begins with such a character. -/
theorem readDatum_fails
    (isStuck : IsStuck text)
    (fuel depth : Nat) :
    ∃ failure, readDatum fuel depth text = .error failure := by
  cases fuel with
  | zero => exact ⟨⟨.form, text⟩, by rw [readDatum]⟩
  | succ fuel =>
      rw [readDatum_succ, isStuck.afterGap_eq, isStuck.opening_eq]
      split_ifs
      · exact ⟨_, rfl⟩
      · exact ⟨_, isStuck.readAtom_fails⟩

/-- No item begins with such a character. -/
theorem readElement_fails
    (isStuck : IsStuck text)
    (fuel depth : Nat) :
    ∃ failure, readElement fuel depth text = .error failure := by
  cases fuel with
  | zero => exact ⟨⟨.form, text⟩, by rw [readElement]⟩
  | succ fuel =>
      obtain ⟨failure, fails⟩ := isStuck.readDatum_fails fuel (depth + 1)
      exact ⟨failure, by rw [readElement, fails]; rfl⟩

/-- Where nothing begins, an item is asked for. -/
theorem upcoming_eq
    (isStuck : IsStuck text) :
    upcoming text = .item text := by
  obtain ⟨blank, others, rfl, isBlank, notLayout⟩ := isStuck
  refine upcoming_eq_item (List.cons_ne_nil _ _) fun rest same => ?_
  obtain rfl : blank = ')' := (List.cons.inj same).1
  exact absurd isBlank (by decide)

/-- Where nothing begins, no dot stands. -/
theorem afterDot?_eq
    (isStuck : IsStuck text) :
    afterDot? text = none := by
  obtain ⟨blank, others, rfl, isBlank, notLayout⟩ := isStuck
  refine afterDot?.eq_2 _ fun rest same => ?_
  obtain rfl : blank = '.' := (List.cons.inj same).1
  exact absurd isBlank (by decide)

end IsStuck

/-! ## The five functions of the reader -/

/-- Lists that end behind the meeting are closed alike. -/
theorem closeAfter_alike
    (tail : Datum)
    (meets : Meets meeting first second (Scan.layout.run text)) :
    EndAlike meeting first second (closeAfter tail (text ++ first))
      (closeAfter tail (text ++ second)) := by
  unfold closeAfter
  have areLeft := afterGap_areLeft meets
  generalize afterGap (text ++ first) = leftFirst at areLeft
  generalize afterGap (text ++ second) = leftSecond at areLeft
  cases areLeft with
  | @before left nonempty sameScan =>
      obtain ⟨rest, rfl⟩ | comes := upcoming_append_of_ne_nil nonempty first
      · rw [← sameScan] at meets
        exact .before meets
      · obtain ⟨rest, rfl⟩ | comesToo := upcoming_append_of_ne_nil nonempty second
        · cases comes
        · rw [comes, comesToo]
          exact .failed
  | meeting =>
      refine .of_same fun isStuck => ?_
      rw [isStuck.upcoming_eq]
      exact ⟨_, rfl⟩

/-- Items that are no bytes are refused before either text. -/
theorem bytesOf_alike
    (items : List Datum)
    (meets : Meets meeting first second (Scan.layout.run rest)) :
    EndAlike meeting first second (bytesOf (text ++ first) items (rest ++ first))
      (bytesOf (text ++ second) items (rest ++ second)) := by
  unfold bytesOf
  split
  · exact .before meets
  · exact .failed

/-- Behind the meeting it does not matter where the vectors began. -/
theorem bytesOf_alike_behind
    (items : List Datum)
    (goesOn : ¬IsStuck meeting)
    (shorter longer : List Char) :
    EndAlike meeting first second (bytesOf shorter items rest) (bytesOf longer items rest) := by
  unfold bytesOf
  split
  · exact .behind goesOn
  · exact .failed

/-- An atom is the whole of the text that it is asked of. -/
theorem eq_of_opening_eq_atom
    (isAtom : opening text = .atom rest) :
    text = rest := by
  unfold opening at isAtom
  split at isAtom <;> cases isAtom
  rfl

/-- With so much fuel each function of the reader ends alike on both texts. -/
structure AllEndAlike [Regex.Engine] (meeting first second : List Char) (fuel : Nat) : Prop where
  datum :
    ∀ {text} depth,
      Meets meeting first second (Scan.layout.run text) →
      EndAlike meeting first second (readDatum fuel depth (text ++ first))
        (readDatum fuel depth (text ++ second))
  marked :
    ∀ {text} depth mark,
      Meets meeting first second (Scan.layout.run text) →
      EndAlike meeting first second (readMarked fuel depth mark (text ++ first))
        (readMarked fuel depth mark (text ++ second))
  items :
    ∀ {text} depth,
      Meets meeting first second (Scan.layout.run text) →
      EndAlike meeting first second (readItems fuel depth (text ++ first))
        (readItems fuel depth (text ++ second))
  tail :
    ∀ {text} depth started,
      Meets meeting first second (Scan.layout.run text) →
      EndAlike meeting first second (readTail fuel depth started (text ++ first))
        (readTail fuel depth started (text ++ second))
  element :
    ∀ {text} depth,
      Meets meeting first second (Scan.layout.run text) →
      EndAlike meeting first second (readElement fuel depth (text ++ first))
        (readElement fuel depth (text ++ second))

namespace AllEndAlike

variable {fuel : Nat}

/-- Data end alike if their parts do, which are read with less fuel. -/
theorem datum_succ
    (holds : AllEndAlike meeting first second fuel)
    (depth : Nat)
    (meets : Meets meeting first second (Scan.layout.run text)) :
    EndAlike meeting first second (readDatum (fuel + 1) depth (text ++ first))
      (readDatum (fuel + 1) depth (text ++ second)) := by
  rw [readDatum_succ, readDatum_succ]
  split_ifs
  · exact .failed
  have areLeft := afterGap_areLeft meets
  generalize afterGap (text ++ first) = leftFirst at areLeft
  generalize afterGap (text ++ second) = leftSecond at areLeft
  cases areLeft with
  | meeting =>
      refine .of_same fun isStuck => ?_
      rw [isStuck.opening_eq]
      exact ⟨_, isStuck.readAtom_fails⟩
  | @before left nonempty sameScan =>
      rw [← sameScan] at meets
      have meetsRest := meets.of_yields (yields_opening left)
      rw [opening_append_of_fits nonempty meets.fitsFirst,
        opening_append_of_fits nonempty meets.fitsSecond]
      generalize opens : opening left = announced at meetsRest
      cases announced with
      | mark mark rest => exact holds.marked depth mark meetsRest
      | list rest => exact holds.tail depth false meetsRest
      | text rest =>
          exact .of_settled meetsRest (readTextDatum_settled meetsRest.fitsFirst)
            (readTextDatum_settled meetsRest.fitsSecond)
      | vector rest => exact (holds.items depth meetsRest).map Datum.vector
      | bytevector rest =>
          exact (holds.items depth meetsRest).bind (fun items _ => bytesOf_alike items)
            fun items _ goesOn => bytesOf_alike_behind items goesOn _ _
      | regex rest =>
          exact .of_settled meetsRest (readRegex_settled meetsRest.fitsFirst)
            (readRegex_settled meetsRest.fitsSecond)
      | character rest =>
          exact .of_settled meetsRest (readCharacter_settled meetsRest.fitsFirst)
            (readCharacter_settled meetsRest.fitsSecond)
      | constant rest =>
          exact .of_settled meetsRest (readConstant_settled meetsRest.fitsFirst)
            (readConstant_settled meetsRest.fitsSecond)
      | atom whole =>
          obtain rfl := eq_of_opening_eq_atom opens
          exact .of_settled meets (readAtom_settled nonempty (head?_of_atom opens) meets.fitsFirst)
            (readAtom_settled nonempty (head?_of_atom opens) meets.fitsSecond)

/-- Behind a mark data end alike. -/
theorem marked_succ
    (holds : AllEndAlike meeting first second fuel)
    (depth : Nat)
    (mark : Mark)
    (meets : Meets meeting first second (Scan.layout.run text)) :
    EndAlike meeting first second (readMarked (fuel + 1) depth mark (text ++ first))
      (readMarked (fuel + 1) depth mark (text ++ second)) := by
  rw [readMarked, readMarked]
  exact (holds.datum (depth + 1) meets).map (Datum.marked mark)

/-- Items end alike, one after the other. -/
theorem items_succ
    (holds : AllEndAlike meeting first second fuel)
    (depth : Nat)
    (meets : Meets meeting first second (Scan.layout.run text)) :
    EndAlike meeting first second (readItems (fuel + 1) depth (text ++ first))
      (readItems (fuel + 1) depth (text ++ second)) := by
  rw [readItems_succ, readItems_succ]
  have areLeft := afterGap_areLeft meets
  generalize afterGap (text ++ first) = leftFirst at areLeft
  generalize afterGap (text ++ second) = leftSecond at areLeft
  cases areLeft with
  | meeting =>
      refine .of_same fun isStuck => ?_
      obtain ⟨failure, fails⟩ := isStuck.readDatum_fails fuel (depth + 1)
      rw [isStuck.upcoming_eq]
      dsimp only
      rw [fails]
      exact ⟨failure, rfl⟩
  | @before left nonempty sameScan =>
      rw [← sameScan] at meets
      obtain ⟨rest, rfl⟩ | comes := upcoming_append_of_ne_nil nonempty first
      · exact .before meets
      · obtain ⟨rest, rfl⟩ | comesToo := upcoming_append_of_ne_nil nonempty second
        · cases comes
        · rw [comes, comesToo]
          exact (holds.datum (depth + 1) meets).bind
            (fun item rest meetsRest => (holds.items depth meetsRest).map (item :: ·))
            fun item rest goesOn => .of_goes_on goesOn

/-- The rests of lists end alike, pair by pair. -/
theorem tail_succ
    (holds : AllEndAlike meeting first second fuel)
    (depth : Nat)
    (started : Bool)
    (meets : Meets meeting first second (Scan.layout.run text)) :
    EndAlike meeting first second (readTail (fuel + 1) depth started (text ++ first))
      (readTail (fuel + 1) depth started (text ++ second)) := by
  rw [readTail_succ, readTail_succ]
  have areLeft := afterGap_areLeft meets
  generalize afterGap (text ++ first) = leftFirst at areLeft
  generalize afterGap (text ++ second) = leftSecond at areLeft
  cases areLeft with
  | meeting =>
      refine .of_same fun isStuck => ?_
      rw [isStuck.upcoming_eq]
      dsimp only
      rw [isStuck.afterDot?_eq]
      exact isStuck.readElement_fails fuel depth
  | @before left nonempty sameScan =>
      rw [← sameScan] at meets
      obtain ⟨rest, rfl⟩ | comes := upcoming_append_of_ne_nil nonempty first
      · exact .before meets
      · obtain ⟨rest, rfl⟩ | comesToo := upcoming_append_of_ne_nil nonempty second
        · cases comes
        · rw [comes, comesToo]
          dsimp only
          rw [afterDot?_append_of_fits nonempty meets.fitsFirst,
            afterDot?_append_of_fits nonempty meets.fitsSecond]
          cases dotted : afterDot? left with
          | none => exact holds.element depth meets
          | some rest =>
              obtain ⟨rfl, ends⟩ := afterDot?_eq_some_iff.mp dotted
              cases started with
              | false => exact .failed
              | true =>
                  have meetsRest := meets.of_yields (yields_dot ends)
                  exact (holds.datum (depth + 1) meetsRest).bind
                    (fun tail _ => closeAfter_alike tail) fun tail _ => .of_goes_on

/-- Items end alike as data do. -/
theorem element_succ
    (holds : AllEndAlike meeting first second fuel)
    (depth : Nat)
    (meets : Meets meeting first second (Scan.layout.run text)) :
    EndAlike meeting first second (readElement (fuel + 1) depth (text ++ first))
      (readElement (fuel + 1) depth (text ++ second)) := by
  rw [readElement, readElement]
  exact (holds.datum (depth + 1) meets).bind
    (fun head rest meetsRest => (holds.tail depth true meetsRest).map (Datum.pair head))
    fun head rest goesOn => .of_goes_on goesOn

end AllEndAlike

/-- With every amount of fuel, by the fuel. -/
theorem allEndAlike
    (meeting first second : List Char)
    (fuel : Nat) :
    AllEndAlike meeting first second fuel := by
  induction fuel with
  | zero =>
      constructor <;> intros <;>
        simp only [readDatum, readMarked, readItems, readTail, readElement] <;>
        exact .failed
  | succ fuel inductionHypothesis =>
      exact ⟨inductionHypothesis.datum_succ, inductionHypothesis.marked_succ,
        inductionHypothesis.items_succ, inductionHypothesis.tail_succ,
        inductionHypothesis.element_succ⟩

/-! ## All forms -/

/-- The forms of both texts: the same ones, with no blank in the way, or none. -/
inductive FormsAlike (meeting : List Char) :
    Except Failure (List Datum) → Except Failure (List Datum) → Prop
  | failed {failure other : Failure} :
      FormsAlike meeting (.error failure) (.error other)
  | accepted {forms : List Datum} :
      ¬IsStuck meeting →
      FormsAlike meeting (.ok forms) (.ok forms)

namespace FormsAlike

theorem of_same
    {outcome : Except Failure (List Datum)}
    (refused : IsStuck meeting → ∃ failure, outcome = .error failure) :
    FormsAlike meeting outcome outcome := by
  cases outcome with
  | error failure => exact .failed
  | ok forms =>
      refine .accepted fun isStuck => ?_
      obtain ⟨failure, fails⟩ := refused isStuck
      cases fails

/-- One form before the others. -/
theorem cons
    {one other : Except Failure (List Datum)}
    (form : Datum)
    (alike : FormsAlike meeting one other) :
    FormsAlike meeting (one >>= fun forms => return form :: forms)
      (other >>= fun forms => return form :: forms) := by
  cases alike with
  | failed => exact .failed
  | accepted goesOn => exact .accepted goesOn

end FormsAlike

/-- Programs end alike, form by form. -/
theorem formsOf_alike
    (meets : Meets meeting first second (Scan.layout.run text)) :
    FormsAlike meeting (formsOf (text ++ first)) (formsOf (text ++ second)) := by
  induction isLength : (text ++ first).length using Nat.strong_induction_on generalizing text with
  | _ length inductionHypothesis =>
  subst isLength
  have areLeft := afterGap_areLeft meets
  have passed := length_afterGap_le (text ++ first)
  rw [formsOf_eq (text ++ first), formsOf_eq (text ++ second)]
  generalize afterGap (text ++ first) = leftFirst at areLeft passed
  generalize afterGap (text ++ second) = leftSecond at areLeft
  cases areLeft with
  | meeting =>
      refine .of_same fun isStuck => ?_
      obtain ⟨failure, fails⟩ := isStuck.readDatum_fails (readingFuel meeting) 0
      obtain ⟨blank, others, rfl, _⟩ := isStuck
      dsimp only
      rw [fails]
      exact ⟨failure, rfl⟩
  | @before left nonempty sameScan =>
      rw [← sameScan] at meets
      have alike := (allEndAlike meeting first second
        (readingFuel (left ++ first ++ second))).datum 0 meets
      have enoughFirst : (left ++ first).length ≤ (left ++ first ++ second).length := by simp
      have enoughSecond : (left ++ second).length ≤ (left ++ first ++ second).length := by simp
      rw [readDatum_enough 0 enoughFirst, readDatum_enough 0 enoughSecond] at alike
      have shorter
          {form : Datum}
          {rest : List Char}
          (accepted : readDatum (readingFuel (left ++ first)) 0 (left ++ first) =
            .ok (form, rest)) :
          rest.length < (text ++ first).length :=
        Nat.lt_of_lt_of_le (length_of_readDatum accepted) passed
      obtain ⟨letter, others, rfl⟩ := List.exists_cons_of_ne_nil nonempty
      dsimp only [List.cons_append] at alike shorter ⊢
      generalize readDatum _ 0 (letter :: (others ++ first)) = one at alike shorter ⊢
      generalize readDatum _ 0 (letter :: (others ++ second)) = other at alike ⊢
      cases alike with
      | failed => exact .failed
      | @before form rest meetsRest =>
          exact .cons form (inductionHypothesis _ (shorter rfl) meetsRest rfl)
      | @behind form rest goesOn =>
          exact .cons form (.of_same fun isStuck => (goesOn isStuck).elim)

end SmallScheme.Reader
