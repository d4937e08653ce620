import SmallScheme.Proofs.Reader.Forms
import SmallScheme.Proofs.WrittenData

namespace SmallScheme

/-!
# Texts joined by a line end

Main result.  Nothing at the end of a text that is accepted depends on what follows behind a line
end, be it a token, a comment or a literal: the forms of two joined texts are the forms of the one
and then those of the other, and what is wrong with the second text is wrong with both joined.
-/

variable {engine : Regex.Engine}

namespace Reader

/-! Two texts. -/

theorem formsOf_joined
    {first : List Char}
    {forms : List Datum}
    (accepted : formsOf first = .ok forms)
    (second : List Char) :
    formsOf (first ++ '\n' :: second) = (forms ++ ·) <$> formsOf second := by
  have goesOn := @formsOf_append engine second first
  rw [accepted] at goesOn
  generalize formsOf (first ++ '\n' :: second) = extended at goesOn
  cases goesOn with
  | accepted _ => rfl

/-! One datum. -/

/-- A datum is read as it is read without the blanks and comments before it. -/
theorem readDatum_afterGap
    (text : List Char) :
    readDatum (readingFuel (afterGap text)) 0 (afterGap text) =
      readDatum (readingFuel text) 0 text := by
  rw [← readDatum_enough 0 (length_afterGap_le text)]
  have shallow : ¬maxNesting ≤ 0 := by decide
  rw [readingFuel, readDatum_succ, readDatum_succ, if_neg shallow, if_neg shallow,
    afterGap_afterGap]

theorem formsOf_eq_nil_iff
    {text : List Char} :
    formsOf text = .ok [] ↔ afterGap text = [] := by
  rw [formsOf_eq]
  cases afterGap text with
  | nil => exact iff_of_true rfl rfl
  | cons first others =>
      refine iff_of_false ?_ (List.cons_ne_nil _ _)
      dsimp only
      rw [bind_eq_ok_iff]
      rintro ⟨found, _, accepted⟩
      obtain ⟨forms, _, accepted⟩ := bind_eq_ok_iff.mp accepted
      cases accepted

theorem formsOf_eq_single_iff
    {text : List Char}
    {datum : Datum} :
    formsOf text = .ok [datum] ↔
      ∃ rest, readDatum (readingFuel text) 0 text = .ok (datum, rest) ∧ afterGap rest = [] := by
  rw [formsOf_eq, ← readDatum_afterGap]
  cases afterGap text with
  | nil =>
      refine iff_of_false nofun ?_
      rintro ⟨rest, reads, _⟩
      exact nomatch length_of_readDatum reads
  | cons first others =>
      dsimp only
      rw [bind_eq_ok_iff]
      constructor
      · rintro ⟨⟨form, rest⟩, reads, accepted⟩
        obtain ⟨forms, readsOthers, accepted⟩ := bind_eq_ok_iff.mp accepted
        cases accepted
        exact ⟨rest, reads, formsOf_eq_nil_iff.mp readsOthers⟩
      · rintro ⟨rest, reads, closed⟩
        exact ⟨(datum, rest), reads, bind_eq_ok_iff.mpr ⟨[], formsOf_eq_nil_iff.mpr closed, rfl⟩⟩

end Reader

open Reader

/--
Reading is a homomorphism on texts.  Behind an accepted text and a line end a second text adds its
own forms, or it fails with an error of the same class as by itself.  And one datum is read from a
text exactly if it is the only form of the text.
-/
theorem reading_joined_texts :
    (∀ (first second : String) (forms : List Datum),
        readAll first = .ok forms →
          (∀ others,
            readAll second = .ok others →
              readAll (first ++ "\n" ++ second) = .ok (forms ++ others)) ∧
          ∀ error,
            readAll second = .error error →
              ∃ joined,
                readAll (first ++ "\n" ++ second) = .error joined ∧ joined.kind = error.kind) ∧
      ∀ (source : String) (datum : Datum),
        readOne source = .ok datum ↔ readAll source = .ok [datum] := by
  constructor
  · intro first second forms accepted
    have joined := formsOf_joined (readAll_eq_ok_iff.mp accepted) second.toList
    rw [readAll_eq_formsOf second, readAll_eq_formsOf (first ++ _ ++ _), toList_joined, joined]
    cases formsOf second.toList with
    | ok others =>
        refine ⟨?_, nofun⟩
        rintro _ ⟨⟩
        rfl
    | error failure =>
        refine ⟨nofun, ?_⟩
        rintro _ ⟨⟩
        exact ⟨_, rfl, by rw [kind_toReadError, kind_toReadError]⟩
  · intro source datum
    rw [readOne_eq_ok_iff, readAll_eq_ok_iff]
    exact formsOf_eq_single_iff.symm

/-- The result is a single character. -/
def isCharacter (letter : Char) : Except ReadError (List Datum) → Bool
  | .ok [.character read] => read == letter
  | _ => false

theorem eq_of_isCharacter
    {letter : Char}
    {result : Except ReadError (List Datum)}
    (isLetter : isCharacter letter result) :
    result = .ok [.character letter] := by
  unfold isCharacter at isLetter
  split at isLetter
  · rw [beq_iff_eq.mp isLetter]
  · cases isLetter

/-- The result is an error of this class. -/
def isErrorOf (kind : ReadErrorKind) : Except ReadError (List Datum) → Bool
  | .ok _ => false
  | .error error => error.kind == kind

theorem exists_of_isErrorOf
    {kind : ReadErrorKind}
    {result : Except ReadError (List Datum)}
    (isError : isErrorOf kind result) :
    ∃ error, result = .error error ∧ error.kind = kind := by
  unfold isErrorOf at isError
  split at isError
  · cases isError
  · exact ⟨_, rfl, beq_iff_eq.mp isError⟩

/-- A character literal with a comment behind it, before another one and before an open list. -/
theorem joined_samples :
    @readAll .plain ("#\\( ; note" ++ "\n" ++ "#| (a |# #\\x41") =
        .ok [.character '(', .character 'A'] ∧
      (∃ error,
        @readAll .plain ("#\\( ; note" ++ "\n" ++ "(a . \"b") = .error error ∧
            error.kind = .incomplete) ∧
      @readOne .plain "#\\( ; note" = .ok (.character '(') := by
  have first : @readAll .plain "#\\( ; note" = .ok [.character '('] :=
    eq_of_isCharacter (by decide +kernel)
  have second : @readAll .plain "#| (a |# #\\x41" = .ok [.character 'A'] :=
    eq_of_isCharacter (by decide +kernel)
  obtain ⟨error, fails, isIncomplete⟩ :
      ∃ error, @readAll .plain "(a . \"b" = .error error ∧ error.kind = .incomplete :=
    exists_of_isErrorOf (by decide +kernel)
  obtain ⟨joined, failsJoined, sameKind⟩ :=
    (reading_joined_texts.1 _ _ _ first).2 error fails
  exact ⟨(reading_joined_texts.1 _ _ _ first).1 _ second,
    ⟨joined, failsJoined, sameKind.trans isIncomplete⟩,
    (reading_joined_texts.2 _ _).mpr first⟩

end SmallScheme
