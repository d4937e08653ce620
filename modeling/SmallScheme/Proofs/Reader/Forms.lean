import SmallScheme.Proofs.Reader.Continuation

namespace SmallScheme.Reader

/-!
# The forms of a text that goes on

The forms of a text are read one after the other, each from what the one before it has left.  So
what a line end settles for one datum it settles for all the forms before it.
-/

variable {engine : Regex.Engine}
variable {text rest after : List Char}

/-- All data of a text. -/
def formsOf [Regex.Engine] (text : List Char) : Except Failure (List Datum) :=
  readForms (text.length + 1) text

theorem formsOf_eq
    (text : List Char) :
    formsOf text =
      match afterGap text with
      | [] => .ok []
      | start => do
          let (form, rest) ← readDatum (readingFuel start) 0 start
          let forms ← formsOf rest
          return form :: forms := by
  have passed := length_afterGap_le text
  rw [formsOf, readForms]
  cases start : afterGap text with
  | nil => rfl
  | cons first others =>
      rw [start] at passed
      dsimp only
      cases outcome : readDatum (readingFuel (first :: others)) 0 (first :: others) with
      | error failure => rfl
      | ok found =>
          obtain ⟨form, rest⟩ := found
          have shorter := length_of_readDatum outcome
          obtain ⟨more, isMore⟩ : ∃ more, text.length = rest.length + 1 + more :=
            Nat.exists_eq_add_of_le (by omega)
          have enough : readForms text.length rest = formsOf rest := by
            rw [isMore, readForms_enough more (Nat.lt_succ_self _), formsOf]
          change (readForms text.length rest >>= _) = (formsOf rest >>= _)
          rw [enough]

theorem toList_joined
    (first second : String) :
    (first ++ "\n" ++ second).toList = first.toList ++ '\n' :: second.toList := by
  simp [String.toList_append]

theorem readAll_eq_formsOf
    (source : String) :
    readAll source = concludeAll source.toList (formsOf source.toList) :=
  readAll_eq_conclude source

/-- The class of an error depends on the failure alone. -/
theorem kind_toReadError
    (source : List Char)
    (failure : Failure) :
    (failure.toReadError source).kind =
      if failure.stumble = .nesting then .tooDeeplyNested
      else if failure.rest = [] then .incomplete
      else .invalidSyntax := by
  obtain ⟨stumble, rest⟩ := failure
  unfold Failure.toReadError
  dsimp only
  split <;> simp_all [ReadError.kind, ReadError.around, ReadCause.kind]

/-- The forms of a text, and the forms if the text goes on behind a line end. -/
inductive FormsGoOn [Regex.Engine]
    (after text : List Char) :
    Except Failure (List Datum) → Except Failure (List Datum) → Prop
  | accepted {forms : List Datum} :
      Scan.layout.leavesBlock text = false →
      FormsGoOn after text (.ok forms) ((forms ++ ·) <$> formsOf after)
  | atEnd {failure : Failure} {extended : Except Failure (List Datum)} :
      failure.IsAtEnd →
      Scan.layout.leavesBlock text = false →
      FormsGoOn after text (.error failure) extended
  | inBlock {failure : Failure} {extended : Except Failure (List Datum)} :
      ¬failure.IsAtEnd →
      Scan.layout.leavesBlock text = true →
      FormsGoOn after text (.error failure) extended
  | rejected {failure other : Failure} :
      ¬failure.IsAtEnd →
      FormsGoOn after text (.error failure) (.error other)

/-- One form before the others. -/
theorem FormsGoOn.cons
    {outcome extended : Except Failure (List Datum)}
    (form : Datum)
    (same : Scan.layout.leavesBlock text = Scan.layout.leavesBlock rest)
    (goesOn : FormsGoOn after rest outcome extended) :
    FormsGoOn after text
      (outcome >>= fun forms => return form :: forms)
      (extended >>= fun forms => return form :: forms) := by
  cases goesOn with
  | @accepted forms leaves =>
      have whole :
          ((forms ++ ·) <$> formsOf after >>= fun forms => return form :: forms) =
            ((form :: forms) ++ ·) <$> formsOf after := by
        cases formsOf after <;> rfl
      rw [whole]
      exact .accepted (same.trans leaves)
  | atEnd atEnd leaves => exact .atEnd atEnd (same.trans leaves)
  | inBlock notAtEnd leaves => exact .inBlock notAtEnd (same.trans leaves)
  | rejected notAtEnd => exact .rejected notAtEnd

theorem formsOf_append
    (after text : List Char) :
    FormsGoOn after text (formsOf text) (formsOf (text ++ '\n' :: after)) := by
  induction isLength : text.length using Nat.strong_induction_on generalizing text with
  | _ length inductionHypothesis =>
  subst isLength
  have passed := length_afterGap_le text
  have settled := afterGap_afterGap text
  have passes := afterGap_passes after text
  rw [formsOf_eq text, formsOf_eq (text ++ _)]
  generalize afterGap text = start at passed settled passes
  generalize afterGap (text ++ '\n' :: after) = extended at passes
  cases passes with
  | @inBlock inner _ leaves =>
      obtain ⟨failure, fails, notAtEnd⟩ := readDatum_block _ 0 settled
      dsimp only
      rw [fails]
      exact .inBlock notAtEnd leaves
  | nothing leaves =>
      rw [← formsOf_eq]
      have same : formsOf after = ([] ++ ·) <$> formsOf after := by
        cases formsOf after <;> rfl
      rw [same]
      exact .accepted leaves
  | something nonempty _ leaves =>
      obtain ⟨first, others, rfl⟩ := List.exists_cons_of_ne_nil nonempty
      have goesOn :=
        (allGoOn (readingFuel (first :: others ++ '\n' :: after))).datum after 0 (first :: others)
      have enough :
          readDatum (readingFuel (first :: others ++ '\n' :: after)) 0 (first :: others) =
            readDatum (readingFuel (first :: others)) 0 (first :: others) := by
        refine readDatum_enough 0 ?_
        rw [List.length_append]
        exact Nat.le_add_right _ _
      rw [enough] at goesOn
      dsimp only [List.cons_append] at goesOn ⊢
      have shorter
          {form : Datum}
          {rest : List Char}
          (accepted : readDatum (readingFuel (first :: others)) 0 (first :: others) =
            .ok (form, rest)) :
          rest.length < text.length :=
        Nat.lt_of_lt_of_le (length_of_readDatum accepted) passed
      generalize readDatum _ 0 (first :: others) = outcome at goesOn shorter ⊢
      generalize readDatum _ 0 (first :: (others ++ '\n' :: after)) = extended at goesOn ⊢
      cases goesOn with
      | @accepted form rest leavesRest =>
          refine FormsGoOn.cons form (leaves.trans leavesRest) ?_
          exact inductionHypothesis _ (shorter rfl) rest rfl
      | atEnd atEnd leavesNone => exact .atEnd atEnd (leaves.trans leavesNone)
      | inBlock notAtEnd leavesBlock => exact .inBlock notAtEnd (leaves.trans leavesBlock)
      | rejected notAtEnd => exact .rejected notAtEnd

end SmallScheme.Reader
