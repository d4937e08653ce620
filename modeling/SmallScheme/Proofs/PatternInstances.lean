import SmallScheme.Proofs.Transformer.Completeness
import SmallScheme.Proofs.Transformer.Filling

namespace SmallScheme

/-!
# Patterns read backwards

Matching undoes filling.  A pattern that captures every variable once matches the forms that it can
be filled to and no others, filling it with what a match has captured makes the matched form again,
and matching what it was filled to gives back what it was filled with.
-/

namespace Form

/-- Filled with captures that it binds, in this store or a larger one, the pattern is this form. -/
def HasInstance
    (setting : TemplateSetting)
    (store : Store)
    (pattern : Form)
    (form : Value) : Prop :=
  ∃ bindings begun copy after,
    store.Grows begun ∧ pattern.IsBoundBy setting.literals begun bindings ∧
      pattern.fill setting bindings begun = (.ok copy, after) ∧ after.Alike copy form

variable
  {setting : TemplateSetting}
  {store : Store}
  {pattern : Form}

theorem IsBoundBy.unbound
    {captures : Captures}
    (isBound : pattern.IsBoundBy setting.literals store captures) :
    ∀ name, ¬isVariable setting.literals name → captures.lookup name = none :=
  fun _ special => isBound.names (mt isVariable_of_mem_occurrences special)

/-- Captures that a pattern binds have all that filling it needs. -/
theorem IsBoundBy.fills
    {captures : Captures}
    (isBound : pattern.IsBoundBy setting.literals store captures)
    (reversible : pattern.IsReversible setting.literals)
    (unfolded : pattern.IsUnfolded)
    (before : Store) :
    ∃ copy after,
      pattern.fill setting captures before = (.ok copy, after) ∧ before.Grows after ∧
        pattern.Fits setting.literals (IsFilledWith store) after captures copy :=
  reversible.isFillable unfolded store isBound.unbound isBound.shape

theorem IsFilledWith.alike
    {before after : Store}
    (grows : before.Grows after)
    {capture : Capture}
    {form form' : Value}
    (filled : IsFilledWith before capture form)
    (filled' : IsFilledWith before capture form') :
    after.Alike form form' := by
  obtain ⟨rfl, finite⟩ := filled
  cases filled'.1
  exact (finite.grows grows).alike

/-! Filling a pattern with what it has captured. -/

/-- The capture is a form that is like this one. -/
def IsLike
    (store : Store)
    (capture : Capture)
    (form : Value) : Prop :=
  ∃ value, capture = .one value ∧ store.Alike value form

/-- A settled capture is like the form that was captured, or left of a list. -/
theorem Stands.settled
    {begun : Store}
    (grows : store.Grows begun)
    {capture settled : Capture}
    {form : Value}
    (stands : Stands store capture form)
    (isSettled : capture.IsSettled begun settled) :
    IsLike begun settled form := by
  obtain ⟨isForm, finite⟩ := stands
  cases isForm with
  | one =>
      cases isSettled
      exact ⟨form, rfl, (finite.grows grows).alike⟩
  | rest spells =>
      cases isSettled with
      | rest spellsFresh =>
          obtain ⟨_, finiteItems, finiteTail⟩ := finite.spells (.refl store) spells
          refine ⟨_, rfl, .of_spells spellsFresh (spells.grows grows) ?_ ?_⟩
          · exact List.forall₂_same.mpr fun item member =>
              ((finiteItems item member).grows grows).alike
          · exact (finiteTail.grows grows).alike

theorem IsReversible.refilled
    (reversible : pattern.IsReversible setting.literals)
    (unfolded : pattern.IsUnfolded)
    (distinct : (pattern.occurrences setting.literals).Nodup)
    {form : Value}
    (finite : store.IsFinite form)
    {captures : Captures}
    (matched : pattern.matchForm store setting.literals form [] = some captures) :
    store.Grows (captures.settle store).2 ∧
      pattern.IsBoundBy setting.literals (captures.settle store).2 (captures.settle store).1 ∧
        ∃ copy after,
          pattern.fill setting (captures.settle store).1 (captures.settle store).2 =
              (.ok copy, after) ∧
            store.Grows after ∧ after.Alike copy form := by
  obtain ⟨captured, fits⟩ := reversible.isSound distinct finite matched
  obtain ⟨grows, agree⟩ := Captures.settle_agree captures store
  generalize captures.settle store = settling at grows agree ⊢
  obtain ⟨settled, begun⟩ := settling
  -- The form itself is the instance of the pattern under the settled captures, up to likeness.
  have fitsSettled : pattern.Fits setting.literals (IsLike begun) begun settled form := by
    refine reversible.isCarried grows.carries ?_ (fun name _ => agree name) fits rfl
    rintro capture capture' shown _ isSettled stands rfl
    exact stands.settled grows isSettled
  have isBound : pattern.IsBoundBy setting.literals begun settled := by
    refine ⟨fun {name} absent => ?_, ?_⟩
    · have related := agree name
      rw [Captures.Agree, captured.outside name absent] at related
      generalize settled.lookup name = found at related ⊢
      cases related
      rfl
    · refine reversible.isShaped ?_ fitsSettled
      rintro _ shown ⟨value, rfl, alike⟩
      exact ⟨value, rfl, alike.symm.isFinite⟩
  obtain ⟨copy, after, filled, growsAfter, fitsCopy⟩ := isBound.fills reversible unfolded begun
  refine ⟨grows, isBound, copy, after, filled, grows.trans growsAfter, ?_⟩
  refine reversible.alike ?_ fitsCopy
    (reversible.fits_congr growsAfter (fun _ _ => rfl) fitsSettled)
  rintro _ shown shown' ⟨rfl, _⟩ ⟨value, same, alike⟩
  cases same
  exact alike.grows growsAfter

/-! Matching what a pattern is filled to. -/

/-- What makes an instance in a larger store matches there already before the store has captured. -/
theorem IsReversible.matched_of_hasInstance
    (reversible : pattern.IsReversible setting.literals)
    (unfolded : pattern.IsUnfolded)
    (distinct : (pattern.occurrences setting.literals).Nodup)
    {form : Value}
    (finite : store.IsFinite form)
    (hasInstance : pattern.HasInstance setting store form) :
    ∃ captures, pattern.matchForm store setting.literals form [] = some captures := by
  obtain ⟨bindings, begun, copy, after, grows, isBound, filled, alike⟩ := hasInstance
  obtain ⟨copy', after', filled', growsAfter, fits⟩ := isBound.fills reversible unfolded begun
  cases filled.symm.trans filled'
  -- The bindings need not be forms of the smaller store, so what they stand for is let go of.
  have fitsForm : pattern.Fits setting.literals (fun _ _ => True) store bindings form :=
    reversible.isCarried (grows.trans growsAfter).carriesBack (fun _ _ _ => trivial)
      (fun _ _ => .of_eq rfl) fits ⟨alike, finite⟩
  obtain ⟨captures, matched, _⟩ := reversible.isComplete unfolded distinct [] finite fitsForm
  exact ⟨captures, matched⟩

theorem IsReversible.matches_iff_hasInstance
    (reversible : pattern.IsReversible setting.literals)
    (unfolded : pattern.IsUnfolded)
    (distinct : (pattern.occurrences setting.literals).Nodup)
    {form : Value}
    (finite : store.IsFinite form) :
    (∃ captures, pattern.matchForm store setting.literals form [] = some captures) ↔
      pattern.HasInstance setting store form := by
  constructor
  · rintro ⟨captures, matched⟩
    obtain ⟨grows, isBound, copy, after, filled, _, alike⟩ :=
      reversible.refilled unfolded distinct finite matched
    exact ⟨_, _, copy, after, grows, isBound, filled, alike⟩
  · exact reversible.matched_of_hasInstance unfolded distinct finite

theorem IsReversible.rematched
    (reversible : pattern.IsReversible setting.literals)
    (unfolded : pattern.IsUnfolded)
    (distinct : (pattern.occurrences setting.literals).Nodup)
    {bindings : Captures}
    (isBound : pattern.IsBoundBy setting.literals store bindings) :
    ∃ copy after captures,
      pattern.fill setting bindings store = (.ok copy, after) ∧ store.Grows after ∧
        pattern.matchForm after setting.literals copy [] = some captures ∧
          ∀ name, Captures.Agree (Capture.IsSettled after) captures bindings name := by
  obtain ⟨copy, after, filled, grows, fits⟩ := isBound.fills reversible unfolded store
  have alike : after.Alike copy copy := by
    refine reversible.alike ?_ fits fits
    exact fun filled filled' => filled.alike grows filled'
  obtain ⟨captures, matched, agree⟩ :=
    reversible.isComplete unfolded distinct [] alike.isFinite fits
  refine ⟨copy, after, captures, filled, grows, matched, fun name => ?_⟩
  by_cases occurs : name ∈ pattern.occurrences setting.literals
  · refine Captures.Agree.mono ?_ (agree name occurs)
    rintro capture _ ⟨form, isSettled, rfl, _⟩
    exact isSettled
  · have captured := (reversible.isSound distinct alike.isFinite matched).1
    rw [Captures.Agree, captured.outside name occurs, isBound.names occurs]
    exact .none

end Form

/--
For a pattern of distinct variables that is read from a finite value, matching is the inverse of
filling, as far as the scopes of identifiers do not matter.
-/
theorem matching_inverts_filling
    {setting : TemplateSetting}
    {store : Store}
    {source : Value}
    (isFinite : store.IsFinite source)
    (reversible : (store.form source).IsReversible setting.literals)
    (distinct : ((store.form source).occurrences setting.literals).Nodup) :
    (∀ form, store.IsFinite form →
      ((∃ captures,
          (store.form source).matchForm store setting.literals form [] = some captures) ↔
        (store.form source).HasInstance setting store form)) ∧
    (∀ form captures, store.IsFinite form →
      (store.form source).matchForm store setting.literals form [] = some captures →
        ∃ copy after,
          (store.form source).fill setting (captures.settle store).1 (captures.settle store).2 =
              (.ok copy, after) ∧
            store.Grows after ∧ after.Alike copy form) ∧
    ∀ bindings, (store.form source).IsBoundBy setting.literals store bindings →
      ∃ copy after captures,
        (store.form source).fill setting bindings store = (.ok copy, after) ∧ store.Grows after ∧
          (store.form source).matchForm after setting.literals copy [] = some captures ∧
            ∀ name, Captures.Agree (Capture.IsSettled after) captures bindings name := by
  have unfolded : (store.form source).IsUnfolded := isFinite.isUnfolded _
  refine ⟨fun form finite => ?_, fun form captures finite matched => ?_, fun bindings isBound => ?_⟩
  · exact reversible.matches_iff_hasInstance unfolded distinct finite
  · exact (reversible.refilled unfolded distinct finite matched).2.2
  · exact reversible.rematched unfolded distinct isBound

/-- The pattern `((name value ...) ...)` and, next to it, the form `((x 1 2) (y))`. -/
def rowsStore : Store :=
  { Store.empty with
    pairs := #[
      ⟨.pair 2, .pair 1⟩, ⟨.symbol "...", .nil⟩, ⟨.symbol "name", .pair 3⟩,
      ⟨.symbol "value", .pair 4⟩, ⟨.symbol "...", .nil⟩, ⟨.pair 7, .pair 6⟩, ⟨.pair 10, .nil⟩,
      ⟨.symbol "x", .pair 8⟩, ⟨.integer 1, .pair 9⟩, ⟨.integer 2, .nil⟩, ⟨.symbol "y", .nil⟩] }

private theorem rows_isReversible : (rowsStore.form (.pair 0)).IsReversible [] := by
  have nowhere : Form.NoEllipsis [] := nofun
  have before : Form.NoEllipsis [.identifier "name" (.symbol "name")] :=
    List.forall_mem_cons.mpr ⟨by decide, nofun⟩
  have row : Form.IsReversible [] (rowsStore.formWithin 11 (.pair 2)) := by
    refine .list (@Form.IsSequence.repeating [] [_] [] _ _ before ?_ ?_ rfl nowhere) ?_
      (.atom trivial) (.inl rfl)
    · decide
    · decide
    · refine List.forall_mem_cons.mpr ⟨fun _ => .capturing rfl, ?_⟩
      refine List.forall_mem_cons.mpr ⟨fun _ => .capturing rfl, ?_⟩
      exact List.forall_mem_cons.mpr ⟨fun plain => (plain rfl).elim, nofun⟩
  refine .list (@Form.IsSequence.repeating [] [] [] _ _ nowhere ?_ ?_ rfl nowhere) ?_
    (.atom trivial) (.inl rfl)
  · decide
  · decide
  · exact List.forall_mem_cons.mpr
      ⟨fun _ => row, List.forall_mem_cons.mpr ⟨fun plain => (plain rfl).elim, nofun⟩⟩

theorem rows_are_matched_and_refilled :
    (rowsStore.form (.pair 0)).HasInstance ⟨[], default, []⟩ rowsStore (.pair 5) ∧
      ∃ captures copy after,
        (rowsStore.form (.pair 0)).matchForm rowsStore [] (.pair 5) [] = some captures ∧
          (rowsStore.form (.pair 0)).fill ⟨[], default, []⟩ (captures.settle rowsStore).1
              (captures.settle rowsStore).2 = (.ok copy, after) ∧
            after.Alike copy (.pair 5) := by
  have finiteName (name : String) : rowsStore.IsFinite (.symbol name) := ⟨.identifier name, rfl⟩
  have finiteNil : rowsStore.IsFinite .nil := ⟨.leaf .nil, rfl, trivial⟩
  have finiteNumber (number : Int64) : rowsStore.IsFinite (.integer number) :=
    ⟨.leaf _, rfl, trivial⟩
  have finiteRow : rowsStore.IsFinite (.pair 2) :=
    .of_spells (.pair rfl (.pair rfl (.pair rfl .nothing))) (by simp [finiteName]) finiteNil
  have finitePattern : rowsStore.IsFinite (.pair 0) :=
    .of_spells (.pair rfl (.pair rfl .nothing)) (by simp [finiteName, finiteRow]) finiteNil
  have finiteFirst : rowsStore.IsFinite (.pair 7) :=
    .of_spells (.pair rfl (.pair rfl (.pair rfl .nothing))) (by simp [finiteName, finiteNumber])
      finiteNil
  have finiteSecond : rowsStore.IsFinite (.pair 10) :=
    .of_spells (.pair rfl .nothing) (by simp [finiteName]) finiteNil
  have finiteForm : rowsStore.IsFinite (.pair 5) :=
    .of_spells (.pair rfl (.pair rfl .nothing)) (by simp [finiteFirst, finiteSecond]) finiteNil
  have distinct : ((rowsStore.form (.pair 0)).occurrences []).Nodup := by decide +kernel
  obtain ⟨instances, refills, _⟩ :=
    @matching_inverts_filling ⟨[], default, []⟩ rowsStore (.pair 0) finitePattern
      rows_isReversible distinct
  have matched :
      ((rowsStore.form (.pair 0)).matchForm rowsStore [] (.pair 5) []).isSome := by
    decide +kernel
  obtain ⟨captures, matched⟩ := Option.isSome_iff_exists.mp matched
  refine ⟨(instances _ finiteForm).mp ⟨captures, matched⟩, captures, ?_⟩
  obtain ⟨copy, after, filled, _, alike⟩ := refills _ captures finiteForm matched
  exact ⟨copy, after, matched, filled, alike⟩

end SmallScheme
