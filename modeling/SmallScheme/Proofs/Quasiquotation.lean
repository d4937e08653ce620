import SmallScheme.Proofs.Quasiquotation.Quoting
import SmallScheme.Proofs.Quasiquotation.Serving
import SmallScheme.Proofs.Quasiquotation.Spelling

namespace SmallScheme

/-!
# Quasiquotation gives what its template stands for

Every template without cycles is read as one tree.  As long as the forms that are evaluated leave
the template as it is, its expansion runs like the reference, which fills the gaps of the tree in
order.  What has been made before a form is evaluated is nothing that the machine could change.
-/

variable
  {serve : Request → Run Value}
  {handOver : Step → Run Step}

/-- What leaves more as it was leaves less as it was. -/
theorem Script.Spares.keeps
    {Answer : Type}
    {more kept : Store → Prop}
    {script : Script Answer}
    {machine : Machine}
    (spares : script.Spares serve handOver more machine)
    (implies : ∀ store, more store → kept store) :
    script.Keeps serve handOver kept machine := by
  induction script generalizing machine more with
  | done answer => trivial
  | unwind reason => trivial
  | viewing look next inductionHypothesis => exact inductionHypothesis _ spares implies
  | acting action next inductionHypothesis =>
      exact inductionHypothesis _ spares fun store both => implies store both.1
  | switching change next inductionHypothesis => exact inductionHypothesis _ spares implies
  | asking request next inductionHypothesis =>
      intro result later served
      obtain ⟨isKept, further⟩ := spares result later served
      exact ⟨fun isOk => implies _ (isKept isOk), inductionHypothesis _ further implies⟩
  | deferring step next inductionHypothesis =>
      intro result later handed
      obtain ⟨isKept, further⟩ := spares result later handed
      exact ⟨fun isOk => implies _ (isKept isOk), inductionHypothesis _ further implies⟩

namespace Quasiquotation

variable
  {scope : Scope}
  {store : Store}
  {machine : Machine}

/-! Templates without gaps. -/

section Complete

variable
  {Answer : Type}

mutual

/-- Nothing is asked for on behalf of a template without gaps. -/
theorem spares_of_complete
    (template : Template)
    (complete : template.gaps = [])
    {next : Value → Script Answer}
    (spares :
      ∀ found kept machine, (next found).Spares serve handOver kept machine)
    (kept : Store → Prop)
    (machine : Machine) :
    ((template.meaning scope).bind next).Spares serve handOver kept machine := by
  match template with
  | .constant value => exact spares _ _ _
  | .identifier name value => exact spares _ _ _
  | .unquoted _ _ => cases complete
  | .spliced _ _ => cases complete
  | .marked mark inner value =>
      rw [Template.meaning]
      refine (Script.bind_assoc _ _ _).symm ▸ spares_of_complete inner complete ?_ kept machine
      exact fun datum kept machine => spares _ _ _
  | .pair head tail value =>
      obtain ⟨headComplete, tailComplete⟩ := List.append_eq_nil_iff.mp complete
      rw [Template.meaning]
      refine (bind_assoc₂ _ _ _ _).symm ▸ sparesItem_of_complete head headComplete ?_ kept machine
      intro items kept machine
      refine spares_of_complete tail tailComplete ?_ kept machine
      exact fun ending kept machine => spares _ _ _
  | .vector items value =>
      rw [Template.meaning]
      refine (Script.bind_assoc _ _ _).symm ▸ spareAll_of_complete items complete ?_ kept machine
      exact fun values kept machine => spares _ _ _

theorem sparesItem_of_complete
    (template : Template)
    (complete : template.gapsOfItem template.gaps = [])
    {next : List Value → Script Answer}
    (spares :
      ∀ found kept machine, (next found).Spares serve handOver kept machine)
    (kept : Store → Prop)
    (machine : Machine) :
    ((template.itemMeaning scope (template.meaning scope)).bind next).Spares serve handOver kept
      machine := by
  have notSpliced (form value : Value) : template ≠ .spliced form value := by
    rintro rfl
    cases complete
  rw [Template.itemMeaning_eq notSpliced, Script.bind_assoc]
  refine spares_of_complete template (Store.gapsOfItem_eq_nil complete) ?_ kept machine
  exact fun value kept machine => spares _ _ _

theorem spareAll_of_complete
    (templates : List Template)
    (complete : Template.gapsOfAll templates = [])
    {next : List Value → Script Answer}
    (spares :
      ∀ found kept machine, (next found).Spares serve handOver kept machine)
    (kept : Store → Prop)
    (machine : Machine) :
    ((Template.meaningOfItems scope templates).bind next).Spares serve handOver kept machine := by
  match templates with
  | [] => exact spares _ _ _
  | template :: rest =>
      obtain ⟨firstComplete, restComplete⟩ := List.append_eq_nil_iff.mp complete
      rw [Template.meaningOfItems]
      refine (bind_assoc₂ _ _ _ _).symm ▸
        sparesItem_of_complete template firstComplete ?_ kept machine
      intro items kept machine
      refine spareAll_of_complete rest restComplete ?_ kept machine
      exact fun others kept machine => spares _ _ _

end

end Complete

/-- A template that is not too high is expanded to what it stands for. -/
theorem run_expand
    {template : Template}
    {fuel : Nat}
    (reads : machine.store.Reads 1 template)
    (enough : 3 * template.height + 1 ≤ fuel)
    (keeps :
      (template.meaning scope).Keeps serve handOver (fun store => store.Reads 1 template) machine) :
    (expand scope fuel 1 template.value .done).run serve handOver machine =
      (template.meaning scope).run serve handOver machine := by
  have expanded : IsExpanded Value serve handOver (fun store => store.Reads 1 template) scope 1
      template :=
    isExpanded (fun reads grows => Store.Reads.grows grows template reads) template
      fun store reads => reads
  have alike : GoOnAlike serve handOver (fun store => store.Reads 1 template)
      (Script.done : Value → Script Value) .done :=
    fun _ _ _ _ => rfl
  have ran := expanded.whole fuel enough alike reads
  rw [Script.bind_done] at ran
  exact ran keeps

theorem run_value
    (template : Value) :
    (value scope template).run serve handOver machine =
      (expand scope (3 * machine.store.extent + 3 + Fuel.ample) 1 template .done).run serve handOver
        machine := by
  -- For any fuel, so that the fuel is not counted down.
  have run_general (more : Nat) :
      (Script.viewing Store.extent fun extent =>
          expand scope (3 * extent + 3 + more) 1 template .done).run serve handOver machine =
        (expand scope (3 * machine.store.extent + 3 + more) 1 template .done).run serve handOver
          machine :=
    rfl
  exact run_general Fuel.ample

/-- A misplaced part whose text has an end is refused without anything being asked for. -/
theorem keeps_misplaced
    {part form : Value}
    {text : String}
    (written : machine.store.written? part = some text)
    (kept : Store → Prop) :
    (Template.meaning scope (.spliced form part)).Keeps serve handOver kept machine := by
  simp only [Template.meaning, Script.failTelling, Script.writing, Script.view, bind, Script.bind,
    Script.Keeps, written]
  trivial

theorem run_misplaced
    {part form : Value}
    {text : String}
    (hasMark : machine.store.HasMark part .unquoteSplicing form)
    (written : machine.store.written? part = some text) :
    (value scope part).run serve handOver machine =
      some (.error (.fault (.evaluation (.splicePlace text))), machine) := by
  have reads : machine.store.Reads 1 (.spliced form part) := ⟨rfl, hasMark⟩
  have enough (more : Nat) : 3 * 0 + 1 ≤ 3 * machine.store.extent + 3 + more := by omega
  rw [run_value]
  exact (run_expand reads (enough Fuel.ample) (keeps_misplaced written _)).trans
    (Script.run_failTelling written _)

/-- A value without cycles is read as a template, which is not higher than the store is large. -/
theorem exists_template
    {value : Value}
    (isFinite : store.IsFinite value) :
    ∃ template : Template,
      template.value = value ∧ store.Reads 1 template ∧ template.height ≤ store.extent := by
  obtain ⟨outline, shows⟩ := isFinite
  obtain ⟨template, isRead, reads, fits⟩ := Store.Shows.isReadWithin outline shows 1
  exact ⟨template, isRead, reads, fits.trans shows.height_le_extent⟩

theorem isStable_true :
    IsStable fun _ => True :=
  fun _ _ _ _ => trivial

theorem spares_meaning_of_complete
    (template : Template)
    (complete : template.gaps = [])
    (kept : Store → Prop)
    (machine : Machine) :
    (template.meaning scope).Spares serve handOver kept machine := by
  have ends (found : Value) (kept : Store → Prop) (machine : Machine) :
      (Script.done found).Spares serve handOver kept machine :=
    trivial
  rw [← Script.bind_done (template.meaning scope)]
  exact spares_of_complete template complete ends kept machine

/-- The gaps are filled in order, or one of them cannot be; what is made is the filled template. -/
theorem meaning_cases
    (template : Template) :
    (∃ found last fillings,
      (template.meaning scope).run serve handOver machine = some (.ok found, last) ∧
        AreFilled serve scope template.gaps machine fillings last ∧
        ((template.meaning scope).Spares serve handOver (fun _ => True) machine →
          ∀ store, last.store.Grows store → store.IsFilled template fillings found)) ∨
      ∃ stop,
        (template.meaning scope).run serve handOver machine = stopped stop ∧
          StopAt serve scope template.gaps machine stop := by
  obtain ⟨found, last, fillings, ran, areFilled, lasts⟩ | stops :=
    @fills_meaning serve handOver scope template machine
  · refine .inl ⟨found, last, fillings, ran, areFilled, fun spares store grows => ?_⟩
    rw [← Script.bind_done (template.meaning scope)] at spares
    obtain ⟨still, stable, isStill, _, holds⟩ := lasts .done isStable_true trivial spares
    exact (holds store (stable isStill grows)).2
  · exact .inr stops

/-- What a template without gaps stands for is made without evaluating anything. -/
theorem exists_of_complete
    (template : Template)
    (complete : template.gaps = []) :
    ∃ found last,
      (template.meaning scope).run serve handOver machine = some (.ok found, last) ∧
        Makes machine last ∧
        ∀ store, last.store.Grows store → store.IsFilled template [] found := by
  have outcomes := @meaning_cases serve handOver scope machine template
  rw [complete] at outcomes
  obtain ⟨found, last, fillings, ran, areFilled, holds⟩ | ⟨_, _, before, _, _, _, _, isNil, _⟩ :=
    outcomes
  · cases areFilled with
    | nothing makes =>
        exact ⟨found, last, ran, makes, holds (spares_meaning_of_complete template complete _ _)⟩
  · cases before <;> cases isNil

end Quasiquotation

open Quasiquotation (Template Makes AreFilled StopAt stopped OutcomesAlike)

/--
A value without cycles is read as one template, and its expansion runs like what the template stands
for, as long as the forms that are evaluated leave the template as it is.  So the gaps are filled in
order, each once, until one of them cannot be filled; and the result is the template with its gaps
filled, as long as what has been made for it is left as it is, too.  This the machine does in any
case.  A template without gaps is quoted and nothing else happens, and how marks are spelled only
matters for how a misplaced part is shown.
-/
theorem templates_are_expanded_to_what_they_stand_for
    {machine : Machine}
    {value : Value}
    (isFinite : machine.store.IsFinite value) :
    ∃ template : Template,
      (∀ other : Template,
        other.value = value ∧ machine.store.Reads 1 other ↔ other = template) ∧
      (∀ serve handOver scope,
        (template.meaning scope).Keeps serve handOver (fun store => store.Reads 1 template)
            machine →
          (Quasiquotation.value scope value).run serve handOver machine =
              (template.meaning scope).run serve handOver machine ∧
            ((∃ found last fillings,
              (Quasiquotation.value scope value).run serve handOver machine =
                  some (.ok found, last) ∧
                AreFilled serve scope template.gaps machine fillings last ∧
                ((template.meaning scope).Spares serve handOver (fun _ => True) machine →
                  last.store.IsFilled template fillings found)) ∨
              ∃ stop,
                (Quasiquotation.value scope value).run serve handOver machine = stopped stop ∧
                  StopAt serve scope template.gaps machine stop)) ∧
      (∀ (host : Host) limit fuel handOver scope,
        (∀ realm : Realm, ¬realm.steady → host.Stays realm) →
        machine.IsGrounded →
        (template.meaning scope).Spares (Machine.serve host limit fuel) handOver (fun _ => True)
          machine) ∧
      (template.gaps = [] →
        (∀ store,
          machine.store.Grows store →
            (store.quoteValue value).2.IsFilled template [] (store.quoteValue value).1) ∧
          ∀ serve handOver scope,
            ∃ found last,
              (Quasiquotation.value scope value).run serve handOver machine =
                  some (.ok found, last) ∧
                Makes machine last ∧ last.store.IsFilled template [] found ∧
                (last.store.quoteValue value).2.Alike found (last.store.quoteValue value).1) ∧
      ∀ spelled,
        machine.store.IsSpelled template spelled →
        ∃ other : Template,
          other.value = spelled ∧ machine.store.Reads 1 other ∧
          ∀ serve handOver scope,
            (template.meaning scope).Keeps serve handOver (fun store => store.Reads 1 template)
              machine →
            (other.meaning scope).Keeps serve handOver (fun store => store.Reads 1 other) machine →
            OutcomesAlike serve handOver machine.store
              ((Quasiquotation.value scope value).run serve handOver machine)
              ((Quasiquotation.value scope spelled).run serve handOver machine) := by
  obtain ⟨template, rfl, reads, fits⟩ := Quasiquotation.exists_template isFinite
  have ran {other : Template} (reads : machine.store.Reads 1 other)
      (same : other.height = template.height) {serve : Request → Run Value}
      {handOver : Step → Run Step} {scope : Scope}
      (keeps :
        (other.meaning scope).Keeps serve handOver (fun store => store.Reads 1 other) machine) :
      (Quasiquotation.value scope other.value).run serve handOver machine =
        (other.meaning scope).run serve handOver machine := by
    have enough (more : Nat) : 3 * other.height + 1 ≤ 3 * machine.store.extent + 3 + more := by
      omega
    rw [Quasiquotation.run_value]
    exact Quasiquotation.run_expand reads (enough Fuel.ample) keeps
  refine ⟨template, fun other => ⟨fun isRead => ?_, ?_⟩,
    fun serve handOver scope keeps => ⟨ran reads rfl keeps, ?_⟩, fun host limit fuel handOver scope
    hostStays grounded => Quasiquotation.spares_meaning hostStays grounded reads,
    fun complete => ⟨fun store grows => ?_, fun serve handOver scope => ?_⟩,
    fun spelled isSpelled => ?_⟩
  · exact Store.Reads.unique other template isRead.2 reads isRead.1
  · rintro rfl
    exact ⟨rfl, reads⟩
  · rw [ran reads rfl keeps]
    obtain ⟨found, last, fillings, ends, areFilled, holds⟩ | stops :=
      @Quasiquotation.meaning_cases serve handOver scope machine template
    · exact .inl ⟨found, last, fillings, ends, areFilled, fun spares => holds spares _ (.refl _)⟩
    · exact .inr stops
  · obtain ⟨growsAfter, quotes⟩ := (isFinite.grows grows).quoteValue_quotes
    exact quotes.isFilled template (reads.grows (grows.trans growsAfter) template) complete
  · obtain ⟨found, last, ends, makes, isFilled⟩ :=
      @Quasiquotation.exists_of_complete serve handOver scope machine template complete
    have spares := @Quasiquotation.spares_meaning_of_complete serve handOver scope template complete
      (fun store => store.Reads 1 template) machine
    have keeps := spares.keeps fun _ => id
    refine ⟨found, last, (ran reads rfl keeps).trans ends, makes, isFilled _ (.refl _), ?_⟩
    obtain ⟨growsAfter, quotes⟩ := (isFinite.grows makes.store).quoteValue_quotes
    have readsAfter := reads.grows (makes.store.trans growsAfter) template
    exact Store.IsFilled.alike template readsAfter complete (isFilled _ growsAfter)
      (quotes.isFilled template readsAfter complete)
  · obtain ⟨other, rfl, readsOther, alike⟩ :=
      Quasiquotation.exists_standsAlike template reads isSpelled
    refine ⟨other, rfl, readsOther, fun serve handOver scope keeps keepsOther => ?_⟩
    rw [ran reads rfl keeps, ran readsOther alike.height keepsOther]
    exact (alike.meaning scope).outcomes serve handOver machine

/-- The template `((,x) ,@y)`, where `x` is 2 and `y` is the list `(3 4)`. -/
def gappedList : Store :=
  { Store.empty with
    pairs :=
      #[⟨.pair 1, .pair 2⟩, ⟨.marked .unquote 0, .nil⟩, ⟨.marked .unquoteSplicing 1, .nil⟩,
        ⟨.integer 3, .pair 4⟩, ⟨.integer 4, .nil⟩]
    marked := #[.symbol "x", .symbol "y"]
    frames := #[⟨[("x", .integer 2), ("y", .pair 3)], []⟩] }

/-- How the list is read. -/
def gappedTemplate : Template :=
  .pair (.pair (.unquoted (.symbol "x") (.marked .unquote 0)) (.constant .nil) (.pair 1))
    (.pair (.spliced (.symbol "y") (.marked .unquoteSplicing 1)) (.constant .nil) (.pair 2))
    (.pair 0)

theorem gappedList_reads :
    gappedList.Reads 1 gappedTemplate := by
  have unmarked (address : Nat) (isMark : gappedList.mark? (.pair address) = none)
      (mark : Mark) (inner : Value) :
      ¬gappedList.HasMark (.pair address) mark inner := fun hasMark => by
    cases isMark.symm.trans hasMark.mark?_eq
  refine ⟨unmarked 0 rfl, ⟨0, rfl, rfl⟩, ⟨unmarked 1 rfl, ⟨1, rfl, rfl⟩, ?_, trivial⟩,
    unmarked 2 rfl, ⟨2, rfl, rfl⟩, ?_, trivial⟩
  · exact ⟨rfl, .abbreviated rfl⟩
  · exact ⟨rfl, .abbreviated rfl⟩

theorem gappedList_isGrounded :
    Machine.IsGrounded ⟨gappedList, default, 0⟩ := by
  refine ⟨?_, nofun⟩
  exact
    { apart := nofun
      apartVectors := nofun
      pairs := fun {address pair} found _ => by
        have member := Array.mem_of_getElem? found
        simp only [gappedList, List.mem_toArray, List.mem_cons, List.not_mem_nil, or_false]
          at member
        rcases member with rfl | rfl | rfl | rfl | rfl <;>
          simp [Pair.Belongs, Value.Belongs, Realm.around, Apart.nothing, Store.sizes, gappedList]
      vectors := by simp [gappedList, Store.empty]
      marked := by simp [gappedList, Value.Belongs]
      programs := by simp [gappedList, Store.empty]
      frames := fun frame member binding bound => by
        obtain rfl := List.mem_singleton.mp (Array.mem_def.mp member)
        simp only [List.mem_cons, List.not_mem_nil, or_false] at bound
        rcases bound with rfl | rfl <;>
          simp [Value.Belongs, Realm.around, Apart.nothing, Store.sizes, gappedList]
      procedures := by simp [gappedList, Store.empty]
      transformers := by simp [gappedList, Store.empty]
      parameters := by simp [gappedList, Store.empty]
      conditions := by simp [gappedList, Store.empty]
      foreigns := by simp [gappedList, Store.empty]
      binds := id }

theorem gappedTemplate_keeps :
    (gappedTemplate.meaning ⟨0, []⟩).Keeps (Machine.serve Host.absent 8 8) Run.done
      (fun store => store.Reads 1 gappedTemplate) ⟨gappedList, default, 0⟩ := by
  intro result later served
  have first :
      Machine.serve Host.absent 8 8 (.evaluate ⟨0, []⟩ (.symbol "x")) ⟨gappedList, default, 0⟩ =
        some (.ok (.integer 2), ⟨gappedList, default, 0⟩) :=
    rfl
  cases first.symm.trans served
  refine ⟨fun _ => gappedList_reads, ?_⟩
  intro result later served
  have second :
      Machine.serve Host.absent 8 8 (.evaluate ⟨0, []⟩ (.symbol "y"))
          ⟨(gappedList.newPair (.integer 2) .nil).2, default, 0⟩ =
        some (.ok (.pair 3), ⟨(gappedList.newPair (.integer 2) .nil).2, default, 0⟩) :=
    rfl
  cases second.symm.trans served
  refine ⟨fun _ => ?_, trivial⟩
  exact Store.Reads.grows (Store.grows_newPair _ _ _) gappedTemplate gappedList_reads

/-- The list with its gaps filled is `((2) 3 4)`, and the machine leaves `(2)` alone on the way. -/
theorem gaps_of_list_are_filled :
    gappedList.IsFinite (.pair 0) ∧
      ∃ found last fillings,
        (Quasiquotation.value ⟨0, []⟩ (.pair 0)).run (Machine.serve Host.absent 8 8) Run.done
            ⟨gappedList, default, 0⟩ =
          some (.ok found, last) ∧
        AreFilled (Machine.serve Host.absent 8 8) ⟨0, []⟩ gappedTemplate.gaps
          ⟨gappedList, default, 0⟩ fillings last ∧
        last.store.IsFilled gappedTemplate fillings found ∧
        last.store.written? found = some "((2) 3 4)" := by
  have first :
      gappedList.Shows (.pair (.marked .unquote (.identifier "x")) (.leaf .nil)) (.pair 1) :=
    ⟨1, _, _, rfl, rfl, ⟨0, _, rfl, rfl, rfl⟩, rfl, trivial⟩
  have second :
      gappedList.Shows (.pair (.marked .unquoteSplicing (.identifier "y")) (.leaf .nil))
          (.pair 2) :=
    ⟨2, _, _, rfl, rfl, ⟨1, _, rfl, rfl, rfl⟩, rfl, trivial⟩
  have isFinite : gappedList.IsFinite (.pair 0) :=
    ⟨.pair _ _, 0, _, _, rfl, rfl, first, second⟩
  have written :
      ((Quasiquotation.value ⟨0, []⟩ (.pair 0)).run (Machine.serve Host.absent 8 8) Run.done
            ⟨gappedList, default, 0⟩).any fun outcome =>
        outcome.1.toOption.any fun found =>
          outcome.2.store.written? found = some "((2) 3 4)" := by
    decide +kernel
  obtain ⟨template, isRead, expands, spares, _⟩ :=
    @templates_are_expanded_to_what_they_stand_for ⟨gappedList, default, 0⟩ _ isFinite
  obtain rfl := (isRead gappedTemplate).mp ⟨rfl, gappedList_reads⟩
  obtain ⟨found, last, fillings, ran, areFilled, isFilled⟩ | ⟨stop, ran, _⟩ :=
    (expands _ _ ⟨0, []⟩ gappedTemplate_keeps).2
  · refine ⟨isFinite, found, last, fillings, ran, areFilled, isFilled ?_, ?_⟩
    · exact spares Host.absent 8 8 Run.done ⟨0, []⟩ (fun realm _ => Host.absent_stays realm)
        gappedList_isGrounded
    · rw [ran] at written
      exact of_decide_eq_true written
  · rw [ran] at written
    rcases stop with _ | ⟨reason, last⟩ <;> cases written

/-- The form `,@x`, and the same form spelled as a list. -/
def misplacedForms : Store where
  __ := Store.empty
  marked := #[.symbol "x"]
  pairs := #[⟨.symbol "unquote-splicing", .pair 1⟩, ⟨.symbol "x", .nil⟩]

/-- A misplaced part is shown as it is spelled, so that the outcomes differ. -/
theorem spelling_of_a_misplaced_part_matters :
    misplacedForms.IsFinite (.marked .unquoteSplicing 0) ∧
      ∃ template : Template,
        template.value = .marked .unquoteSplicing 0 ∧ misplacedForms.Reads 1 template ∧
        misplacedForms.IsSpelled template (.pair 0) ∧
        (template.meaning ⟨0, []⟩).Keeps (Machine.serve Host.absent 8 8) Run.done
          (fun store => store.Reads 1 template) ⟨misplacedForms, default, 0⟩ ∧
        (Quasiquotation.value ⟨0, []⟩ (.marked .unquoteSplicing 0)).run
            (Machine.serve Host.absent 8 8) Run.done ⟨misplacedForms, default, 0⟩ ≠
          (Quasiquotation.value ⟨0, []⟩ (.pair 0)).run (Machine.serve Host.absent 8 8) Run.done
            ⟨misplacedForms, default, 0⟩ := by
  have isFinite : misplacedForms.IsFinite (.marked .unquoteSplicing 0) :=
    ⟨.marked .unquoteSplicing (.identifier "x"), 0, .symbol "x", rfl, rfl, rfl⟩
  have abbreviated : misplacedForms.HasMark (.marked .unquoteSplicing 0) .unquoteSplicing
      (.symbol "x") :=
    .abbreviated rfl
  have isSpelled : misplacedForms.HasMark (.pair 0) .unquoteSplicing (.symbol "x") :=
    .spelled rfl rfl rfl
  have written : misplacedForms.written? (.marked .unquoteSplicing 0) = some ",@x" := by
    decide +kernel
  have writtenAsList : misplacedForms.written? (.pair 0) = some "(unquote-splicing x)" := by
    decide +kernel
  refine ⟨isFinite, .spliced (.symbol "x") (.marked .unquoteSplicing 0), rfl,
    ⟨rfl, abbreviated⟩, isSpelled, Quasiquotation.keeps_misplaced written _, fun same => ?_⟩
  rw [Quasiquotation.run_misplaced abbreviated written,
    Quasiquotation.run_misplaced isSpelled writtenAsList] at same
  simp at same

end SmallScheme
