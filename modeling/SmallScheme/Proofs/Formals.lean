import SmallScheme.Proofs.Store.Growth
import SmallScheme.Store.Formals

namespace SmallScheme

/-!
# Formals

Formals are described by one identifier or by a chain of different ones.  Reading them comes to an
end on circular chains, too, because it stops at the first name that comes again.  Only where it
stops at a part that is no name, and whose text has no end, does the refusal never come about.
-/

namespace Formals

/-- The names that stand for one operand each. -/
def names : Formals → List String
  | .variadic _ => []
  | .fixed names => names
  | .withRest names _ => names

/-- The name that stands for a list of further operands. -/
def rest? : Formals → Option String
  | .variadic name => some name
  | .fixed _ => none
  | .withRest _ rest => some rest

def allNames (formals : Formals) : List String :=
  formals.names ++ formals.rest?.toList

/-- The form is an identifier, or a chain of identifiers whose names all differ. -/
inductive Describes (store : Store) (form : Value) : Formals → Prop
  | variadic {name : String} :
      form.identifier? = some name → Describes store form (.variadic name)
  | fixed {items : List Value} {names : List String} :
      store.Spells form items .nil →
      items.map Value.identifier? = names.map some →
      names.Nodup →
      Describes store form (.fixed names)
  | withRest {items : List Value} {ending : Value} {names : List String} {rest : String} :
      items ≠ [] →
      store.Spells form items ending →
      items.map Value.identifier? = names.map some →
      ending.identifier? = some rest →
      (names ++ [rest]).Nodup →
      Describes store form (.withRest names rest)

/-- What comes of the names before the ending of a chain. -/
def endedBy (store : Store) (names : List String) (ending : Value) : Except Fault Formals :=
  match ending with
  | .nil => .ok (.fixed names)
  | rest => (nameOf store names rest).map (.withRest names)

/--
Names are read pair by pair until a pair is refused or the chain ends, however long that takes.  The
names before are known.
-/
inductive ReadsOn (store : Store) : List String → Value → Except Fault Formals → Prop
  | ended {earlier : List String} {ending : Value} :
      store.pair? ending = none → ReadsOn store earlier ending (endedBy store earlier ending)
  | refused {earlier : List String} {address : Nat} {head tail : Value} {fault : Fault} :
      store.pairs[address]? = some ⟨head, tail⟩ →
      nameOf store earlier head = .error fault →
      ReadsOn store earlier (.pair address) (.error fault)
  | named {earlier : List String} {address : Nat} {head tail : Value} {name : String}
      {outcome : Except Fault Formals} :
      store.pairs[address]? = some ⟨head, tail⟩ →
      nameOf store earlier head = .ok name →
      ReadsOn store (earlier ++ [name]) tail outcome →
      ReadsOn store earlier (.pair address) outcome

/-- Reading the parameters that the form describes comes to its last step, with the outcome. -/
def Reads (store : Store) (form : Value) (outcome : Except Fault Formals) : Prop :=
  match form.identifier? with
  | some name => outcome = .ok (.variadic name)
  | none => ReadsOn store [] form outcome

/-- Reading the parameters that the form describes ends, with the outcome. -/
def EndsWith (store : Store) (form : Value) (outcome : Except Fault Formals) : Prop :=
  Reads store form outcome ∧ outcome ≠ .error (.evaluation .endless)

/--
All parts of the form before the one are identifiers with different names, and that one, a part of
the chain or what it ends with, is no identifier.
-/
def RefusesFirst (store : Store) (form part : Value) : Prop :=
  part.identifier? = none ∧
    ∃ items names rest,
      store.Spells form items rest ∧ namesOf store [] items = .ok names ∧
        ((∃ address tail, rest = .pair address ∧ store.pairs[address]? = some ⟨part, tail⟩) ∨
          (store.pair? rest = none ∧ rest = part ∧ part ≠ .nil))

variable
  {store : Store}
  {form value ending : Value}
  {items : List Value}
  {earlier found : List String}
  {name : String}

/-! Names. -/

/--
The name of a parameter is read exactly where the form is an identifier that is not taken yet.
-/
theorem nameOf_eq_ok_iff :
    nameOf store earlier form = .ok name ↔ form.identifier? = some name ∧ name ∉ earlier := by
  unfold nameOf
  cases form.identifier? with
  | none => simp
  | some own =>
      dsimp only
      split
      case isTrue member =>
        simp only [List.contains_eq_mem, decide_eq_true_eq] at member
        simp only [reduceCtorEq, Option.some.injEq, false_iff, not_and, not_not]
        rintro rfl
        exact member
      case isFalse notMember =>
        simp only [List.contains_eq_mem, decide_eq_true_eq] at notMember
        simp only [Except.ok.injEq, Option.some.injEq, iff_self_and]
        rintro rfl
        exact notMember

/-- After a name the others are read with that name taken. -/
theorem namesOf_of_named
    (named : nameOf store earlier form = .ok name)
    (items : List Value) :
    namesOf store earlier (form :: items) = namesOf store (earlier ++ [name]) items := by
  rw [namesOf, named]
  rfl

/-- The first refusal ends the reading of the names. -/
theorem namesOf_of_refused
    {fault : Fault}
    (refused : nameOf store earlier form = .error fault)
    (items : List Value) :
    namesOf store earlier (form :: items) = .error fault := by
  rw [namesOf, refused]
  rfl

/-- Names are found exactly if the forms are identifiers of new names that all differ. -/
theorem namesOf_eq_ok_iff
    (distinct : earlier.Nodup) :
    namesOf store earlier items = .ok found ↔
      ∃ added,
        found = earlier ++ added ∧ items.map Value.identifier? = added.map some ∧ found.Nodup := by
  induction items generalizing earlier with
  | nil =>
      constructor
      · intro ran
        cases ran
        exact ⟨[], (List.append_nil _).symm, rfl, distinct⟩
      · rintro ⟨added, rfl, same, _⟩
        rw [List.map_eq_nil_iff.mp same.symm, List.append_nil]
        rfl
  | cons item rest inductionHypothesis =>
      cases named : nameOf store earlier item with
      | error fault =>
          rw [namesOf_of_refused named]
          refine iff_of_false nofun ?_
          rintro ⟨added, rfl, same, isDistinct⟩
          obtain ⟨name, others, rfl, identified, _⟩ := List.map_eq_cons_iff.mp same.symm
          have isNew : name ∉ earlier := fun member =>
            List.disjoint_of_nodup_append isDistinct member List.mem_cons_self
          cases named.symm.trans (nameOf_eq_ok_iff.mpr ⟨identified.symm, isNew⟩)
      | ok name =>
          obtain ⟨identified, isNew⟩ := nameOf_eq_ok_iff.mp named
          have stillDistinct : (earlier ++ [name]).Nodup :=
            List.concat_eq_append ▸ distinct.concat isNew
          rw [namesOf_of_named named, inductionHypothesis stillDistinct]
          constructor
          · rintro ⟨added, rfl, same, isDistinct⟩
            refine ⟨name :: added, (List.append_cons _ _ _).symm, ?_, isDistinct⟩
            rw [List.map_cons, List.map_cons, identified, same]
          · rintro ⟨added, rfl, same, isDistinct⟩
            rw [List.map_cons, identified] at same
            obtain ⟨own, others, rfl, isName, sameOthers⟩ := List.map_eq_cons_iff.mp same.symm
            cases isName
            exact ⟨others, List.append_cons _ _ _, sameOthers.symm, isDistinct⟩

/-! Reading to the end. -/

/-- Different items are the heads of different pairs, so there are no more of them than pairs. -/
theorem length_le_of_distinct
    (spells : store.Spells value items ending)
    (distinct : items.Nodup) :
    items.length ≤ store.pairs.size := by
  have exists_cells :
      ∃ cells : List Nat,
        cells.map (fun address => (store.pairAt address).head) = items ∧
          cells ⊆ List.range store.pairs.size := by
    clear distinct
    induction spells with
    | nothing => exact ⟨[], rfl, List.nil_subset _⟩
    | @pair address head tail ending items found _ inductionHypothesis =>
        obtain ⟨cells, rfl, inside⟩ := inductionHypothesis
        have present := (Array.getElem?_eq_some_iff.mp found).1
        refine ⟨address :: cells, ?_, List.cons_subset.mpr ⟨List.mem_range.mpr present, inside⟩⟩
        rw [List.map_cons, Store.pairAt_eq found]
  obtain ⟨cells, rfl, inside⟩ := exists_cells
  simpa using (List.subperm_of_subset (distinct.of_map _) inside).length_le

/-- The names that a walk has found are followed by what comes of the rest of the chain. -/
theorem ReadsOn.of_names
    {outcome : Except Fault Formals}
    (spells : store.Spells value items ending)
    (named : namesOf store earlier items = .ok found)
    (readsOn : ReadsOn store found ending outcome) :
    ReadsOn store earlier value outcome := by
  induction spells generalizing earlier with
  | nothing =>
      cases named
      exact readsOn
  | @pair address head tail ending items pairFound _ inductionHypothesis =>
      cases first : nameOf store earlier head with
      | error fault => cases (namesOf_of_refused first items).symm.trans named
      | ok name =>
          rw [namesOf_of_named first] at named
          exact .named pairFound first (inductionHypothesis named readsOn)

/-- A refusal among the items is what the reading of the whole comes to. -/
theorem ReadsOn.of_refusal
    {fault : Fault}
    (spells : store.Spells value items ending)
    (refused : namesOf store earlier items = .error fault) :
    ReadsOn store earlier value (.error fault) := by
  induction spells generalizing earlier with
  | nothing => cases refused
  | @pair address head tail ending items pairFound _ inductionHypothesis =>
      cases first : nameOf store earlier head with
      | error own =>
          cases (namesOf_of_refused first items).symm.trans refused
          exact .refused pairFound first
      | ok name =>
          rw [namesOf_of_named first] at refused
          exact .named pairFound first (inductionHypothesis refused)

/-- A form is read in one way only, with given names taken. -/
theorem ReadsOn.unique
    {first second : Except Fault Formals}
    (readsFirst : ReadsOn store earlier value first)
    (readsSecond : ReadsOn store earlier value second) :
    first = second := by
  induction readsFirst with
  | ended isEnd =>
      cases readsSecond with
      | ended _ => rfl
      | refused pairFound _ => cases isEnd.symm.trans pairFound
      | named pairFound _ _ => cases isEnd.symm.trans pairFound
  | refused pairFound refused =>
      cases readsSecond with
      | ended isEnd => cases isEnd.symm.trans pairFound
      | refused alsoFound alsoRefused =>
          cases pairFound.symm.trans alsoFound
          cases refused.symm.trans alsoRefused
          rfl
      | named alsoFound isNamed _ =>
          cases pairFound.symm.trans alsoFound
          cases refused.symm.trans isNamed
  | named pairFound isNamed _ inductionHypothesis =>
      cases readsSecond with
      | ended isEnd => cases isEnd.symm.trans pairFound
      | refused alsoFound refused =>
          cases pairFound.symm.trans alsoFound
          cases refused.symm.trans isNamed
      | named alsoFound alsoNamed readsRest =>
          cases pairFound.symm.trans alsoFound
          cases isNamed.symm.trans alsoNamed
          exact inductionHypothesis readsRest

/-- A walk stops at the end of the chain, or when it has taken all its steps. -/
theorem chainWithin_stops
    (store : Store)
    (steps : Nat)
    (sofar : List Value)
    (value : Value) :
    store.pair? (store.chainWithin steps sofar value).2 = none ∨
      (store.chainWithin steps sofar value).1.length = sofar.length + steps := by
  induction steps generalizing sofar value with
  | zero => exact .inr List.length_reverse
  | succ steps inductionHypothesis =>
      unfold Store.chainWithin
      split
      case h_1 pair _ =>
        refine (inductionHypothesis (pair.head :: sofar) pair.tail).imp_right fun same => ?_
        rw [same, List.length_cons]
        omega
      case h_2 isEnd =>
        exact .inl isEnd

/-- Names that have been read are different from one another. -/
theorem nodup_of_namesOf
    (named : namesOf store [] items = .ok found) :
    items.Nodup := by
  obtain ⟨added, rfl, same, distinct⟩ := (namesOf_eq_ok_iff List.nodup_nil).mp named
  have identifiers := distinct.map (Option.some_injective String)
  rw [← same] at identifiers
  exact identifiers.of_map _

/-- What comes of a chain whose names are found is what comes of them before its ending. -/
theorem ofForm_of_walked
    (noName : form.identifier? = none)
    (walked : store.chainWithin (store.pairs.size + 1) [] form = (items, ending))
    (named : namesOf store [] items = .ok found) :
    ofForm store form = endedBy store found ending := by
  unfold ofForm
  rw [noName, walked]
  simp only [named]
  cases ending <;> rfl

/-- Either a name is refused, or all names are found and what follows them is the ending. -/
theorem ofForm_cases
    (store : Store)
    (noName : form.identifier? = none) :
    ∃ items ending,
      store.Spells form items ending ∧
        ((∃ fault,
            namesOf store [] items = .error fault ∧ ofForm store form = .error fault) ∨
          ∃ found,
            namesOf store [] items = .ok found ∧ store.pair? ending = none ∧
              ofForm store form = endedBy store found ending) := by
  obtain ⟨items, same, spells⟩ := store.chainWithin_spells (store.pairs.size + 1) [] form
  have stops := chainWithin_stops store (store.pairs.size + 1) [] form
  rcases walked : store.chainWithin (store.pairs.size + 1) [] form with ⟨_, ending⟩
  rw [walked] at same spells stops
  cases same
  refine ⟨items, ending, spells, ?_⟩
  cases named : namesOf store [] items with
  | error fault =>
      refine .inl ⟨fault, rfl, ?_⟩
      unfold ofForm
      rw [noName, walked]
      simp only [named]
      rfl
  | ok found =>
      have isEnd : store.pair? ending = none := by
        refine stops.resolve_right fun all => ?_
        have := length_le_of_distinct spells (nodup_of_namesOf named)
        simp only [List.length_nil] at all
        omega
      exact .inr ⟨found, rfl, isEnd, ofForm_of_walked noName walked named⟩

/-- Reading the parameters of a form comes to its last step, with what is found. -/
theorem reads_ofForm
    (store : Store)
    (form : Value) :
    Reads store form (ofForm store form) := by
  unfold Reads
  split
  case h_1 name identified =>
    rw [ofForm, identified]
  case h_2 noName =>
    obtain ⟨items, ending, spells, ⟨fault, refused, same⟩ | ⟨found, named, isEnd, same⟩⟩ :=
      ofForm_cases store noName
    · exact same ▸ .of_refusal spells refused
    · exact same ▸ .of_names spells named (.ended isEnd)

/-- A form of parameters is read in one way only. -/
theorem Reads.unique
    {first second : Except Fault Formals}
    (readsFirst : Reads store form first)
    (readsSecond : Reads store form second) :
    first = second := by
  cases identified : form.identifier? with
  | some name =>
      simp only [Reads, identified] at readsFirst readsSecond
      exact readsFirst.trans readsSecond.symm
  | none =>
      simp only [Reads, identified] at readsFirst readsSecond
      exact readsFirst.unique readsSecond

/-! Refusals that never come about. -/

/-- A fault that tells a value is without an end exactly where the text of the value is. -/
theorem telling_eq_endless_iff
    {fault : String → Fault}
    (told : ∀ text, fault text ≠ .evaluation .endless) :
    store.telling value fault = .evaluation .endless ↔ store.written? value = none := by
  unfold Store.telling
  cases store.written? value with
  | some text => simp [told text]
  | none => simp

/-- The reading of a name has no end exactly where the text of what is no identifier has none. -/
theorem nameOf_eq_endless_iff :
    nameOf store earlier form = .error (.evaluation .endless) ↔
      form.identifier? = none ∧ store.written? form = none := by
  unfold nameOf
  cases form.identifier? with
  | none =>
      rw [Except.error.injEq, telling_eq_endless_iff fun _ => Fault.noConfusion]
      simp
  | some name =>
      dsimp only
      split <;> simp

/-- The reading of an ending has no end exactly where the text of what is no ending has none. -/
theorem endedBy_eq_endless_iff :
    endedBy store found ending = .error (.evaluation .endless) ↔
      ending ≠ .nil ∧ ending.identifier? = none ∧ store.written? ending = none := by
  by_cases isNil : ending = .nil
  · subst isNil
    simp [endedBy]
  · rw [endedBy, and_iff_right isNil, ← @nameOf_eq_endless_iff store ending found]
    · cases nameOf store found ending <;> simp [Except.map]
    · exact isNil

/-- Where reading stops without a refusal coming about stands a part that has no text. -/
theorem ReadsOn.exists_endless
    (readsOn : ReadsOn store earlier value (.error (.evaluation .endless))) :
    ∃ items names rest part,
      store.Spells value items rest ∧ namesOf store earlier items = .ok names ∧
        ((∃ address tail, rest = .pair address ∧ store.pairs[address]? = some ⟨part, tail⟩) ∨
          (store.pair? rest = none ∧ rest = part ∧ part ≠ .nil)) ∧
        part.identifier? = none ∧ store.written? part = none := by
  generalize isEndless :
      (.error (.evaluation .endless) : Except Fault Formals) = outcome at readsOn
  induction readsOn with
  | @ended earlier ending isEnd =>
      obtain ⟨notNil, noName, noText⟩ := endedBy_eq_endless_iff.mp isEndless.symm
      exact ⟨[], earlier, ending, ending, .nothing, rfl, .inr ⟨isEnd, rfl, notNil⟩, noName, noText⟩
  | @refused earlier address head tail fault pairFound refused =>
      cases isEndless
      obtain ⟨noName, noText⟩ := nameOf_eq_endless_iff.mp refused
      exact ⟨[], earlier, .pair address, head, .nothing, rfl, .inl ⟨address, tail, rfl, pairFound⟩,
        noName, noText⟩
  | @named earlier address head tail name outcome pairFound named _ inductionHypothesis =>
      obtain ⟨items, names, rest, part, spells, namedRest, stands⟩ := inductionHypothesis isEndless
      exact ⟨head :: items, names, rest, part, .pair pairFound spells,
        (namesOf_of_named named items).trans namedRest, stands⟩

/-- A refusal never comes about exactly if the part that is refused has no text. -/
theorem ofForm_eq_endless_iff :
    ofForm store form = .error (.evaluation .endless) ↔
      ∃ part, RefusesFirst store form part ∧ store.written? part = none := by
  constructor
  · intro isEndless
    have reads := reads_ofForm store form
    rw [isEndless] at reads
    unfold Reads at reads
    split at reads
    case h_1 => cases reads
    case h_2 =>
      obtain ⟨items, names, rest, part, spells, named, stands, noName, noText⟩ :=
        reads.exists_endless
      exact ⟨part, ⟨noName, items, names, rest, spells, named, stands⟩, noText⟩
  · rintro ⟨part, ⟨noName, items, names, rest, spells, named, stands⟩, noText⟩
    have isList : form.identifier? = none := by
      cases spells with
      | pair _ _ => rfl
      | nothing =>
          rcases stands with ⟨_, _, rfl, _⟩ | ⟨_, rfl, _⟩
          · rfl
          · exact noName
    have readsRest : ReadsOn store names rest (.error (.evaluation .endless)) := by
      rcases stands with ⟨address, tail, rfl, pairFound⟩ | ⟨isEnd, rfl, notNil⟩
      · exact .refused pairFound (nameOf_eq_endless_iff.mpr ⟨noName, noText⟩)
      · exact endedBy_eq_endless_iff.mpr ⟨notNil, noName, noText⟩ ▸ .ended isEnd
    have reads : Reads store form (.error (.evaluation .endless)) := by
      unfold Reads
      rw [isList]
      exact .of_names spells named readsRest
    exact (reads_ofForm store form).unique reads

/-- The judgement of a form is what its reading computes, unless a text in it has no end. -/
theorem endsWith_ofForm
    (told : ∀ part, RefusesFirst store form part → store.written? part ≠ none) :
    EndsWith store form (ofForm store form) := by
  refine ⟨reads_ofForm store form, fun isEndless => ?_⟩
  obtain ⟨part, refuses, noText⟩ := ofForm_eq_endless_iff.mp isEndless
  exact told part refuses noText

/-- Reading ends only with what is found, and not if what is refused has no text. -/
theorem EndsWith.eq_and_told
    {outcome : Except Fault Formals}
    (ends : EndsWith store form outcome) :
    outcome = ofForm store form ∧
      ∀ part, RefusesFirst store form part → store.written? part ≠ none := by
  obtain ⟨reads, isTold⟩ := ends
  have same := reads.unique (reads_ofForm store form)
  refine ⟨same, fun part refuses noText => isTold ?_⟩
  exact same.trans (ofForm_eq_endless_iff.mpr ⟨part, refuses, noText⟩)

/-! Forms that are accepted. -/

/-- An identifier that is not taken takes up the rest of the operands. -/
theorem endedBy_of_identifier
    {rest : String}
    (identified : ending.identifier? = some rest)
    (isNew : rest ∉ found) :
    endedBy store found ending = .ok (.withRest found rest) := by
  rw [endedBy, nameOf_eq_ok_iff.mpr ⟨identified, isNew⟩]
  · rfl
  · rintro rfl
    cases identified

/-- What comes of the ending tells what it is. -/
theorem endedBy_eq_ok
    {formals : Formals}
    (ended : endedBy store found ending = .ok formals) :
    ending = .nil ∧ formals = .fixed found ∨
      ∃ rest,
        ending.identifier? = some rest ∧ rest ∉ found ∧ formals = .withRest found rest := by
  unfold endedBy at ended
  split at ended
  · cases ended
    exact .inl ⟨rfl, rfl⟩
  · cases named : nameOf store found ending with
    | error fault =>
        rw [named] at ended
        cases ended
    | ok rest =>
        rw [named] at ended
        cases ended
        obtain ⟨identified, isNew⟩ := nameOf_eq_ok_iff.mp named
        exact .inr ⟨rest, identified, isNew, rfl⟩

/-- Parameters are read off each form that describes them. -/
theorem ofForm_eq_of_described
    {formals : Formals}
    (describes : Describes store form formals) :
    ofForm store form = .ok formals := by
  cases describes with
  | variadic identified => rw [ofForm, identified]
  | @fixed items names spells same distinct =>
      have noName : form.identifier? = none := by cases spells <;> rfl
      have isLast (address : Nat) : Value.nil ≠ .pair address := nofun
      have walked := Store.chainWithin_of_spells spells isLast
        (Nat.le_succ_of_le (spells.length_le isLast)) []
      exact ofForm_of_walked noName walked
        ((namesOf_eq_ok_iff List.nodup_nil).mpr ⟨names, rfl, same, distinct⟩)
  | @withRest items ending names rest isPair spells same identified distinct =>
      have noName : form.identifier? = none := by
        cases spells with
        | nothing => exact (isPair rfl).elim
        | pair _ _ => rfl
      have isLast (address : Nat) : ending ≠ .pair address := by
        rintro rfl
        cases identified
      have walked := Store.chainWithin_of_spells spells isLast
        (Nat.le_succ_of_le (spells.length_le isLast)) []
      have isNew : rest ∉ names := fun member =>
        List.disjoint_of_nodup_append distinct member List.mem_cons_self
      have named : namesOf store [] items = .ok names :=
        (namesOf_eq_ok_iff List.nodup_nil).mpr ⟨names, rfl, same, distinct.of_append_left⟩
      exact (ofForm_of_walked noName walked named).trans (endedBy_of_identifier identified isNew)

/-- Exactly identifiers, and chains of identifiers whose names all differ, describe parameters. -/
theorem ofForm_eq_ok_iff
    {formals : Formals} :
    ofForm store form = .ok formals ↔ Describes store form formals := by
  refine ⟨fun accepted => ?_, ofForm_eq_of_described⟩
  cases identified : form.identifier? with
  | some name =>
      rw [ofForm, identified] at accepted
      cases accepted
      exact .variadic identified
  | none =>
      obtain ⟨items, ending, spells, ⟨fault, _, refused⟩ | ⟨found, named, _, same⟩⟩ :=
        ofForm_cases store identified
      · cases refused.symm.trans accepted
      · obtain ⟨added, rfl, identifiers, distinct⟩ :=
          (namesOf_eq_ok_iff List.nodup_nil).mp named
        rcases endedBy_eq_ok (same.symm.trans accepted) with
          ⟨rfl, rfl⟩ | ⟨rest, restIdentified, isNew, rfl⟩
        · exact .fixed spells identifiers distinct
        · have isPair : items ≠ [] := by
            rintro rfl
            cases spells
            cases identified.symm.trans restIdentified
          exact .withRest isPair spells identifiers restIdentified
            (List.concat_eq_append ▸ distinct.concat isNew)

/-- On a ring of one pair its name comes a second time. -/
example :
    ofForm { Store.empty with pairs := #[⟨.symbol "again", .pair 0⟩] } (.pair 0) =
      .error (.evaluation (.duplicateFormal "again")) :=
  rfl

/-- The names of described parameters are different from one another. -/
theorem Describes.nodup
    {formals : Formals}
    (describes : Describes store form formals) :
    formals.allNames.Nodup := by
  cases describes with
  | variadic _ => exact List.nodup_singleton _
  | fixed _ _ distinct => simpa [allNames, names, rest?] using distinct
  | withRest _ _ _ _ distinct => exact distinct

end Formals

end SmallScheme
