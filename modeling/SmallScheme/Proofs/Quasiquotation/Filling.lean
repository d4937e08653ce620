import SmallScheme.Proofs.Quasiquotation.Meaning

namespace SmallScheme

/-!
# What comes of a template

The parts of a template that are unquoted are gaps.  They are filled from left to right, each once,
until one cannot be filled; between them nothing happens but that objects are made.  If all are
filled, the result is the template with its gaps filled and with everything else quoted.
-/

namespace Quasiquotation

/-! Gaps. -/

/-- A part of a template that is not quoted. -/
inductive Gap
  /-- To be filled with the value of the form. -/
  | value (form : Value)
  /-- To be filled with the items of the list that is the value of the form. -/
  | items (form : Value)
  /-- Items are asked for where only one value fits. -/
  | misplaced (part : Value)

namespace Template

def gapsOfItem (gaps : List Gap) : Template → List Gap
  | .spliced form _ => [.items form]
  | _ => gaps

mutual

/-- The gaps of a template from left to right. -/
def gaps : Template → List Gap
  | .constant _ => []
  | .identifier _ _ => []
  | .unquoted form _ => [.value form]
  | .spliced _ value => [.misplaced value]
  | .marked _ inner _ => gaps inner
  | .pair head tail _ => gapsOfItem (gaps head) head ++ gaps tail
  | .vector items _ => gapsOfAll items

def gapsOfAll : List Template → List Gap
  | [] => []
  | item :: rest => gapsOfItem (gaps item) item ++ gapsOfAll rest

end

end Template

/-- The later machine has more objects, and nothing else is different. -/
structure Makes (before after : Machine) : Prop where
  store : before.store.Grows after.store
  context : after.context = before.context
  depth : after.depth = before.depth

/-- A machine that does nothing has made only what it had. -/
theorem Makes.refl
    (machine : Machine) :
    Makes machine machine :=
  ⟨.refl _, rfl, rfl⟩

/-- What is made in two stretches is made. -/
theorem Makes.trans
    {before between after : Machine}
    (first : Makes before between)
    (second : Makes between after) :
    Makes before after :=
  ⟨first.store.trans second.store, second.context.trans first.context,
    second.depth.trans first.depth⟩

section Serving

variable
  (serve : Request → Run Value)
  (scope : Scope)

/-- What comes of a fault whose text has no end: no more than of waiting for that. -/
def unending (fault : Fault) (machine : Machine) : Option (Unwind × Machine) :=
  (serve .endless machine).map fun (result, later) =>
    match result with
    | .ok _ => (.fault fault, later)
    | .error reason => (reason, later)

/-- The gap is filled with the values, which leaves the later machine. -/
def Gap.IsFilled : Gap → Machine → List Value → Machine → Prop
  | .value form, machine, filling, later =>
      ∃ value, serve (.evaluate scope form) machine = some (.ok value, later) ∧ filling = [value]
  | .items form, machine, filling, later =>
      ∃ value,
        serve (.evaluate scope form) machine = some (.ok value, later) ∧
          later.store.listItems? value = some filling
  | .misplaced _, _, _, _ => False

/-- The gap cannot be filled, for the reason that is given or because its form has no outcome. -/
def Gap.Stops : Gap → Machine → Option (Unwind × Machine) → Prop
  | .value form, machine, stop =>
      serve (.evaluate scope form) machine = stop.map fun (reason, later) => (.error reason, later)
  | .items form, machine, stop =>
      serve (.evaluate scope form) machine =
          (stop.map fun (reason, later) => (.error reason, later)) ∨
        ∃ value later,
          serve (.evaluate scope form) machine = some (.ok value, later) ∧
            later.store.listItems? value = none ∧
            stop = some (.fault (.evaluation (.spliceList (later.store.shape value))), later)
  | .misplaced part, machine, stop =>
      match machine.store.written? part with
      | some text => stop = some (.fault (.evaluation (.splicePlace text)), machine)
      | none => stop = unending serve (.evaluation (.splicePlace "")) machine

/-- The gaps are filled one after the other, which leaves the last machine. -/
inductive AreFilled : List Gap → Machine → List (List Value) → Machine → Prop
  | nothing {machine last : Machine} : Makes machine last → AreFilled [] machine [] last
  | gap
      {gap : Gap}
      {rest : List Gap}
      {machine ready later last : Machine}
      {filling : List Value}
      {fillings : List (List Value)} :
      Makes machine ready →
      gap.IsFilled serve scope ready filling later →
      AreFilled rest later fillings last →
      AreFilled (gap :: rest) machine (filling :: fillings) last

/-- All gaps before one of them are filled, and this one cannot be. -/
def StopAt (gaps : List Gap) (machine : Machine) (stop : Option (Unwind × Machine)) : Prop :=
  ∃ before gap after fillings ready,
    gaps = before ++ gap :: after ∧ AreFilled serve scope before machine fillings ready ∧
      gap.Stops serve scope ready stop

end Serving

end Quasiquotation

/-! Filled templates. -/

namespace Store

open Quasiquotation (Template)

/-- The items that stand for an item of a list or vector. -/
def ItemIsFilled (isFilled : List (List Value) → Value → Prop) :
    Template → List (List Value) → List Value → Prop
  | .spliced _ _, fillings, items => fillings = [items]
  | _, fillings, items => ∃ item, isFilled fillings item ∧ items = [item]

mutual

/--
The value is the template with its gaps filled: marked forms are lists of a keyword and a datum,
identifiers are plain, and lists and vectors have what their items stand for.
-/
def IsFilled (store : Store) : Template → List (List Value) → Value → Prop
  | .constant own, fillings, value => fillings = [] ∧ value = own
  | .identifier name _, fillings, value => fillings = [] ∧ value = .symbol name
  | .unquoted _ _, fillings, value => fillings = [[value]]
  | .spliced _ _, _, _ => False
  | .marked mark inner _, fillings, value =>
      ∃ datum,
        IsFilled store inner fillings datum ∧
          store.Spells value [.symbol mark.keyword, datum] .nil
  | .pair head tail _, fillings, value =>
      ∃ first rest items ending,
        fillings = first ++ rest ∧ ItemIsFilled (IsFilled store head) head first items ∧
          IsFilled store tail rest ending ∧ store.Spells value items ending
  | .vector items _, fillings, value =>
      ∃ address values,
        value = .vector address ∧ store.vectors[address]? = some values.toArray ∧
          ItemsAreFilled store items fillings values

def ItemsAreFilled (store : Store) :
    List Template → List (List Value) → List Value → Prop
  | [], fillings, values => fillings = [] ∧ values = []
  | item :: rest, fillings, values =>
      ∃ first others items more,
        fillings = first ++ others ∧ values = items ++ more ∧
          ItemIsFilled (IsFilled store item) item first items ∧
          ItemsAreFilled store rest others more

end

end Store

/-! Scripts that fill gaps. -/

/-- The pairs and vectors that were added to a store are in the later one as they were made. -/
structure Store.HasAdded (before after later : Store) : Prop where
  pairs :
    ∀ address,
      before.pairs.size ≤ address →
      address < after.pairs.size →
      later.pairs[address]? = after.pairs[address]?
  vectors :
    ∀ address,
      before.vectors.size ≤ address →
      address < after.vectors.size →
      later.vectors[address]? = after.vectors[address]?

/--
Whatever the script asks for, when it is run from the machine, leaves a store with the property and
with all that the script has made so far, unless it unwinds.
-/
def Script.Spares
    {Answer : Type}
    (serve : Request → Run Value)
    (handOver : Step → Run Step)
    (kept : Store → Prop) : Script Answer → Machine → Prop
  | .done _, _ => True
  | .unwind _, _ => True
  | .viewing look next, machine => Spares serve handOver kept (next (look machine.store)) machine
  | .acting action next, ⟨store, context, depth⟩ =>
      Spares serve handOver (fun later => kept later ∧ store.HasAdded (action store).2 later)
        (next (action store).1) ⟨(action store).2, context, depth⟩
  | .switching change next, ⟨store, context, depth⟩ =>
      Spares serve handOver kept (next (change context).1) ⟨store, (change context).2, depth⟩
  | .asking request next, machine =>
      ∀ result later,
        serve request machine = some (result, later) →
        (result.isOk → kept later.store) ∧ Spares serve handOver kept (next result) later
  | .deferring step next, machine =>
      ∀ result later,
        handOver step machine = some (result, later) →
        (result.isOk → kept later.store) ∧ Spares serve handOver kept (next result) later

namespace Store.HasAdded

variable
  {before between after later : Store}

/-- What has been made is still there when more is made. -/
theorem grows
    (hasAdded : before.HasAdded after between)
    (grows : between.Grows later) :
    before.HasAdded after later where
  pairs address added inside := by
    have same := hasAdded.pairs address added inside
    rw [Array.getElem?_eq_getElem inside] at same ⊢
    exact grows.pairs same
  vectors address added inside := by
    have same := hasAdded.vectors address added inside
    rw [Array.getElem?_eq_getElem inside] at same ⊢
    exact grows.vectors same

/-- A list that was made is spelled as long as its pairs are as they were made. -/
theorem newListFrom_spells
    {reversed sofar : List Value}
    {tail ending : Value}
    (hasAdded : before.HasAdded (before.newListFrom reversed tail).2 later)
    (spells : later.Spells tail sofar ending) :
    later.Spells (before.newListFrom reversed tail).1 (reversed.reverse ++ sofar) ending := by
  induction reversed generalizing before tail sofar with
  | nil => exact spells
  | cons item reversed inductionHypothesis =>
      have grownAfter := (Store.newListFrom_spells reversed (before.newPair item tail).1
        (before.newPair item tail).2).1
      have isThere := grownAfter.pairs
        (show (before.newPair item tail).2.pairs[before.pairs.size]? = some ⟨item, tail⟩ from
          Array.getElem?_push_size)
      have inside := (Array.getElem?_eq_some_iff.mp isThere).1
      have added : later.pairs[before.pairs.size]? = some ⟨item, tail⟩ :=
        (hasAdded.pairs _ (Nat.le_refl _) inside).trans isThere
      have further :
          (before.newPair item tail).2.HasAdded (before.newListFrom (item :: reversed) tail).2
            later :=
        { pairs address after inside :=
            hasAdded.pairs address (Nat.le_trans (by simp [newPair]) after) inside
          vectors := hasAdded.vectors }
      rw [List.reverse_cons, List.append_assoc]
      exact inductionHypothesis further (.pair added spells)

/-- A list made from items and an ending is spelled by them, also when more has been added since. -/
theorem newListWithTail_spells
    {items : List Value}
    {ending : Value}
    (hasAdded : before.HasAdded (before.newListWithTail items ending).2 later) :
    later.Spells (before.newListWithTail items ending).1 items ending := by
  have spells := newListFrom_spells hasAdded (@Spells.nothing later ending)
  rwa [List.reverse_reverse, List.append_nil] at spells

/-- A new vector holds its items, also when more has been added since. -/
theorem newVector_holds
    {items : Array Value}
    (hasAdded : before.HasAdded (before.newVector items).2 later) :
    later.vectors[before.vectors.size]? = some items := by
  rw [hasAdded.vectors _ (Nat.le_refl _) (by simp [newVector])]
  exact Array.getElem?_push_size

end Store.HasAdded

namespace Quasiquotation

variable
  {serve : Request → Run Value}
  {handOver : Step → Run Step}
  {scope : Scope}

/-- Gaps filled after something was made are filled from before it was made. -/
theorem AreFilled.after
    {before machine last : Machine}
    {gaps : List Gap}
    {fillings : List (List Value)}
    (makes : Makes before machine)
    (areFilled : AreFilled serve scope gaps machine fillings last) :
    AreFilled serve scope gaps before fillings last := by
  cases areFilled with
  | nothing more => exact .nothing (makes.trans more)
  | gap more isFilled rest => exact .gap (makes.trans more) isFilled rest

/-- Gaps filled one list after the other are filled together. -/
theorem AreFilled.append
    {machine between last : Machine}
    {gaps others : List Gap}
    {fillings more : List (List Value)}
    (first : AreFilled serve scope gaps machine fillings between)
    (second : AreFilled serve scope others between more last) :
    AreFilled serve scope (gaps ++ others) machine (fillings ++ more) last := by
  induction first with
  | nothing makes => exact second.after makes
  | gap makes isFilled _ inductionHypothesis =>
      exact .gap makes isFilled (inductionHypothesis second)

/-- A later gap stops after those before it have been filled. -/
theorem StopAt.after
    {machine between : Machine}
    {gaps others : List Gap}
    {fillings : List (List Value)}
    {stop : Option (Unwind × Machine)}
    (first : AreFilled serve scope gaps machine fillings between)
    (stopAt : StopAt serve scope others between stop) :
    StopAt serve scope (gaps ++ others) machine stop := by
  obtain ⟨before, gap, after, more, ready, rfl, areFilled, stops⟩ := stopAt
  exact ⟨gaps ++ before, gap, after, fillings ++ more, ready, (List.append_assoc _ _ _).symm,
    first.append areFilled, stops⟩

/-- Where the first gaps stop, further gaps are not reached. -/
theorem StopAt.before
    {machine : Machine}
    {gaps others : List Gap}
    {stop : Option (Unwind × Machine)}
    (stopAt : StopAt serve scope gaps machine stop) :
    StopAt serve scope (gaps ++ others) machine stop := by
  obtain ⟨before, gap, after, fillings, ready, rfl, areFilled, stops⟩ := stopAt
  exact ⟨before, gap, after ++ others, fillings, ready, List.append_assoc _ _ _, areFilled, stops⟩

/-- How a run goes that is stopped. -/
def stopped {Answer : Type} (stop : Option (Unwind × Machine)) :
    Option (Except Unwind Answer × Machine) :=
  stop.map fun (reason, later) => (.error reason, later)

/-- The property of stores is not lost when objects are made. -/
def IsStable (kept : Store → Prop) : Prop :=
  ∀ ⦃before after : Store⦄, kept before → before.Grows after → kept after

/--
What has come of a script that left the last machine holds as long as what follows spares what the
script has made.
-/
def Lasts
    {Found : Type}
    (serve : Request → Run Value)
    (handOver : Step → Run Step)
    (script : Script Found)
    (machine : Machine)
    (found : Found)
    (last : Machine)
    (holds : Store → Prop) : Prop :=
  ∀ ⦃Answer : Type⦄ (next : Found → Script Answer) ⦃kept : Store → Prop⦄,
    IsStable kept →
    kept machine.store →
    (script.bind next).Spares serve handOver kept machine →
    ∃ still,
      IsStable still ∧ still last.store ∧ (next found).Spares serve handOver still last ∧
        ∀ store, still store → kept store ∧ holds store

/-- The script fills the gaps, and what has come of it lasts, or it stops at one of the gaps. -/
def Fills
    {Found : Type}
    (serve : Request → Run Value)
    (handOver : Step → Run Step)
    (scope : Scope)
    (gaps : List Gap)
    (isResult : Store → List (List Value) → Found → Prop)
    (script : Script Found) : Prop :=
  ∀ ⦃machine : Machine⦄,
    (∃ found last fillings,
      script.run serve handOver machine = some (.ok found, last) ∧
        AreFilled serve scope gaps machine fillings last ∧
        Lasts serve handOver script machine found last fun store =>
          isResult store fillings found) ∨
      ∃ stop,
        script.run serve handOver machine = stopped stop ∧ StopAt serve scope gaps machine stop

section Splicing

variable
  {Answer : Type}
  {value : Value}
  {machine : Machine}
  {items : List Value}

/-- A value that is a list is spliced as its items. -/
theorem run_splice
    (isList : machine.store.listItems? value = some items) :
    (splice value).run serve handOver machine = some (.ok items, machine) := by
  simp only [splice, Script.view, bind, Script.bind, Script.run, isList]
  rfl

/-- A value that is no list is refused as a splice, with its shape in the fault. -/
theorem run_splice_error
    (isNoList : machine.store.listItems? value = none) :
    (splice value).run serve handOver machine =
      some (.error (.fault (.evaluation (.spliceList (machine.store.shape value)))), machine) := by
  simp only [splice, Script.view, bind, Script.bind, Script.run, isNoList]
  rfl

/-- A host that spares what a splice is part of spares what follows the splice. -/
theorem spares_of_splice
    {kept : Store → Prop}
    {next : List Value → Script Answer}
    (isList : machine.store.listItems? value = some items)
    (spares : ((splice value).bind next).Spares serve handOver kept machine) :
    (next items).Spares serve handOver kept machine := by
  simp only [splice, Script.view, bind, Script.bind, Script.Spares, isList] at spares
  exact spares

end Splicing

namespace Fills

variable
  {First Second : Type}
  {gaps others : List Gap}
  {isResult : Store → List (List Value) → First → Prop}

/-- A script that fills with one result fills with what that result implies. -/
theorem mono
    {isOther : Store → List (List Value) → First → Prop}
    {script : Script First}
    (fills : Fills serve handOver scope gaps isResult script)
    (implies :
      ∀ store fillings found, isResult store fillings found → isOther store fillings found) :
    Fills serve handOver scope gaps isOther script := by
  intro machine
  obtain ⟨found, last, fillings, ran, areFilled, lasts⟩ | stops := @fills machine
  · refine .inl ⟨found, last, fillings, ran, areFilled, ?_⟩
    intro Answer next kept stable isKept spares
    obtain ⟨still, stableStill, isStill, further, holds⟩ := lasts next stable isKept spares
    refine ⟨still, stableStill, isStill, further, fun store isStill => ?_⟩
    exact ⟨(holds store isStill).1, implies _ _ _ (holds store isStill).2⟩
  · exact .inr stops

/-- Gaps are filled by one script after the other. -/
theorem bind
    {isSecond : First → Store → List (List Value) → Second → Prop}
    {script : Script First}
    {next : First → Script Second}
    (fills : Fills serve handOver scope gaps isResult script)
    (fillOthers : ∀ found, Fills serve handOver scope others (isSecond found) (next found)) :
    Fills serve handOver scope (gaps ++ others)
      (fun store fillings result =>
        ∃ found first rest,
          fillings = first ++ rest ∧ isResult store first found ∧
            isSecond found store rest result)
      (script.bind next) := by
  intro machine
  obtain ⟨found, between, first, ran, areFilled, lasts⟩ | ⟨stop, ran, stopAt⟩ := @fills machine
  · rw [Script.run_bind ran]
    obtain ⟨result, last, rest, ranNext, othersAreFilled, lastsNext⟩ | ⟨stop, ranNext, stopAt⟩ :=
      @fillOthers found between
    · refine .inl ⟨result, last, first ++ rest, ranNext, areFilled.append othersAreFilled,
        fun Answer further kept stable isKept spares => ?_⟩
      rw [Script.bind_assoc] at spares
      obtain ⟨still, stableStill, isStill, sparesNext, holds⟩ := lasts _ stable isKept spares
      obtain ⟨more, stableMore, isMore, sparesRest, holdsMore⟩ :=
        lastsNext further stableStill isStill sparesNext
      refine ⟨more, stableMore, isMore, sparesRest, fun store isMore => ?_⟩
      obtain ⟨isStill, isSecond⟩ := holdsMore store isMore
      obtain ⟨isKept, isFirst⟩ := holds store isStill
      exact ⟨isKept, found, first, rest, rfl, isFirst, isSecond⟩
    · exact .inr ⟨stop, ranNext, stopAt.after areFilled⟩
  · refine .inr ⟨stop, ?_, stopAt.before⟩
    cases stop with
    | none => exact Script.run_bind_none ran next
    | some stop => exact Script.run_bind_error ran next

/-- What is known needs no gaps. -/
theorem done
    (found : First) :
    Fills serve handOver scope []
      (fun _ fillings result => fillings = [] ∧ result = found)
      (.done found) := by
  intro machine
  refine .inl ⟨found, machine, [], rfl, .nothing (.refl _), ?_⟩
  exact fun Answer next kept stable isKept spares =>
    ⟨kept, stable, isKept, spares, fun store isKept => ⟨isKept, rfl, rfl⟩⟩

/-- An object that is made stays as it is. -/
theorem make
    {make : Store → First × Store}
    (grows : ∀ store : Store, store.Grows (make store).2)
    {holds : Store → First → Prop}
    (hasAdded :
      ∀ before later : Store,
        before.HasAdded (make before).2 later → holds later (make before).1) :
    Fills serve handOver scope [] (fun store fillings found => fillings = [] ∧ holds store found)
      (Script.perform (StoreM.change make)) := by
  intro machine
  obtain ⟨store, context, depth⟩ := machine
  refine .inl ⟨(make store).1, ⟨(make store).2, context, depth⟩, [], rfl,
    .nothing ⟨grows store, rfl, rfl⟩, fun Answer next kept stable isKept spares => ?_⟩
  refine ⟨_, ?_, ⟨stable isKept (grows store), ?_⟩, spares, ?_⟩
  · exact fun before after both grows => ⟨stable both.1 grows, both.2.grows grows⟩
  · exact fun later both => ⟨both.1, rfl, hasAdded store later both.2⟩
  · exact ⟨fun _ _ _ => rfl, fun _ _ _ => rfl⟩

/-- An evaluation fills the gap of its form with the value. -/
theorem evaluate
    (form : Value) :
    Fills serve handOver scope [.value form] (fun _ fillings value => fillings = [[value]])
      (Script.evaluate scope form) := by
  intro machine
  rw [Script.run_evaluate]
  cases served : serve (.evaluate scope form) machine with
  | none => exact .inr ⟨none, rfl, [], _, [], [], machine, rfl, .nothing (.refl _), served⟩
  | some outcome =>
      obtain ⟨reason | value, later⟩ := outcome
      · exact .inr
          ⟨some (reason, later), rfl, [], _, [], [], machine, rfl, .nothing (.refl _), served⟩
      · refine .inl ⟨value, later, [[value]], rfl,
          .gap (.refl _) ⟨value, served, rfl⟩ (.nothing (.refl _)), ?_⟩
        intro Answer next kept stable isKept spares
        obtain ⟨isKept, further⟩ := spares _ _ served
        exact ⟨kept, stable, isKept rfl, further, fun store isKept => ⟨isKept, rfl⟩⟩

/-- A splice fills the gap of its form with the items of the value. -/
theorem splice
    (form : Value) :
    Fills serve handOver scope [.items form] (fun _ fillings items => fillings = [items])
      ((Script.evaluate scope form).bind Quasiquotation.splice) := by
  intro machine
  cases served : serve (.evaluate scope form) machine with
  | none =>
      refine .inr ⟨none, Script.run_bind_none ?_ _, [], _, [], [], machine, rfl,
        .nothing (.refl _), ?_⟩
      · rw [Script.run_evaluate, served]
      · exact .inl served
  | some outcome =>
      obtain ⟨reason | value, later⟩ := outcome
      · refine .inr ⟨some (reason, later), Script.run_bind_error ?_ _, [], _, [], [], machine, rfl,
          .nothing (.refl _), ?_⟩
        · rw [Script.run_evaluate, served]
        · exact .inl served
      · rw [Script.run_bind (by rw [Script.run_evaluate, served])]
        cases isList : later.store.listItems? value with
        | none =>
            refine .inr ⟨some (_, later), run_splice_error isList, [], _, [], [], machine, rfl,
              .nothing (.refl _), ?_⟩
            exact .inr ⟨value, later, served, isList, rfl⟩
        | some items =>
            refine .inl ⟨items, later, [items], run_splice isList,
              .gap (.refl _) ⟨value, served, isList⟩ (.nothing (.refl _)), ?_⟩
            intro Answer next kept stable isKept spares
            rw [Script.bind_assoc] at spares
            obtain ⟨isKept, further⟩ := spares _ _ served
            exact ⟨kept, stable, isKept rfl, spares_of_splice isList further,
              fun store isKept => ⟨isKept, rfl⟩⟩

/-- A misplaced part stops the filling, and its text is told. -/
theorem misplaced
    (part : Value)
    {isResult : Store → List (List Value) → First → Prop} :
    Fills serve handOver scope [.misplaced part] isResult
      (Script.failTelling part fun text => .evaluation (.splicePlace text)) := by
  intro machine
  cases written : machine.store.written? part with
  | some text =>
      refine .inr ⟨some (_, machine), Script.run_failTelling written _, [], _, [], [], machine, rfl,
        .nothing (.refl _), ?_⟩
      simp only [Gap.Stops, written]
  | none =>
      refine .inr ⟨unending serve (.evaluation (.splicePlace "")) machine, ?_, [], _, [], [],
        machine, rfl, .nothing (.refl _), ?_⟩
      · rw [Script.run_failTelling_endless written]
        rcases served : serve .endless machine with _ | ⟨_ | _, _⟩ <;>
          simp only [unending, stopped, served] <;> rfl
      · simp only [Gap.Stops, written]

end Fills

/-! Templates. -/

/-- Making a list fills no gap. -/
theorem fills_newListWithTail
    (items : List Value)
    (ending : Value) :
    Fills serve handOver scope []
      (fun store fillings value => fillings = [] ∧ store.Spells value items ending)
      (Script.perform (StoreM.change (Store.newListWithTail items ending))) :=
  .make (fun store => (Store.newListWithTail_spells items ending store).1)
    fun _ _ => Store.HasAdded.newListWithTail_spells

/-- Making a vector fills no gap. -/
theorem fills_newVector
    (items : Array Value) :
    Fills serve handOver scope []
      (fun store fillings value =>
        fillings = [] ∧
          ∃ address, value = Value.vector address ∧ store.vectors[address]? = some items)
      (Script.perform (StoreM.change (Store.newVector items))) :=
  .make (fun store => Store.grows_newVector items store)
    fun _ _ hasAdded => ⟨_, rfl, hasAdded.newVector_holds⟩

/-- A template that is an item of a list fills its gaps as one item, a splice as several. -/
theorem Fills.item
    {template : Template}
    (fills :
      Fills serve handOver scope template.gaps (fun store => store.IsFilled template)
        (template.meaning scope)) :
    Fills serve handOver scope (template.gapsOfItem template.gaps)
      (fun store => Store.ItemIsFilled (store.IsFilled template) template)
      (template.itemMeaning scope (template.meaning scope)) := by
  by_cases isSpliced : ∃ form value, template = .spliced form value
  · obtain ⟨form, value, rfl⟩ := isSpliced
    exact .splice form
  · have single := fills.bind fun value => Fills.done [value]
    rw [List.append_nil] at single
    cases template with
    | «spliced» form value => exact (isSpliced ⟨form, value, rfl⟩).elim
    | _ =>
        refine single.mono fun store fillings items => ?_
        rintro ⟨value, first, rest, rfl, isFilled, rfl, rfl⟩
        rw [List.append_nil]
        exact ⟨value, isFilled, rfl⟩

mutual

/-- What a template stands for is the template with its gaps filled. -/
theorem fills_meaning
    (template : Template) :
    Fills serve handOver scope template.gaps (fun store => store.IsFilled template)
      (template.meaning scope) := by
  match template with
  | .constant value => exact .done value
  | .identifier name value => exact .done (Value.symbol name)
  | .unquoted form value => exact .evaluate form
  | .spliced form value => exact .misplaced value
  | .marked mark inner value =>
      have fills := (fills_meaning inner).bind fun datum =>
        fills_newListWithTail [.symbol mark.keyword, datum] .nil
      rw [List.append_nil] at fills
      refine fills.mono fun store fillings result => ?_
      rintro ⟨datum, first, rest, rfl, isFilled, rfl, spells⟩
      rw [List.append_nil]
      exact ⟨datum, isFilled, spells⟩
  | .pair head tail value =>
      have fills := (fills_meaning head).item.bind fun items =>
        (fills_meaning tail).bind fun ending => fills_newListWithTail items ending
      rw [List.append_nil] at fills
      refine fills.mono fun store fillings result => ?_
      rintro ⟨items, first, _, rfl, headIsFilled, ending, rest, _, rfl, tailIsFilled, rfl, spells⟩
      rw [List.append_nil]
      exact ⟨first, rest, items, ending, rfl, headIsFilled, tailIsFilled, spells⟩
  | .vector items value =>
      have fills := (fills_meaningOfItems items).bind fun values => fills_newVector values.toArray
      rw [List.append_nil] at fills
      refine fills.mono fun store fillings result => ?_
      rintro ⟨values, first, _, rfl, areFilled, rfl, address, rfl, found⟩
      rw [List.append_nil]
      exact ⟨address, values, rfl, found, areFilled⟩

/-- The items of a list or a vector fill their gaps from left to right. -/
theorem fills_meaningOfItems
    (items : List Template) :
    Fills serve handOver scope (Template.gapsOfAll items) (fun store => store.ItemsAreFilled items)
      (Template.meaningOfItems scope items) := by
  match items with
  | [] => exact .done []
  | item :: rest =>
      have fills := (fills_meaning item).item.bind fun first =>
        (fills_meaningOfItems rest).bind fun others => Fills.done (first ++ others)
      rw [List.append_nil] at fills
      refine fills.mono fun store fillings result => ?_
      rintro ⟨first, before, _, rfl, isFilled, others, after, _, rfl, areFilled, rfl, rfl⟩
      rw [List.append_nil]
      exact ⟨before, after, first, others, rfl, rfl, isFilled, areFilled⟩

end

end Quasiquotation

end SmallScheme
