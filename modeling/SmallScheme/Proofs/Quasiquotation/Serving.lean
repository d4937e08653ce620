import SmallScheme.Proofs.Quasiquotation.Filling
import SmallScheme.Proofs.Realm.Run
import SmallScheme.Proofs.Realm.Widening

namespace SmallScheme

/-!
# What is made around the gaps of a template

Around the gaps of a template nothing happens but that pairs and vectors are made.  Until the last
gap has been filled nobody else can reach them, so that they are set apart: whatever is evaluated
for the gaps that are left, the machine leaves them as they were made.
-/

variable
  {realm : Realm}
  {size : Sizes}
  {apart : Apart}
  {origin before after : Store}
  {host : Host}
  {limit fuel : Nat}
  {handOver : Step → Run Step}
  {machine : Machine}

/-- The store has all that is set apart, as it was set apart. -/
structure Store.HasApart (store : Store) (apart : Apart) : Prop where
  pairs :
    ∀ {address : Nat} {pair : Pair},
      apart.pairs address = some pair → store.pairs[address]? = some pair
  vectors :
    ∀ {address : Nat} {items : Array Value},
      apart.vectors address = some items → store.vectors[address]? = some items

namespace Store.HasApart

variable {store : Store}

/-- What stands apart in a wider world did so in the narrower one. -/
theorem of_widens
    {further : Apart}
    (widens : Widens size apart further)
    (hasApart : store.HasApart further) :
    store.HasApart apart :=
  ⟨fun isApart => hasApart.pairs (widens.keeps isApart),
    fun isApart => hasApart.vectors (widens.keepsVectors isApart)⟩

/-- What was set apart when it was added is as it was made. -/
theorem hasAdded
    (hasApart : store.HasApart (apart.adding before after)) :
    before.HasAdded after store where
  pairs address added inside := by
    refine (hasApart.pairs ?_).trans (Array.getElem?_eq_getElem inside).symm
    exact (if_neg (Nat.not_lt.mpr added)).trans (Array.getElem?_eq_getElem inside)
  vectors address added inside := by
    refine (hasApart.vectors ?_).trans (Array.getElem?_eq_getElem inside).symm
    exact (if_neg (Nat.not_lt.mpr added)).trans (Array.getElem?_eq_getElem inside)

end Store.HasApart

/-! Scripts that only make pairs and vectors. -/

namespace Script

variable {First Answer : Type}

/-- The script makes pairs and vectors, and what it asks for belonged to the realm before. -/
inductive Builds
    {Answer : Type}
    (realm : Realm)
    (size : Sizes) : Script Answer → Prop
  | done (answer : Answer) : Builds realm size (.done answer)
  | unwind (reason : Unwind) : Builds realm size (.unwind reason)
  | viewing {Result : Type} {look : Store → Result} {next : Result → Script Answer} :
      (∀ result, Builds realm size (next result)) →
      Builds realm size (.viewing look next)
  | acting
      {Result : Type}
      {action : StoreM Result}
      {next : Except Fault Result → Script Answer} :
      (∀ store : Store, store.Pushes (action store).2) →
      (∀ result, Builds realm size (next result)) →
      Builds realm size (.acting action next)
  | asking {request : Request} {next : Except Unwind Value → Script Answer} :
      request.Belongs realm size →
      (∀ result, Builds realm size (next result)) →
      Builds realm size (.asking request next)

/-- A script that builds, and goes on with one that builds, builds. -/
theorem Builds.bind
    {first : Script First}
    {rest : First → Script Answer}
    (builds : Builds realm size first)
    (continues : ∀ answer, Builds realm size (rest answer)) :
    Builds realm size (first.bind rest) := by
  induction builds with
  | done answer => exact continues answer
  | unwind reason => exact .unwind reason
  | viewing _ inductionHypothesis => exact .viewing inductionHypothesis
  | acting pushes _ inductionHypothesis => exact .acting pushes inductionHypothesis
  | asking belongs _ inductionHypothesis => exact .asking belongs inductionHypothesis

/-- A result at hand builds nothing. -/
theorem builds_ofResult
    (result : Except Unwind Answer) :
    Builds realm size (ofResult result) := by
  cases result with
  | ok answer => exact .done answer
  | error reason => exact .unwind reason

/-- An evaluation builds where its form belongs to the realm. -/
theorem builds_evaluate
    {scope : Scope}
    {form : Value}
    (belongs : form.Belongs realm size) :
    Builds realm size (evaluate scope form) :=
  .asking belongs builds_ofResult

/-- Waiting builds nothing. -/
theorem builds_wait :
    Builds realm size wait :=
  .asking trivial builds_ofResult

/-- A fault builds nothing. -/
theorem builds_report
    (fault : Fault) :
    Builds realm size (report fault : Script Answer) := by
  unfold report
  split
  · exact builds_wait.bind fun _ => .unwind _
  · exact .unwind _

/-- A failure that tells a value builds nothing. -/
theorem builds_failTelling
    (value : Value)
    (fault : String → Fault) :
    Builds realm size (failTelling value fault : Script Answer) := by
  have writing : Builds realm size (writing value) := by
    refine Builds.bind (.viewing fun text => .done text) fun text => ?_
    cases text with
    | some text => exact .done text
    | none => exact builds_wait.bind fun _ => .done ""
  exact writing.bind fun text => .unwind _

/-- A change of the store builds where it only pushes objects to the ends of the tables. -/
theorem builds_change
    {make : Store → Answer × Store}
    (pushes : ∀ store : Store, store.Pushes (make store).2) :
    Builds realm size (perform (StoreM.change make)) := by
  refine .acting pushes fun result => ?_
  cases result with
  | ok answer => exact .done answer
  | error fault => exact builds_report fault

/-- Whatever the machine serves for the script, it leaves as it was what the script has made. -/
theorem Builds.spares
    {script : Script Answer}
    (hostStays : ∀ realm : Realm, ¬realm.steady → host.Stays realm)
    (builds : Builds (.present origin) size script)
    (within : machine.Within (.around apart origin))
    (widens : Widens size .nothing apart)
    (grown : size ≤ machine.store.sizes)
    {kept : Store → Prop}
    (lasts : ∀ store : Store, store.HasApart apart → kept store) :
    script.Spares (Machine.serve host limit fuel) handOver kept machine := by
  induction builds generalizing machine apart kept with
  | done answer => trivial
  | unwind reason => trivial
  | viewing _ inductionHypothesis => exact inductionHypothesis _ within widens grown lasts
  | @acting _ action _ pushes _ inductionHypothesis =>
      obtain ⟨store, context, depth⟩ := machine
      have pushed := pushes store
      have further := pushed.widens within.store
      have withinAfter :
          Machine.Within (.around (apart.adding store (action store).2) origin)
            ⟨(action store).2, context, depth⟩ :=
        ⟨pushed.holds within.store, fun handler member =>
          (within.context handler member).carry further pushed.grown⟩
      refine inductionHypothesis _ withinAfter (widens.trans further grown)
        (le_trans grown pushed.grown) fun later hasApart => ?_
      exact ⟨lasts later (hasApart.of_widens further), hasApart.hasAdded⟩
  | @asking request _ belongs _ inductionHypothesis =>
      intro result later served
      have begins : Moment.Within (.around apart origin) ⟨.serving request, [], machine⟩ :=
        ⟨within, (belongs.widen widens).mono grown, nofun⟩
      obtain ⟨withinLater, follows⟩ :=
        (Machine.reaches_of_serve served []).within (hostStays _ id) id begins
      refine ⟨fun _ => lasts _ ⟨withinLater.machine.store.apart,
        withinLater.machine.store.apartVectors⟩, ?_⟩
      exact inductionHypothesis _ withinLater.machine widens (le_trans grown follows.grown) lasts

end Script

/-! Templates. -/

namespace Quasiquotation

/-- The form of the gap belonged to the realm before the template is filled. -/
def Gap.Belongs (realm : Realm) (size : Sizes) : Gap → Prop
  | .value form => form.Belongs realm size
  | .items form => form.Belongs realm size
  | .misplaced _ => True

variable {scope : Scope}

/-- To read the items of a splice builds nothing. -/
theorem builds_splice
    (value : Value) :
    (splice value).Builds realm size := by
  refine .viewing fun isList => ?_
  cases isList with
  | none => exact .viewing fun fault => .unwind _
  | some items => exact .done items

/-- An item of a list or a vector builds where its gaps belong to the realm. -/
theorem builds_item
    {template : Template}
    {meaning : Script Value}
    (builds : (∀ gap ∈ template.gaps, gap.Belongs realm size) → meaning.Builds realm size)
    (belong : ∀ gap ∈ template.gapsOfItem template.gaps, gap.Belongs realm size) :
    (template.itemMeaning scope meaning).Builds realm size := by
  cases template with
  | «spliced» form value =>
      exact (Script.builds_evaluate (belong _ List.mem_cons_self)).bind builds_splice
  | _ => exact (builds belong).bind fun value => .done [value]

mutual

/-- A template asks for nothing but what its gaps are filled with. -/
theorem builds_meaning
    (template : Template)
    (belong : ∀ gap ∈ template.gaps, gap.Belongs realm size) :
    (template.meaning scope).Builds realm size := by
  match template with
  | .constant value => exact .done value
  | .identifier name value => exact .done (Value.symbol name)
  | .unquoted form value => exact Script.builds_evaluate (belong _ List.mem_cons_self)
  | .spliced form value => exact Script.builds_failTelling value _
  | .marked mark inner value =>
      exact (builds_meaning inner belong).bind fun datum =>
        Script.builds_change (Store.Pushes.newListFrom _ _)
  | .pair head tail value =>
      obtain ⟨headBelong, tailBelong⟩ := List.forall_mem_append.mp belong
      have items := @builds_item realm size scope _ _ (builds_meaning head) headBelong
      exact items.bind fun items =>
        (builds_meaning tail tailBelong).bind fun ending =>
          Script.builds_change (Store.Pushes.newListFrom _ _)
  | .vector items value =>
      exact (builds_meaningOfItems items belong).bind fun values =>
        Script.builds_change (Store.Pushes.newVector _)

/-- The items of a list or a vector build where their gaps belong to the realm. -/
theorem builds_meaningOfItems
    (templates : List Template)
    (belong : ∀ gap ∈ Template.gapsOfAll templates, gap.Belongs realm size) :
    (Template.meaningOfItems scope templates).Builds realm size := by
  match templates with
  | [] => exact .done []
  | template :: rest =>
      obtain ⟨firstBelong, restBelong⟩ := List.forall_mem_append.mp belong
      have first := @builds_item realm size scope _ _ (builds_meaning template) firstBelong
      exact first.bind fun items =>
        (builds_meaningOfItems rest restBelong).bind fun others => .done (items ++ others)

end

/-! Gaps of templates that are read in the store. -/

section Gaps

variable {store : Store}

/-- What is marked in a store belongs to all that there is. -/
theorem belongs_of_hasMark
    {value inner : Value}
    {mark : Mark}
    (holds : store.Holds (.present origin) size)
    (hasMark : store.HasMark value mark inner) :
    inner.Belongs (.present origin) size := by
  cases hasMark with
  | abbreviated found => exact holds.marked inner (Array.mem_of_getElem? found)
  | spelled _ _ found => exact (holds.pairs found rfl).1

/-- The gaps of an item belong to what its form belongs to. -/
theorem gapsOfItem_belong
    {template : Template}
    {level : Nat}
    (holds : store.Holds (.present origin) size)
    (reads : store.Reads level template)
    (belong : ∀ gap ∈ template.gaps, gap.Belongs (.present origin) size) :
    ∀ gap ∈ template.gapsOfItem template.gaps, gap.Belongs (.present origin) size := by
  cases template with
  | «spliced» form value =>
      exact List.forall_mem_singleton.mpr (belongs_of_hasMark holds reads.2)
  | _ => exact belong

mutual

/-- The gaps of a template belong to what the form it was read from belongs to. -/
theorem gaps_belong
    (holds : store.Holds (.present origin) size)
    (template : Template)
    {level : Nat}
    (reads : store.Reads level template) :
    ∀ gap ∈ template.gaps, gap.Belongs (.present origin) size := by
  match template with
  | .constant value => nofun
  | .identifier name value => nofun
  | .unquoted form value => exact List.forall_mem_singleton.mpr (belongs_of_hasMark holds reads.2)
  | .spliced form value => exact List.forall_mem_singleton.mpr trivial
  | .marked mark inner value => exact gaps_belong holds inner reads.2.2
  | .pair head tail value =>
      obtain ⟨_, _, readsHead, readsTail⟩ := reads
      exact List.forall_mem_append.mpr
        ⟨gapsOfItem_belong holds readsHead (gaps_belong holds head readsHead),
          gaps_belong holds tail readsTail⟩
  | .vector items value =>
      obtain ⟨_, _, _, readItems⟩ := reads
      exact gapsOfAll_belong holds items readItems

/-- The gaps of the items belong to what their forms belong to. -/
theorem gapsOfAll_belong
    (holds : store.Holds (.present origin) size)
    (templates : List Template)
    {level : Nat}
    (readAll : store.ReadAll level templates) :
    ∀ gap ∈ Template.gapsOfAll templates, gap.Belongs (.present origin) size := by
  match templates with
  | [] => nofun
  | template :: rest =>
      exact List.forall_mem_append.mpr
        ⟨gapsOfItem_belong holds readAll.1 (gaps_belong holds template readAll.1),
          gapsOfAll_belong holds rest readAll.2⟩

end

end Gaps

/-- The machine leaves alone what is made around the gaps of a template that is read in its
store. -/
theorem spares_meaning
    {template : Template}
    {level : Nat}
    (hostStays : ∀ realm : Realm, ¬realm.steady → host.Stays realm)
    (grounded : machine.IsGrounded)
    (reads : machine.store.Reads level template) :
    (template.meaning scope).Spares (Machine.serve host limit fuel) handOver (fun _ => True)
      machine :=
  (builds_meaning template (gaps_belong grounded.store template reads)).spares hostStays grounded
    .refl (le_refl _) fun _ _ => trivial

end Quasiquotation

end SmallScheme
