import SmallScheme.Proofs.Moment.Life
import SmallScheme.Proofs.Realm.Code
import SmallScheme.Session.Basic

namespace SmallScheme

/-!
# Setting objects apart

Fresh pairs and vectors may be set apart when they are made, for nothing else can hold them.  What
belonged to the realm before goes on belonging to the realm that is left.  The machine of a session
holds no pairs and no vectors but those that there are, so that none is held before it is made.
-/

/-- The realm of all pairs and vectors but those set apart; the frames keep their names. -/
def Realm.around (apart : Apart) (origin : Store) : Realm where
  apart := apart
  owns size address := address < size.pairs ∧ apart.pairs address = none
  ownsVector size address := address < size.vectors ∧ apart.vectors address = none
  steady := False
  binds frame name := ((origin.frameAt frame).find? name).isSome
  owns_next free := ⟨Nat.lt_succ_self _, free⟩
  owns_mono owned grown := ⟨Nat.lt_of_lt_of_le owned.1 grown.1, owned.2⟩
  not_apart owned := owned.2
  ownsVector_next free := ⟨Nat.lt_succ_self _, free⟩
  ownsVector_mono owned grown := ⟨Nat.lt_of_lt_of_le owned.1 grown.2, owned.2⟩
  vector_not_apart owned := owned.2

/-- The realm of all pairs and vectors that there are. -/
abbrev Realm.present (store : Store) : Realm :=
  .around .nothing store

/--
The machine holds no pairs and no vectors but those that there are.  So does every machine of a
session, as `Session.isGrounded_of_texts` says.
-/
def Machine.IsGrounded (machine : Machine) : Prop :=
  machine.Within (.present machine.store)

/-- Of the origin only the frames matter. -/
theorem Realm.around_congr
    {origin other : Store}
    (frames : origin.frames = other.frames)
    (apart : Apart) :
    around apart origin = around apart other := by
  unfold around Store.frameAt
  rw [frames]

/-- The second table sets apart what the first one does, and otherwise later objects only. -/
structure Widens (size : Sizes) (first second : Apart) : Prop where
  keeps :
    ∀ {address : Nat} {pair : Pair},
      first.pairs address = some pair → second.pairs address = some pair
  fresh :
    ∀ {address : Nat},
      address < size.pairs → first.pairs address = none → second.pairs address = none
  keepsVectors :
    ∀ {address : Nat} {items : Array Value},
      first.vectors address = some items → second.vectors address = some items
  freshVectors :
    ∀ {address : Nat},
      address < size.vectors → first.vectors address = none → second.vectors address = none

/-- What a table knows of a store, and all objects that have been added to the store. -/
def tableWith
    {Object : Type}
    (table : Nat → Option Object)
    (before after : Array Object)
    (address : Nat) : Option Object :=
  if address < before.size then table address else after[address]?

/-- All pairs and vectors that have been added are set apart, too. -/
def Apart.adding (apart : Apart) (before after : Store) : Apart where
  pairs := tableWith apart.pairs before.pairs after.pairs
  vectors := tableWith apart.vectors before.vectors after.vectors

section Tables

variable
  {Object : Type}
  {table : Nat → Option Object}
  {before added : Array Object}
  {address : Nat}
  {object : Object}

/-- What the table with more objects knows is there, if what the first one knows is. -/
theorem getElem?_of_tableWith
    (known : table address = some object → before[address]? = some object)
    (isApart : tableWith table before (before ++ added) address = some object) :
    (before ++ added)[address]? = some object := by
  unfold tableWith at isApart
  split at isApart
  case isTrue inside => rw [Array.getElem?_append_left inside, known isApart]
  case isFalse outside => exact isApart

/-- What the table with more objects does not know the first one does not know. -/
theorem getElem?_of_tableWith_eq_none
    (found : (before ++ added)[address]? = some object)
    (free : tableWith table before (before ++ added) address = none) :
    before[address]? = some object ∧ table address = none := by
  unfold tableWith at free
  split at free
  case isTrue inside => exact ⟨(Array.getElem?_append_left inside).symm.trans found, free⟩
  case isFalse outside =>
    rw [free] at found
    cases found

/-- What the first table knows the one with more objects knows. -/
theorem tableWith_eq_some
    (known : table address = some object → before[address]? = some object)
    (isApart : table address = some object) :
    tableWith table before (before ++ added) address = some object := by
  obtain ⟨inside, _⟩ := Array.getElem?_eq_some_iff.mp (known isApart)
  rw [tableWith, if_pos inside, isApart]

end Tables

section Widening

variable
  {size later : Sizes}
  {apart between further : Apart}
  {origin store : Store}
  {operators : Operators}
  {value : Value}
  {values : List Value}

theorem Widens.refl : Widens size apart apart :=
  ⟨id, fun _ => id, id, fun _ => id⟩

/-- Tables may be widened one after the other. -/
theorem Widens.trans
    (first : Widens size apart between)
    (second : Widens later between further)
    (grown : size ≤ later) :
    Widens size apart further where
  keeps := second.keeps ∘ first.keeps
  fresh inside free := second.fresh (Nat.lt_of_lt_of_le inside grown.1) (first.fresh inside free)
  keepsVectors := second.keepsVectors ∘ first.keepsVectors
  freshVectors inside free :=
    second.freshVectors (Nat.lt_of_lt_of_le inside grown.2) (first.freshVectors inside free)

/-- What is set apart later was not there before, so that it is no value yet. -/
theorem Value.Belongs.widen
    (belongs : value.Belongs (.around apart origin) size)
    (widens : Widens size apart further) :
    value.Belongs (.around further origin) size := by
  cases value with
  | pair address => exact ⟨belongs.1, widens.fresh belongs.1 belongs.2⟩
  | vector address => exact ⟨belongs.1, widens.freshVectors belongs.1 belongs.2⟩
  | _ => trivial

/-- What belonged to the realm belongs to what is left of it. -/
theorem Value.Belongs.carry
    (belongs : value.Belongs (.around apart origin) size)
    (widens : Widens size apart further)
    (grown : size ≤ later) :
    value.Belongs (.around further origin) later :=
  (belongs.widen widens).mono grown

theorem AllBelong.widen
    (belong : AllBelong (.around apart origin) size values)
    (widens : Widens size apart further) :
    AllBelong (.around further origin) size values :=
  fun value member => (belong value member).widen widens

theorem Step.Belongs.widen
    {step : Step}
    (belongs : step.Belongs (.around apart origin) size)
    (widens : Widens size apart further) :
    step.Belongs (.around further origin) size := by
  cases step with
  | value result => exact Value.Belongs.widen belongs widens
  | tail scope form => exact Value.Belongs.widen belongs widens
  | apply callee operands => exact belongs.imp (·.widen widens) (·.widen widens)
  | expand scope form => exact Value.Belongs.widen belongs widens

/-- What is asked for belongs to what is left of the realm. -/
theorem Request.Belongs.widen
    {request : Request}
    (belongs : request.Belongs (.around apart origin) size)
    (widens : Widens size apart further) :
    request.Belongs (.around further origin) size := by
  cases request with
  | evaluate scope form => exact Value.Belongs.widen belongs widens
  | call callee operands => exact belongs.imp (·.widen widens) (·.widen widens)
  | finish step => exact Step.Belongs.widen belongs widens
  | reach scope home => trivial
  | endless => trivial

/-- A list of pairs that are set apart is still one. -/
theorem Realm.Spells.widen
    (spells : (Realm.around apart origin).Spells value values)
    (widens : Widens size apart further) :
    (Realm.around further origin).Spells value values := by
  induction spells with
  | nil => exact .nil
  | pair isApart _ inductionHypothesis => exact .pair (widens.keeps isApart) inductionHypothesis

/-- Code of pairs that are set apart is still code. -/
theorem Coded.widen
    (coded : Coded (.around apart origin) operators size value)
    (widens : Widens size apart further) :
    Coded (.around further origin) operators size value := by
  induction coded with
  | constant isConstant => exact .constant isConstant
  | identifier inHome bound => exact .identifier inHome bound
  | quoted address => exact .quoted address
  | quotation spells quotes _ belong fits inductionHypothesis =>
      exact .quotation (spells.widen widens) quotes inductionHypothesis (belong.widen widens) fits
  | application spells applies _ _ fits inductionHypothesis operandHypotheses =>
      exact .application (spells.widen widens) applies inductionHypothesis operandHypotheses fits

end Widening

/-! Stores of which objects are set apart. -/

/-- The store has the frames of the origin and holds what belongs to the realm around the table. -/
structure Store.HoldsAround
    (store : Store)
    (apart : Apart)
    (origin : Store) : Prop where
  frames : store.frames = origin.frames
  holds : store.Holds (.around apart origin) store.sizes

variable
  {apart further : Apart}
  {origin before after : Store}

/-- The later store has more pairs and vectors, and nothing else is different. -/
def Store.Pushes (before after : Store) : Prop :=
  ∃ pairs vectors,
    after =
      { before with pairs := before.pairs ++ pairs, vectors := before.vectors ++ vectors }

namespace Store.Pushes

theorem trans
    {between : Store}
    (first : before.Pushes between)
    (second : between.Pushes after) :
    before.Pushes after := by
  obtain ⟨pairs, vectors, rfl⟩ := first
  obtain ⟨morePairs, moreVectors, rfl⟩ := second
  refine ⟨pairs ++ morePairs, vectors ++ moreVectors, ?_⟩
  simp only [Array.append_assoc]

/-- A fresh pair is added, and nothing else happens. -/
theorem newPair
    (head tail : Value)
    (before : Store) :
    before.Pushes (before.newPair head tail).2 :=
  ⟨#[⟨head, tail⟩], #[], by simp [Store.newPair]⟩

/-- A fresh vector is added, and nothing else happens. -/
theorem newVector
    (items : Array Value)
    (before : Store) :
    before.Pushes (before.newVector items).2 :=
  ⟨#[], #[items], by simp [Store.newVector]⟩

/-- A list is made by adding its pairs. -/
theorem newListFrom
    (reversed : List Value)
    (tail : Value)
    (before : Store) :
    before.Pushes (before.newListFrom reversed tail).2 := by
  induction reversed generalizing tail before with
  | nil => exact ⟨#[], #[], by simp [Store.newListFrom]⟩
  | cons item reversed inductionHypothesis =>
      exact (newPair item tail before).trans (inductionHypothesis _ _)

/-- What is added is there in addition. -/
theorem grown
    (pushes : before.Pushes after) :
    before.sizes ≤ after.sizes := by
  obtain ⟨pairs, vectors, rfl⟩ := pushes
  exact ⟨by simp [sizes], by simp [sizes]⟩

/-- All that has been added may be set apart, whatever it holds. -/
theorem widens
    (pushes : before.Pushes after)
    (holds : before.Holds (.around apart origin) before.sizes) :
    Widens before.sizes apart (apart.adding before after) := by
  obtain ⟨pairs, vectors, rfl⟩ := pushes
  exact
    { keeps := fun isApart => tableWith_eq_some holds.apart isApart
      fresh := fun inside free => (if_pos inside).trans free
      keepsVectors := fun isApart => tableWith_eq_some holds.apartVectors isApart
      freshVectors := fun inside free => (if_pos inside).trans free }

/-- What is left of the realm holds what belongs to it. -/
theorem holds
    (pushes : before.Pushes after)
    (holds : before.Holds (.around apart origin) before.sizes) :
    after.Holds (.around (apart.adding before after) origin) after.sizes := by
  have widens := pushes.widens holds
  have grown := pushes.grown
  obtain ⟨pairs, vectors, rfl⟩ := pushes
  refine holds.transfer (·.carry widens grown) ?_ ?_ ?_ ?_ id
  · exact fun isApart => getElem?_of_tableWith holds.apart isApart
  · exact fun isApart => getElem?_of_tableWith holds.apartVectors isApart
  · intro address pair found outside
    obtain ⟨foundBefore, free⟩ := getElem?_of_tableWith_eq_none found outside
    exact (holds.pairs foundBefore free).imp (·.carry widens grown) (·.carry widens grown)
  · intro address items found outside value member
    obtain ⟨foundBefore, free⟩ := getElem?_of_tableWith_eq_none found outside
    exact (holds.vectors foundBefore free value member).carry widens grown

end Store.Pushes

/-- The pairs of a fresh list are set apart. -/
theorem Store.HoldsAround.newListFrom
    {reversed sofar : List Value}
    {tail : Value}
    (holds : before.HoldsAround apart origin)
    (spells : (Realm.around apart origin).Spells tail sofar) :
    ∃ further : Apart,
      Widens before.sizes apart further ∧
        before.sizes ≤ (before.newListFrom reversed tail).2.sizes ∧
          (before.newListFrom reversed tail).2.HoldsAround further origin ∧
            (Realm.around further origin).Spells (before.newListFrom reversed tail).1
              (reversed.reverse ++ sofar) := by
  induction reversed generalizing before apart tail sofar with
  | nil => exact ⟨apart, .refl, le_refl _, holds, spells⟩
  | cons item reversed inductionHypothesis =>
      have pushes := Pushes.newPair item tail before
      have widens := pushes.widens holds.holds
      have isApart :
          (apart.adding before (before.newPair item tail).2).pairs before.pairs.size =
            some ⟨item, tail⟩ :=
        (if_neg (Nat.lt_irrefl _)).trans Array.getElem?_push_size
      have pushed :
          (before.newPair item tail).2.HoldsAround
            (apart.adding before (before.newPair item tail).2) origin :=
        ⟨holds.frames, pushes.holds holds.holds⟩
      obtain ⟨further, more, grown, holdsAfter, spellsAfter⟩ :=
        inductionHypothesis pushed (.pair isApart (spells.widen widens))
      refine ⟨further, widens.trans more pushes.grown, le_trans pushes.grown grown, holdsAfter, ?_⟩
      rw [List.reverse_cons, List.append_assoc]
      exact spellsAfter

/-! Actions that set pairs apart. -/

/-- If the action succeeds, fresh pairs at most have been set apart, and its answer is fine then. -/
def StoreM.SetsApart
    {Answer : Type}
    (origin : Store)
    (fine : Apart → Sizes → Answer → Prop)
    (apart : Apart)
    (before : Store)
    (action : StoreM Answer) : Prop :=
  ∀ (answer : Answer) (after : Store),
    action before = (.ok answer, after) →
    ∃ further : Apart,
      Widens before.sizes apart further ∧
        before.sizes ≤ after.sizes ∧
          after.HoldsAround further origin ∧ fine further after.sizes answer

namespace StoreM.SetsApart

variable
  {Answer Second : Type}
  {fine : Apart → Sizes → Answer → Prop}
  {fineSecond : Apart → Sizes → Second → Prop}

theorem pure
    {answer : Answer}
    (holds : before.HoldsAround apart origin)
    (isFine : fine apart before.sizes answer) :
    SetsApart origin fine apart before (Pure.pure answer : StoreM Answer) := by
  intro other after answered
  cases answered
  exact ⟨apart, .refl, le_refl _, holds, isFine⟩

theorem view
    {look : Store → Answer}
    (holds : before.HoldsAround apart origin)
    (isFine : fine apart before.sizes (look before)) :
    SetsApart origin fine apart before (StoreM.view look) := by
  intro other after answered
  cases answered
  exact ⟨apart, .refl, le_refl _, holds, isFine⟩

theorem bind
    {first : StoreM Answer}
    {rest : Answer → StoreM Second}
    (sets : SetsApart origin fine apart before first)
    (continues :
      ∀ {further : Apart} {between : Store} {answer : Answer},
        Widens before.sizes apart further →
        before.sizes ≤ between.sizes →
        between.HoldsAround further origin →
        fine further between.sizes answer →
        SetsApart origin fineSecond further between (rest answer)) :
    SetsApart origin fineSecond apart before (first >>= rest) := by
  intro second after bound
  obtain ⟨answer, between, answered, followed⟩ := StoreM.bind_eq_ok_iff.mp bound
  obtain ⟨further, widens, grown, holds, isFine⟩ := sets answer between answered
  obtain ⟨last, more, grownRest, holdsAfter, isFineSecond⟩ :=
    continues widens grown holds isFine second after followed
  exact ⟨last, widens.trans more grown, le_trans grown grownRest, holdsAfter, isFineSecond⟩

/-- An action that stays within the realm sets nothing apart. -/
theorem of_stays
    {fineAnswer : Sizes → Answer → Prop}
    {action : StoreM Answer}
    (holds : before.HoldsAround apart origin)
    (stays : StoreM.Stays (.around apart origin) fineAnswer before.sizes action)
    (frames :
      ∀ {answer : Answer} {after : Store},
        action before = (.ok answer, after) → after.frames = before.frames) :
    SetsApart origin (fun further size answer => further = apart ∧ fineAnswer size answer) apart
      before action := by
  intro answer after answered
  obtain ⟨follows, isFine⟩ := stays before ⟨le_refl _, holds.holds⟩
  rw [answered] at follows isFine
  exact ⟨apart, .refl, follows.grown, ⟨(frames answered).trans holds.frames, follows.holds⟩, rfl,
    isFine⟩

end StoreM.SetsApart

/-! Sessions hold no pairs and no vectors but those that there are. -/

/-- Whether a machine is grounded does not depend on what its frames bind. -/
theorem Machine.isGrounded_iff
    {machine : Machine} :
    machine.IsGrounded ↔ machine.Within (.present .empty) :=
  ⟨fun grounded => ⟨{ grounded.store with binds := nofun }, grounded.context⟩,
    fun within => ⟨{ within.store with binds := id }, within.context⟩⟩

namespace Session

variable
  {realm : Realm}
  {settings : Settings}
  {session after : Session}

/-- A datum that is loaded belongs to the realm, like all else that the session holds. -/
theorem within_load
    (within : session.machine.Within realm)
    (datum : Datum) :
    (session.load datum).2.machine.Within realm ∧
      (session.load datum).1.Belongs realm (session.load datum).2.store.sizes := by
  obtain ⟨follows, belongs⟩ :=
    Store.makes_load datum session.store ⟨le_refl _, within.store⟩
  exact ⟨⟨follows.holds, within.context.mono follows.grown⟩, belongs⟩

/-- A definition leaves the session within the realm if its value belongs there. -/
theorem within_defineIn
    {scope : Scope}
    {value : Value}
    (within : session.machine.Within realm)
    (name : String)
    (belongs : value.Belongs realm session.store.sizes) :
    (session.defineIn scope name value).2.machine.Within realm ∧
      session.store.sizes ≤ (session.defineIn scope name value).2.store.sizes := by
  obtain ⟨follows, -⟩ :=
    Store.stays_define belongs session.store ⟨le_refl _, within.store⟩
  exact ⟨⟨follows.holds, within.context.mono follows.grown⟩, follows.grown⟩

/-- So do definitions by the host, one after the other. -/
theorem within_register
    {bindings : List (String × Value)}
    (within : session.machine.Within realm)
    (belong : ∀ binding ∈ bindings, binding.2.Belongs realm session.store.sizes) :
    (session.register bindings).2.machine.Within realm := by
  induction bindings generalizing session with
  | nil => exact within
  | cons binding rest inductionHypothesis =>
      obtain ⟨belongs, others⟩ := List.forall_mem_cons.mp belong
      obtain ⟨withinNext, grown⟩ := within_defineIn within binding.1 belongs
      exact inductionHypothesis withinNext fun other member => (others other member).mono grown

/-- Whatever is asked for within the realm leaves the session within it. -/
theorem within_ask
    (hostStays : settings.host.Stays realm)
    (free : ¬realm.steady)
    {request : Request}
    {result : Except Fault Value}
    (within : session.machine.Within realm)
    (belongs : request.Belongs realm session.store.sizes)
    (asked : session.ask settings request = some (result, after)) :
    after.machine.Within realm := by
  obtain ⟨root, user, machine⟩ := session
  simp only [ask] at asked
  split at asked
  · cases asked
  · next served =>
      cases asked
      exact (Machine.ends_of_serve hostStays free belongs within served).1

/-- The evaluation of a form leaves the session within the realm. -/
theorem within_evaluate
    (hostStays : settings.host.Stays realm)
    (free : ¬realm.steady)
    {form : Value}
    {result : Except Fault Value}
    (within : session.machine.Within realm)
    (belongs : form.Belongs realm session.store.sizes)
    (evaluated : session.evaluate settings form = some (result, after)) :
    after.machine.Within realm := by
  simp only [evaluate] at evaluated
  split at evaluated
  case h_1 => cases evaluated
  case h_2 asked =>
    cases evaluated
    have asks : Request.Belongs realm session.store.sizes (.evaluate session.user form) := belongs
    exact ⟨(within_ask hostStays free within asks asked).store, .nil⟩

/-- The evaluation of a text does so, whether the text can be read or not. -/
theorem within_evaluateText
    (hostStays : settings.host.Stays realm)
    (free : ¬realm.steady)
    {source : String}
    {result : Except Failure Value}
    (within : session.machine.Within realm)
    (evaluated : session.evaluateText settings source = some (result, after)) :
    after.machine.Within realm := by
  rcases of_withProgram evaluated with rfl | ⟨forms, ending, evaluatedForms⟩
  · exact within
  · obtain ⟨loaded, belongs⟩ := within_load within (.program forms)
    exact within_evaluate hostStays free loaded belongs evaluatedForms

/-- The library is evaluated within every realm, for the host is not asked. -/
theorem within_loadLibrary
    (free : ¬realm.steady)
    (within : session.machine.Within realm) :
    (session.loadLibrary settings).machine.Within realm := by
  unfold loadLibrary
  -- Whatever the text of the library is, its evaluation stays within the realm.
  generalize Library.text = source
  cases loaded : session.evaluateTextInRoot { settings with host := Host.absent } source with
  | none => exact within
  | some outcome =>
      obtain ⟨result, after⟩ := outcome
      rcases of_withProgram loaded with rfl | ⟨forms, ending, asked⟩
      · exact within
      · obtain ⟨loaded, belongs⟩ := within_load within (.program forms)
        refine within_ask (Host.absent_stays realm) free loaded ?_ asked
        exact belongs

end Session

/-- Nothing is in the empty store. -/
theorem Store.holds_empty :
    Store.empty.Holds (.present .empty) Store.empty.sizes where
  apart := nofun
  apartVectors := nofun
  pairs := nofun
  vectors := nofun
  marked _ member := (Array.not_mem_empty _ member).elim
  programs _ member := (Array.not_mem_empty _ member).elim
  frames _ member := (Array.not_mem_empty _ member).elim
  procedures _ member := (Array.not_mem_empty _ member).elim
  transformers _ member := (Array.not_mem_empty _ member).elim
  parameters _ member := (Array.not_mem_empty _ member).elim
  conditions _ member := (Array.not_mem_empty _ member).elim
  foreigns _ member := (Array.not_mem_empty _ member).elim
  binds := id

namespace Session

variable
  {settings : Settings}
  {after : Session}

/-- The bare session holds primitives and special forms only. -/
theorem within_bare :
    bare.machine.Within (.present .empty) := by
  unfold bare
  -- Whatever the root binds to begin with, it is a primitive or a special form.
  have belong : ∀ binding ∈ initialBindings, ∀ realm size, binding.2.Belongs realm size := by
    intro binding member realm size
    rcases List.mem_append.mp member with primitive | special
    · obtain ⟨_, _, rfl⟩ := List.mem_map.mp primitive
      trivial
    · obtain ⟨_, _, rfl⟩ := List.mem_map.mp special
      trivial
  have rooted := Store.makes_newRoot Store.empty ⟨le_refl _, Store.holds_empty⟩
  have begun := @Store.makes_newChild _ _ Store.empty.newRoot.1 _ ⟨le_refl _, rooted.1.holds⟩
  exact within_register ⟨begun.1.holds, .nil⟩ fun binding member => belong binding member _ _

/-- However the session is set up, its machine holds nothing but what there is. -/
theorem isGrounded_start
    (settings : Settings) :
    (start settings).machine.IsGrounded := by
  unfold start
  split
  · exact Machine.isGrounded_iff.mpr (within_loadLibrary id within_bare)
  · exact Machine.isGrounded_iff.mpr within_bare

/-- The text has been evaluated in the session, which has become another one. -/
def EvaluatesText (settings : Settings) (before after : Session) : Prop :=
  ∃ source result, before.evaluateText settings source = some (result, after)

/-- Whatever texts have been evaluated, the machine is grounded, and stays so while one is. -/
theorem isGrounded_of_texts
    (hostStays : settings.host.Stays (.present .empty))
    (texts : Relation.ReflTransGen (EvaluatesText settings) (start settings) after) :
    after.machine.IsGrounded ∧
      ∀ (datum : Datum) (scope : Scope) (moment : Moment),
        Moment.Reaches settings.host settings.limit
            ⟨.serving (.evaluate scope (after.load datum).1), [], (after.load datum).2.machine⟩
            moment →
          moment.machine.IsGrounded := by
  have within : after.machine.Within (.present .empty) := by
    induction texts with
    | refl => exact Machine.isGrounded_iff.mp (isGrounded_start settings)
    | tail _ evaluates inductionHypothesis =>
        obtain ⟨_, _, evaluated⟩ := evaluates
        exact within_evaluateText hostStays id inductionHypothesis evaluated
  refine ⟨Machine.isGrounded_iff.mpr within, fun datum scope moment reaches => ?_⟩
  obtain ⟨loaded, belongs⟩ := within_load within datum
  have begins :
      Moment.Within (.present .empty)
        ⟨.serving (.evaluate scope (after.load datum).1), [], (after.load datum).2.machine⟩ :=
    ⟨loaded, belongs, fun _ member => nomatch member⟩
  exact Machine.isGrounded_iff.mpr (reaches.within hostStays id begins).1.machine

end Session

end SmallScheme
