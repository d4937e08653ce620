import SmallScheme.Proofs.Realm.Store
import SmallScheme.Proofs.Store.Binding
import SmallScheme.Store.Load

namespace SmallScheme

/-!
# Actions within a realm

An action on the store stays within a realm if it leaves a store within the realm to a store within
the realm, and what comes of it belongs to the realm as well.  What is handed to the actions below
belongs to the realm; what they hand back then does, too.
-/

/--
Whatever store within the realm is given, the store that is made from it is within the realm, and
so is what is made.
-/
def Store.Makes
    {Answer : Type}
    (realm : Realm)
    (fine : Sizes → Answer → Prop)
    (size : Sizes)
    (make : Store → Answer × Store) : Prop :=
  ∀ store : Store,
    store.Reaches realm size →
    store.Follows realm (make store).2 ∧
      fine (make store).2.sizes (make store).1

/-- What is made from what has been made. -/
theorem Store.Makes.andThen
    {First Second : Type}
    {realm : Realm}
    {fineFirst : Sizes → First → Prop}
    {fine : Sizes → Second → Prop}
    {size : Sizes}
    {make : Store → First × Store}
    {rest : First → Store → Second × Store}
    (makes : Makes realm fineFirst size make)
    (continues :
      ∀ later first,
        size ≤ later →
        fineFirst later first →
        Makes realm fine later (rest first)) :
    Makes realm fine size fun store => rest (make store).1 (make store).2 := by
  intro store reaches
  obtain ⟨follows, isFine⟩ := makes store reaches
  obtain ⟨followsLast, isFineLast⟩ :=
    continues _ _ (le_trans reaches.grown follows.grown) isFine _ follows.reaches
  exact ⟨follows.trans followsLast, isFineLast⟩

/-- What is worked out from what has been made. -/
theorem Store.Makes.map
    {First Second : Type}
    {realm : Realm}
    {fineFirst : Sizes → First → Prop}
    {fine : Sizes → Second → Prop}
    {size : Sizes}
    {make : Store → First × Store}
    (makes : Makes realm fineFirst size make)
    (convert : First → Second)
    (isFine :
      ∀ later first,
        size ≤ later →
        fineFirst later first →
        fine later (convert first)) :
    Makes realm fine size fun store => (convert (make store).1, (make store).2) := by
  intro store reaches
  obtain ⟨follows, isFineFirst⟩ := makes store reaches
  exact ⟨follows, isFine _ _ (le_trans reaches.grown follows.grown) isFineFirst⟩

/-- Nothing is made, and the answer has been fine all along. -/
theorem Store.Makes.nothing
    {Answer : Type}
    {realm : Realm}
    {fine : Sizes → Answer → Prop}
    {size : Sizes}
    {answer : Answer}
    (isFine : ∀ later, size ≤ later → fine later answer) :
    Makes realm fine size fun store => (answer, store) :=
  fun _ reaches => ⟨reaches.follows, isFine _ reaches.grown⟩

/-- The answer is fine, or the fault belongs to the realm. -/
def Result
    {Answer : Type}
    (realm : Realm)
    (fine : Sizes → Answer → Prop)
    (size : Sizes) : Except Fault Answer → Prop
  | .ok answer => fine size answer
  | .error fault => fault.Belongs realm size

/-- Results that follow one another are fine if each of them is. -/
theorem Result.bind
    {First Second : Type}
    {realm : Realm}
    {fineFirst : Sizes → First → Prop}
    {fine : Sizes → Second → Prop}
    {size : Sizes}
    {result : Except Fault First}
    {rest : First → Except Fault Second}
    (isFine : Result realm fineFirst size result)
    (continues : ∀ answer, fineFirst size answer → Result realm fine size (rest answer)) :
    Result realm fine size (result >>= rest) := by
  cases result with
  | error fault => exact isFine
  | ok answer => exact continues answer isFine

/-- The action stays within the realm, and its answers are fine. -/
def StoreM.Stays
    {Answer : Type}
    (realm : Realm)
    (fine : Sizes → Answer → Prop)
    (size : Sizes)
    (action : StoreM Answer) : Prop :=
  Store.Makes realm (Result realm fine) size action

variable
  {realm : Realm}
  {size : Sizes}
  {value : Value}
  {values : List Value}

namespace StoreM.Stays

variable
  {Answer Second : Type}
  {fine : Sizes → Answer → Prop}
  {fineSecond : Sizes → Second → Prop}

theorem pure
    {answer : Answer}
    (isFine : ∀ later, size ≤ later → fine later answer) :
    Stays realm fine size (Pure.pure answer : StoreM Answer) :=
  fun _ reaches => ⟨reaches.follows, isFine _ reaches.grown⟩

/-- The value that is answered with has been within the realm all along. -/
theorem answer
    (belongs : value.Belongs realm size) :
    Stays realm (Value.Belongs realm) size (Pure.pure value : StoreM Value) :=
  .pure fun _ grown => belongs.mono grown

theorem throw
    {fault : Fault}
    (belongs : fault.Belongs realm size) :
    Stays realm fine size (MonadExcept.throw fault : StoreM Answer) :=
  fun _ reaches => ⟨reaches.follows, belongs.mono reaches.grown⟩

theorem fail
    {fault : Store → Fault}
    (belongs :
      ∀ store : Store,
        store.Reaches realm size →
        (fault store).Belongs realm store.sizes) :
    Stays realm fine size (StoreM.fail fault : StoreM Answer) :=
  fun store reaches => ⟨reaches.follows, belongs store reaches⟩

/-- What a fault quotes is a text, which belongs to every realm. -/
theorem failTelling
    {fault : String → Fault}
    (belongs : ∀ size text, (fault text).Belongs realm size) :
    Stays realm fine size (StoreM.failTelling value fault : StoreM Answer) :=
  .fail fun store _ => store.telling_of value (belongs _) trivial

theorem view
    {look : Store → Answer}
    (isFine :
      ∀ store : Store,
        store.Reaches realm size →
        fine store.sizes (look store)) :
    Stays realm fine size (StoreM.view look) :=
  fun store reaches => ⟨reaches.follows, isFine store reaches⟩

/-- What is worked out from the store, which does not change. -/
theorem look
    {look : Store → Except Fault Answer}
    (isFine :
      ∀ store : Store,
        store.Reaches realm size →
        Result realm fine store.sizes (look store)) :
    Stays realm fine size (fun store => (look store, store) : StoreM Answer) :=
  fun store reaches => ⟨reaches.follows, isFine store reaches⟩

theorem change
    {make : Store → Answer × Store}
    (makes : Store.Makes realm fine size make) :
    Stays realm fine size (StoreM.change make) :=
  makes

theorem bind
    {first : StoreM Answer}
    {rest : Answer → StoreM Second}
    (stays : Stays realm fine size first)
    (continues :
      ∀ later answer,
        size ≤ later →
        fine later answer →
        Stays realm fineSecond later (rest answer)) :
    Stays realm fineSecond size (first >>= rest) := by
  intro store reaches
  obtain ⟨follows, isFine⟩ := stays store reaches
  change
    store.Follows realm (ExceptT.bindCont rest (first store).1 (first store).2).2 ∧
      Result realm fineSecond (ExceptT.bindCont rest (first store).1 (first store).2).2.sizes
        (ExceptT.bindCont rest (first store).1 (first store).2).1
  generalize (first store).1 = result at isFine
  generalize (first store).2 = after at follows isFine
  cases result with
  | error fault =>
      exact ⟨follows, isFine⟩
  | ok answer =>
      obtain ⟨followsLast, isFineLast⟩ :=
        continues _ answer (le_trans reaches.grown follows.grown) isFine after follows.reaches
      exact ⟨follows.trans followsLast, isFineLast⟩

/-- What stays within the realm does so later as well. -/
theorem mono
    {later : Sizes}
    {action : StoreM Answer}
    (stays : Stays realm fine size action)
    (grown : size ≤ later) :
    Stays realm fine later action :=
  fun store reaches => stays store (reaches.mono grown)

end StoreM.Stays

namespace Store

/-! Objects that are added. -/

/-- Nothing that is looked at has changed, apart from what has been added. -/
private theorem makes_outside
    {make : Store → Value × Store}
    (sameSizes : ∀ store : Store, (make store).2.sizes = store.sizes)
    (holds :
      ∀ store : Store,
        size ≤ store.sizes →
        store.Holds realm store.sizes →
        (make store).2.Holds realm store.sizes)
    (belongs : ∀ (store : Store) (later : Sizes), (make store).1.Belongs realm later)
    (parameters :
      ∀ (store : Store) {address : Nat} {parameter : Parameter},
        store.parameters[address]? = some parameter →
        (make store).2.parameters[address]? = some parameter) :
    Makes realm (Value.Belongs realm) size make := by
  intro store reaches
  have same := sameSizes store
  refine ⟨⟨le_of_eq same.symm, ?_, fun _ => parameters store⟩, belongs store _⟩
  rw [same]
  exact holds store reaches.grown reaches.holds

theorem makes_newText
    (text : String) :
    Makes realm (Value.Belongs realm) size (newText text) :=
  makes_outside (fun _ => rfl) (fun _ _ holds => { holds with apart := holds.apart })
    (fun _ _ => trivial) fun _ => id

theorem makes_newBytevector
    (bytes : Array UInt8) :
    Makes realm (Value.Belongs realm) size (newBytevector bytes) :=
  makes_outside (fun _ => rfl) (fun _ _ holds => { holds with apart := holds.apart })
    (fun _ _ => trivial) fun _ => id

/-- A fresh vector is the realm's if its items belong to it. -/
theorem makes_newVector
    {items : Array Value}
    (belong : AllBelong realm size items.toList) :
    Makes realm (Value.Belongs realm) size (newVector items) := by
  intro store reaches
  have added : (newVector items store).2.sizes = ⟨store.sizes.pairs, store.sizes.vectors + 1⟩ :=
    congrArg (Sizes.mk store.pairs.size) (Array.size_push _)
  have more : store.sizes ≤ ⟨store.sizes.pairs, store.sizes.vectors + 1⟩ :=
    ⟨Nat.le_refl _, Nat.le_succ _⟩
  refine ⟨⟨added ▸ more, ?_, fun _ => id⟩, ?_⟩
  · rw [added]
    exact (reaches.holds.mono more).pushVector (belong.mono (le_trans reaches.grown more))
  · rw [added]
    exact realm.ownsVector_next reaches.holds.apartVector_next

theorem makes_newVector_toArray
    (belong : AllBelong realm size values) :
    Makes realm (Value.Belongs realm) size (newVector values.toArray) :=
  @makes_newVector realm size values.toArray belong

/-- A marked form belongs to every realm, and so does what it marks. -/
theorem makes_newMarked
    {mark : Mark}
    {inner : Value}
    (belongs : inner.Belongs realm size) :
    Makes realm (Value.Belongs realm) size (newMarked mark inner) :=
  makes_outside (fun _ => rfl)
    (fun _ grown holds =>
      { holds with marked := Array.forall_mem_push.mpr ⟨belongs.mono grown, holds.marked⟩ })
    (fun _ _ => trivial) fun _ => id

/-- A program belongs to every realm, and so do its forms. -/
theorem makes_newProgram
    {forms : List Value}
    (belong : AllBelong realm size forms) :
    Makes realm (Value.Belongs realm) size (newProgram forms) :=
  makes_outside (fun _ => rfl)
    (fun _ grown holds =>
      { holds with programs := Array.forall_mem_push.mpr ⟨belong.mono grown, holds.programs⟩ })
    (fun _ _ => trivial) fun _ => id

/-- The forms of a procedure belong to the realm that it is made in. -/
theorem makes_newProcedure
    {procedure : Procedure}
    (belong : AllBelong realm size procedure.body) :
    Makes realm (Value.Belongs realm) size (newProcedure procedure) :=
  makes_outside (fun _ => rfl)
    (fun _ grown holds =>
      { holds with procedures := Array.forall_mem_push.mpr ⟨belong.mono grown, holds.procedures⟩ })
    (fun _ _ => trivial) fun _ => id

/-- The rules of a transformer belong to the realm that it is made in. -/
theorem makes_newTransformer
    {transformer : Transformer}
    (belong : ∀ rule ∈ transformer.rules, rule.Belongs realm size) :
    Makes realm (Value.Belongs realm) size (newTransformer transformer) :=
  makes_outside (fun _ => rfl)
    (fun _ grown holds =>
      { holds with
        transformers := Array.forall_mem_push.mpr
          ⟨fun rule member => (belong rule member).imp (·.mono grown) (·.mono grown),
            holds.transformers⟩ })
    (fun _ _ => trivial) fun _ => id

/-- The value of a parameter and its converter belong to the realm. -/
theorem makes_newParameter
    {parameter : Parameter}
    (belongs : parameter.Belongs realm size) :
    Makes realm (Value.Belongs realm) size (newParameter parameter) :=
  makes_outside (fun _ => rfl)
    (fun _ grown holds =>
      { holds with
        parameters := Array.forall_mem_push.mpr
          ⟨belongs.imp (·.mono grown) fun each converter isConverter =>
              (each converter isConverter).mono grown,
            holds.parameters⟩ })
    (fun _ _ => trivial) fun _ => getElem?_push_of_some

/-- The irritants of a condition belong to the realm. -/
theorem makes_newCondition
    {condition : Condition}
    (belong : AllBelong realm size condition.irritants) :
    Makes realm (fun _ _ => True) size (newCondition condition) := by
  intro store reaches
  have kept := belong.mono reaches.grown
  exact ⟨⟨le_refl _,
    { reaches.holds with
      conditions := Array.forall_mem_push.mpr ⟨kept, reaches.holds.conditions⟩ },
    fun _ => id⟩, trivial⟩

/-- A fresh pair is the realm's if what it holds belongs to the realm. -/
theorem makes_newPair
    {head tail : Value}
    (headBelongs : head.Belongs realm size)
    (tailBelongs : tail.Belongs realm size) :
    Makes realm (Value.Belongs realm) size (newPair head tail) := by
  intro store reaches
  have added : (newPair head tail store).2.sizes = ⟨store.sizes.pairs + 1, store.sizes.vectors⟩ :=
    congrArg (Sizes.mk · store.vectors.size) (Array.size_push _)
  have more : store.sizes ≤ ⟨store.sizes.pairs + 1, store.sizes.vectors⟩ :=
    ⟨Nat.le_succ _, Nat.le_refl _⟩
  have grown := le_trans reaches.grown more
  refine ⟨⟨added ▸ more, ?_, fun _ => id⟩, ?_⟩
  · rw [added]
    exact (reaches.holds.mono more).pushPair ⟨headBelongs.mono grown, tailBelongs.mono grown⟩
  · rw [added]
    exact realm.owns_next reaches.holds.apart_next

/-- A list is made of one fresh pair for each item. -/
theorem makes_newListFrom
    {reversed : List Value}
    {tail : Value}
    (belong : AllBelong realm size reversed)
    (tailBelongs : tail.Belongs realm size) :
    Makes realm (Value.Belongs realm) size (newListFrom reversed tail) := by
  induction reversed generalizing size tail with
  | nil =>
      exact .nothing fun _ grown => tailBelongs.mono grown
  | cons item reversed inductionHypothesis =>
      refine (makes_newPair belong.head tailBelongs).andThen fun later extended grown isPair => ?_
      exact inductionHypothesis (belong.tail.mono grown) isPair

theorem makes_newListWithTail
    {tail : Value}
    (belong : AllBelong realm size values)
    (tailBelongs : tail.Belongs realm size) :
    Makes realm (Value.Belongs realm) size (newListWithTail values tail) :=
  makes_newListFrom belong.reverse tailBelongs

theorem makes_newList
    (belong : AllBelong realm size values) :
    Makes realm (Value.Belongs realm) size (newList values) :=
  makes_newListWithTail belong (show Value.Belongs realm size .nil from trivial)

mutual

/-- A datum is put into the store by making what it consists of. -/
theorem makes_load
    {size : Sizes}
    (datum : Datum) :
    Makes realm (Value.Belongs realm) size (load datum) := by
  match datum with
  | .nil | .unspecified | .integer _ | .real _ | .boolean _ | .character _ | .symbol _ | .regex _
  | .handle _ _ => exact .nothing fun _ _ => trivial
  | .text text => exact makes_newText text
  | .bytevector bytes => exact makes_newBytevector bytes.toArray
  | .pair head tail =>
      have loadsTail {first : Value} {later : Sizes} (isHead : first.Belongs realm later) :
          Makes realm (Value.Belongs realm) later fun store =>
            newPair first (load tail store).1 (load tail store).2 :=
        (makes_load tail).andThen fun _ _ grown isTail =>
          makes_newPair (isHead.mono grown) isTail
      exact (makes_load head).andThen fun _ _ _ => loadsTail
  | .vector items =>
      exact (makes_loadAll items).andThen fun _ _ _ areItems => makes_newVector_toArray areItems
  | .marked mark inner =>
      exact (makes_load inner).andThen fun _ _ _ isInner => makes_newMarked isInner
  | .program forms =>
      exact (makes_loadAll forms).andThen fun _ _ _ areForms => makes_newProgram areForms
  | .circular items =>
      exact (makes_loadAll items).andThen fun _ _ _ areItems => makes_newList areItems

/-- Data are put into the store one after the other. -/
theorem makes_loadAll
    {size : Sizes}
    (data : List Datum) :
    Makes realm (AllBelong realm) size (loadAll data) := by
  match data with
  | [] => exact .nothing fun _ _ => .nil
  | datum :: rest =>
      have loadsRest {first : Value} {later : Sizes} (isFirst : first.Belongs realm later) :
          Makes realm (AllBelong realm) later fun store =>
            (first :: (loadAll rest store).1, (loadAll rest store).2) :=
        (makes_loadAll rest).map (first :: ·) fun _ _ grown areRest =>
          AllBelong.cons (isFirst.mono grown) areRest
      exact (makes_load datum).andThen fun _ _ _ => loadsRest

end

/-! Objects that are changed. -/

/-- Only a pair of the realm is changed, and it holds what belongs to the realm. -/
theorem stays_setHead
    {address : Nat}
    {head : Value}
    (owned : realm.owns size address)
    (belongs : head.Belongs realm size) :
    StoreM.Stays realm (Value.Belongs realm) size
      (StoreM.change fun store => (.unspecified, store.setHead address head)) := by
  intro store reaches
  have later := belongs.mono reaches.grown
  have changed : (store.setHead address head).Holds realm store.sizes :=
    reaches.holds.modifyPair (realm.not_apart owned) fun _ pair => ⟨later, pair.2⟩
  have same : (store.setHead address head).sizes = store.sizes :=
    congrArg (Sizes.mk · store.vectors.size) Array.size_modify
  exact ⟨⟨le_of_eq same.symm, same.symm ▸ changed, fun _ => id⟩, trivial⟩

/-- Only a pair of the realm is linked, with what belongs to the realm. -/
theorem stays_setTail
    {address : Nat}
    {tail : Value}
    (owned : realm.owns size address)
    (belongs : tail.Belongs realm size) :
    StoreM.Stays realm (Value.Belongs realm) size
      (StoreM.change fun store => (.unspecified, store.setTail address tail)) := by
  intro store reaches
  have later := belongs.mono reaches.grown
  have changed : (store.setTail address tail).Holds realm store.sizes :=
    reaches.holds.modifyPair (realm.not_apart owned) fun _ pair => ⟨pair.1, later⟩
  have same : (store.setTail address tail).sizes = store.sizes :=
    congrArg (Sizes.mk · store.vectors.size) Array.size_modify
  exact ⟨⟨le_of_eq same.symm, same.symm ▸ changed, fun _ => id⟩, trivial⟩

/-- Only a vector of the realm is changed, with what belongs to the realm. -/
theorem stays_setVectorItem
    {address index : Nat}
    {item : Value}
    (owned : realm.ownsVector size address)
    (belongs : item.Belongs realm size) :
    StoreM.Stays realm (Value.Belongs realm) size
      (StoreM.change fun store => (.unspecified, store.setVectorItem address index item)) := by
  intro store reaches
  have later := belongs.mono reaches.grown
  have changed : (store.setVectorItem address index item).Holds realm store.sizes := by
    refine reaches.holds.modifyVector (realm.vector_not_apart owned) fun items belong => ?_
    intro value isItem
    rw [Array.toList_setIfInBounds] at isItem
    rcases List.mem_or_eq_of_mem_set isItem with old | rfl
    · exact belong value old
    · exact later
  have same : (store.setVectorItem address index item).sizes = store.sizes :=
    congrArg (Sizes.mk store.pairs.size) Array.size_modify
  exact ⟨⟨le_of_eq same.symm, same.symm ▸ changed, fun _ => id⟩, trivial⟩

/-- Bytes are no values, so that nothing gets into a bytevector. -/
theorem stays_setByteItem
    {address index : Nat}
    {byte : UInt8} :
    StoreM.Stays realm (Value.Belongs realm) size
      (StoreM.change fun store => (.unspecified, store.setByteItem address index byte)) :=
  fun _ reaches =>
    ⟨⟨le_refl _, { reaches.holds with apart := reaches.holds.apart }, fun _ => id⟩, trivial⟩

/-- A procedure with another name has the same forms. -/
theorem stays_nameProcedure
    {address : Nat}
    {name : String} :
    StoreM.Stays realm (fun _ _ => True) size
      (StoreM.change fun store => ((), store.nameProcedure address name)) := by
  intro store reaches
  suffices changed : (store.nameProcedure address name).Holds realm store.sizes from
    ⟨⟨le_refl _, changed, fun _ => id⟩, trivial⟩
  refine { reaches.holds with procedures := ?_ }
  unfold nameProcedure
  dsimp only
  refine forall_mem_modify reaches.holds.procedures fun procedure member => ?_
  split <;> exact reaches.holds.procedures procedure member

/-! Frames. -/

/-- A frame is changed and goes on binding what it has bound. -/
private theorem follows_modifyFrame
    {store : Store}
    {address : Nat}
    {change : Frame → Frame}
    (reaches : store.Reaches realm size)
    (changes :
      ∀ frame : Frame,
        frame.Belongs realm store.sizes →
        (change frame).Belongs realm store.sizes)
    (binds :
      ∀ {name : String},
        ((store.frameAt address).find? name).isSome →
        ((change (store.frameAt address)).find? name).isSome) :
    store.Follows realm (store.modifyFrame address change) :=
  ⟨le_refl _, reaches.holds.modifyFrame changes binds, fun _ => id⟩

/-- A fresh frame goes on with the bindings that it is made with. -/
private theorem follows_newFrame
    {store : Store}
    {frame : Frame}
    (reaches : store.Reaches realm size)
    (belongs : frame.Belongs realm store.sizes) :
    store.Follows realm (store.newFrame frame).2 := by
  refine ⟨le_refl _, { reaches.holds with frames := ?_, binds := ?_ }, fun _ => id⟩
  · exact Array.forall_mem_push.mpr ⟨belongs, reaches.holds.frames⟩
  · intro address name bound
    have before := reaches.holds.binds bound
    unfold Store.frameAt at before ⊢
    cases found : store.frames[address]? with
    | none =>
        rw [found] at before
        cases before
    | some present =>
        rw [found] at before
        have still : (store.newFrame frame).2.frames[address]? = some present :=
          getElem?_push_of_some found
        rw [still]
        exact before

/-- A root binds nothing at first. -/
theorem makes_newRoot :
    Makes realm (fun _ _ => True) size newRoot := by
  intro store reaches
  have empty : (⟨[], []⟩ : Frame).Belongs realm store.sizes :=
    fun _ impossible => nomatch impossible
  exact ⟨follows_newFrame reaches empty, trivial⟩

/-- A child binds nothing at first. -/
theorem makes_newChild
    {scope : Scope} :
    Makes realm (fun _ _ => True) size (newChild scope) := by
  intro store reaches
  have empty (namespaces : List String) :
      (⟨[], namespaces⟩ : Frame).Belongs realm store.sizes :=
    fun _ impossible => nomatch impossible
  exact ⟨follows_newFrame reaches (empty _), trivial⟩

/-- A frame that binds one more name binds all that it did. -/
theorem stays_define
    {scope : Scope}
    {name : String}
    (belongs : value.Belongs realm size) :
    StoreM.Stays realm (fun _ _ => True) size (define scope name value) := by
  intro store reaches
  unfold define
  split
  case h_1 => exact ⟨reaches.follows, trivial⟩
  case h_2 unbound =>
    refine ⟨follows_modifyFrame reaches (fun frame belong => ?_) fun {other} bound => ?_, trivial⟩
    · exact List.forall_mem_cons.mpr ⟨belongs.mono reaches.grown, belong⟩
    · unfold Frame.find? Frame.bind at *
      rw [List.lookup_cons]
      split
      · rfl
      · exact bound

/-- A frame goes on binding what it has bound when one of its names is assigned. -/
private theorem isSome_find?_assign
    {frame : Frame}
    {name other : String}
    (bound : (frame.find? other).isSome) :
    ((frame.assign name value).find? other).isSome := by
  obtain ⟨present, found⟩ := Option.isSome_iff_exists.mp bound
  by_cases same : other = name
  · subst same
    rw [Frame.find?_assign_same found]
    rfl
  · rw [Frame.find?_assign_other same]
    exact bound

/-- A binding that is changed holds the new value and is still there. -/
private theorem belongs_assign
    {frame : Frame}
    {name : String}
    (frameBelongs : frame.Belongs realm size)
    (belongs : value.Belongs realm size) :
    (frame.assign name value).Belongs realm size := by
  obtain ⟨bindings, namespaces⟩ := frame
  unfold Frame.Belongs Frame.assign at *
  induction bindings with
  | nil => exact frameBelongs
  | cons binding rest inductionHypothesis =>
      obtain ⟨first, others⟩ := List.forall_mem_cons.mp frameBelongs
      dsimp only [Frame.replaceBinding]
      split
      · exact List.forall_mem_cons.mpr ⟨belongs, others⟩
      · exact List.forall_mem_cons.mpr ⟨first, inductionHypothesis others⟩

/-- To assign changes one binding, wherever that is found. -/
theorem stays_assign
    {scope : Scope}
    {name : String}
    (belongs : value.Belongs realm size) :
    StoreM.Stays realm (fun _ _ => True) size (assign scope name value) := by
  intro store reaches
  unfold assign
  split
  · exact ⟨reaches.follows, trivial⟩
  · split
    · exact ⟨reaches.follows, trivial⟩
    · refine ⟨follows_modifyFrame reaches (fun frame belong => ?_) isSome_find?_assign, trivial⟩
      exact belongs_assign belong (belongs.mono reaches.grown)

/-- To use a namespace changes no binding. -/
theorem stays_useNamespace
    {scope : Scope}
    {name : String} :
    StoreM.Stays realm (fun _ _ => True) size
      (StoreM.change fun store => ((), store.useNamespace scope name)) := by
  intro store reaches
  refine ⟨follows_modifyFrame reaches (fun frame belong => ?_) fun {other} bound => ?_, trivial⟩
  · split <;> exact belong
  · split <;> exact bound

/-! Parameters of procedures. -/

/-- The items of a list of the realm belong to it. -/
theorem stays_listItems
    (belongs : value.Belongs realm size) :
    StoreM.Stays realm (AllBelong realm) size (listItems value) := by
  let fine (later : Sizes) (found : Option (List Value)) : Prop :=
    ∀ items, found = some items → AllBelong realm later items
  have looked :
      StoreM.Stays realm fine size (StoreM.view fun store => store.listItems? value) :=
    .view fun store reaches items found =>
        reaches.holds.listItems? (belongs.mono reaches.grown) found
  refine looked.bind fun later found grown isFine => ?_
  cases found with
  | none => exact .fail fun _ _ => trivial
  | some items => exact .pure fun _ grown => (isFine items rfl).mono grown

/-- The names of parameters are told without any value. -/
private theorem fits_nameOf
    (store : Store)
    (earlier : List String)
    (form : Value) :
    Result realm (fun _ _ => True) size (Formals.nameOf store earlier form) := by
  unfold Formals.nameOf
  split
  · exact store.telling_of form (motive := Fault.Belongs realm size) (fun _ => trivial) trivial
  · split <;> trivial

/-- A fault about formals carries no value. -/
theorem fits_namesOf
    (store : Store)
    (earlier : List String)
    (forms : List Value) :
    Result realm (fun _ _ => True) size (Formals.namesOf store earlier forms) := by
  induction forms generalizing earlier with
  | nil => trivial
  | cons form rest inductionHypothesis =>
      exact (fits_nameOf store earlier form).bind fun _ _ => inductionHypothesis _

/-- Formals are names, whatever their form holds. -/
theorem fits_ofForm
    (store : Store)
    (form : Value) :
    Result realm (fun _ _ => True) size (Formals.ofForm store form) := by
  unfold Formals.ofForm
  split
  · trivial
  · refine (fits_namesOf store [] _).bind fun names _ => ?_
    split
    · trivial
    · exact (fits_nameOf _ _ _).bind fun _ _ => trivial

/-- Bindings that are made one after the other stay in the realm if their values do. -/
theorem stays_defineAll
    {scope : Scope}
    {bindings : List (String × Value)}
    (belong : ∀ binding ∈ bindings, binding.2.Belongs realm size) :
    StoreM.Stays realm (fun _ _ => True) size (defineAll scope bindings) := by
  induction bindings generalizing size with
  | nil => exact .pure fun _ _ => trivial
  | cons binding rest inductionHypothesis =>
      obtain ⟨first, others⟩ := List.forall_mem_cons.mp belong
      refine (stays_define first).bind fun later _ grown _ => ?_
      exact inductionHypothesis fun binding member => (others binding member).mono grown

/-- The remaining operands are bound as a fresh list. -/
theorem stays_defineList
    {scope : Scope}
    {name : String}
    (belong : AllBelong realm size values) :
    StoreM.Stays realm (fun _ _ => True) size (defineList scope name values) :=
  (StoreM.Stays.change (makes_newList belong)).bind fun _ _ _ list => stays_define list

/-- What a procedure is called with belongs to the realm, and so does its frame. -/
theorem stays_bindFormals
    {procedure : Procedure}
    {scope : Scope}
    (belong : AllBelong realm size values) :
    StoreM.Stays realm (fun _ _ => True) size (bindFormals procedure scope values) := by
  have zipped (names : List String) :
      ∀ binding ∈ names.zip values, binding.2.Belongs realm size :=
    fun binding member => belong binding.2 (List.of_mem_zip member).2
  unfold bindFormals
  split
  · exact stays_defineList belong
  · split
    · exact stays_defineAll (zipped _)
    · exact .throw trivial
  · split
    · exact .throw trivial
    · refine (stays_defineAll (zipped _)).bind fun later _ grown _ => stays_defineList ?_
      exact (belong.of_subset (List.drop_subset _ _)).mono grown

end Store

end SmallScheme
