import SmallScheme.Proofs.Realm.Basic
import SmallScheme.Proofs.Store.Growth

namespace SmallScheme

/-!
# Stores within a realm

What is read from a store that holds what belongs to a realm belongs to the realm itself.  A store
goes on holding what belongs to the realm when objects are added or changed whose parts belong to
it.
-/

/-- What holds of all objects of a table and of the usual one holds of the object at an address. -/
private theorem getD_of_forall
    {Object : Type}
    (fine : Object → Prop)
    {table : Array Object}
    (each : ∀ object ∈ table, fine object)
    (usual : Object)
    (usually : fine usual)
    (address : Nat) :
    fine (table[address]?.getD usual) := by
  cases found : table[address]? with
  | some object => exact each object (Array.mem_of_getElem? found)
  | none => exact usually

/-- What holds of all objects of a table still does when one is changed that it also holds of. -/
theorem Store.forall_mem_modify
    {Object : Type}
    {fine : Object → Prop}
    {table : Array Object}
    (each : ∀ object ∈ table, fine object)
    {address : Nat}
    {change : Object → Object}
    (changes : ∀ object ∈ table, fine (change object)) :
    ∀ object ∈ table.modify address change, fine object := by
  intro object member
  obtain ⟨index, found⟩ := Array.mem_iff_getElem?.mp member
  rw [Array.getElem?_modify] at found
  split at found
  · obtain ⟨before, foundBefore, rfl⟩ := Option.map_eq_some_iff.mp found
    exact changes before (Array.mem_of_getElem? foundBefore)
  · exact each object (Array.mem_of_getElem? found)

variable
  {realm : Realm}
  {size : Sizes}
  {store : Store}
  {value : Value}
  {values : List Value}

/-! What is read. -/

/-- What a name is bound to in a frame of the realm belongs to it. -/
theorem Frame.Belongs.find?
    {frame : Frame}
    (belongs : frame.Belongs realm size)
    {name : String}
    (found : frame.find? name = some value) :
    value.Belongs realm size := by
  unfold Frame.find? at found
  obtain ⟨before, after, shape, _⟩ := List.lookup_eq_some_iff.mp found
  exact belongs (name, value) (by simp [shape])

namespace Store.Holds

variable (holds : store.Holds realm size)

include holds

/-- A pair of the realm holds what belongs to it. -/
theorem pair
    {address : Nat}
    {pair : Pair}
    (owned : realm.owns size address)
    (found : store.pairs[address]? = some pair) :
    pair.Belongs realm size :=
  holds.pairs found (realm.not_apart owned)

/-- So does a pair that is looked up and may be missing. -/
theorem pairAt
    {address : Nat}
    (owned : realm.owns size address) :
    (store.pairAt address).Belongs realm size := by
  unfold Store.pairAt
  cases found : store.pairs[address]? with
  | some pair => exact holds.pair owned found
  | none => exact ⟨trivial, trivial⟩

theorem pair?
    {pair : Pair}
    (belongs : value.Belongs realm size)
    (found : store.pair? value = some pair) :
    pair.Belongs realm size := by
  unfold Store.pair? at found
  split at found
  · exact holds.pair belongs found
  · cases found

/-- A vector of the realm holds what belongs to it. -/
theorem vectorAt
    {address : Nat}
    (owned : realm.ownsVector size address) :
    AllBelong realm size (store.vectorAt address).toList := by
  unfold Store.vectorAt
  cases found : store.vectors[address]? with
  | some items => exact holds.vectors found (realm.vector_not_apart owned)
  | none => exact .nil

/-- No marked form is set apart. -/
theorem markedAt
    (address : Nat) :
    (store.markedAt address).Belongs realm size :=
  getD_of_forall (Value.Belongs realm size) holds.marked .nil trivial address

/-- No program is set apart. -/
theorem programAt
    (address : Nat) :
    AllBelong realm size (store.programAt address) :=
  getD_of_forall (AllBelong realm size) holds.programs [] .nil address

/-- No frame is set apart. -/
theorem frameAt
    (address : Nat) :
    (store.frameAt address).Belongs realm size :=
  getD_of_forall (Frame.Belongs realm size) holds.frames default
    (fun _ impossible => nomatch impossible) address

/-- No procedure is set apart. -/
theorem procedureAt
    (address : Nat) :
    AllBelong realm size (store.procedures[address]?.getD default).body :=
  getD_of_forall (fun procedure : Procedure => AllBelong realm size procedure.body) holds.procedures
    default .nil address

/-- No transformer is set apart. -/
theorem transformerAt
    (address : Nat) :
    ∀ rule ∈ (store.transformers[address]?.getD default).rules, rule.Belongs realm size :=
  getD_of_forall
    (fun transformer : Transformer => ∀ rule ∈ transformer.rules, rule.Belongs realm size)
    holds.transformers default (fun _ impossible => nomatch impossible) address

/-- No parameter is set apart. -/
theorem parameterAt
    (address : Nat) :
    (store.parameters[address]?.getD default).Belongs realm size :=
  getD_of_forall (Parameter.Belongs realm size) holds.parameters default
    ⟨trivial, fun _ impossible => nomatch impossible⟩ address

/-- No condition is set apart. -/
theorem conditionAt
    (address : Nat) :
    AllBelong realm size (store.conditionAt address).irritants :=
  getD_of_forall (fun condition : Condition => AllBelong realm size condition.irritants)
    holds.conditions default .nil address

/-- No foreign object is set apart. -/
theorem foreignAt
    (address : Nat) :
    (store.foreigns[address]?.getD default).content.Belongs realm size :=
  getD_of_forall (fun object : ForeignObject => object.content.Belongs realm size) holds.foreigns
    default trivial address

/-- The value of a name belongs to the realm, wherever it is bound. -/
theorem lookup?
    {scope : Scope}
    {name : String}
    (found : store.lookup? scope name = some value) :
    value.Belongs realm size := by
  unfold Store.lookup? at found
  generalize scope.frames = frames at found
  induction frames with
  | nil => cases found
  | cons frame outer inductionHypothesis =>
      unfold Store.lookupIn at found
      split at found
      case h_1 held bound =>
        cases found
        exact (holds.frameAt frame).find? bound
      case h_2 => exact inductionHypothesis found

/-- The heads along a chain belong to the realm, and so does what the chain ends with. -/
theorem chainWithin
    {steps : Nat}
    {sofar : List Value}
    (earlier : AllBelong realm size sofar)
    (belongs : value.Belongs realm size) :
    AllBelong realm size (store.chainWithin steps sofar value).1 ∧
      (store.chainWithin steps sofar value).2.Belongs realm size := by
  induction steps generalizing sofar value with
  | zero => exact ⟨earlier.reverse, belongs⟩
  | succ steps inductionHypothesis =>
      unfold Store.chainWithin
      split
      case h_1 pair found =>
        have inPair := holds.pair? belongs found
        exact inductionHypothesis (.cons inPair.1 earlier) inPair.2
      case h_2 => exact ⟨earlier.reverse, belongs⟩

/-- All that a chain of the realm goes through belongs to it. -/
theorem chain
    (belongs : value.Belongs realm size) :
    AllBelong realm size (store.chain value).1 ∧ (store.chain value).2.Belongs realm size :=
  holds.chainWithin .nil belongs

/-- The items of a list of the realm belong to it. -/
theorem listItems?
    (belongs : value.Belongs realm size)
    (found : store.listItems? value = some values) :
    AllBelong realm size values := by
  unfold Store.listItems? at found
  split at found
  · cases found
    exact (holds.chain belongs).1
  · cases found

end Store.Holds

/-! Forms that show what belongs to the realm. -/

mutual

/-- Every value that the form shows in any of its parts belongs to the realm. -/
def Form.Belongs (realm : Realm) (size : Sizes) : Form → Prop
  | .atom value => value.Belongs realm size
  | .identifier _ value => value.Belongs realm size
  | .list items tail value =>
      Form.EachBelongs realm size items ∧ Form.Belongs realm size tail ∧ value.Belongs realm size
  | .vector items value => Form.EachBelongs realm size items ∧ value.Belongs realm size
  | .marked _ inner value => Form.Belongs realm size inner ∧ value.Belongs realm size

def Form.EachBelongs (realm : Realm) (size : Sizes) : List Form → Prop
  | [] => True
  | form :: rest => Form.Belongs realm size form ∧ Form.EachBelongs realm size rest

end

mutual

/-- What a form shows belongs to a realm that has all that belonged before. -/
theorem Form.Belongs.imp
    {other : Realm}
    {later : Sizes}
    {form : Form}
    (belongs : form.Belongs realm size)
    (keeps : ∀ {value : Value}, value.Belongs realm size → value.Belongs other later) :
    form.Belongs other later :=
  match form, belongs with
  | .atom _, belongs => keeps belongs
  | .identifier _ _, belongs => keeps belongs
  | .list _ _ _, ⟨items, tail, whole⟩ =>
      ⟨Form.EachBelongs.imp items keeps, Form.Belongs.imp tail keeps, keeps whole⟩
  | .vector _ _, ⟨items, whole⟩ => ⟨Form.EachBelongs.imp items keeps, keeps whole⟩
  | .marked _ _ _, ⟨inner, whole⟩ => ⟨Form.Belongs.imp inner keeps, keeps whole⟩

theorem Form.EachBelongs.imp
    {other : Realm}
    {later : Sizes}
    {forms : List Form}
    (belong : Form.EachBelongs realm size forms)
    (keeps : ∀ {value : Value}, value.Belongs realm size → value.Belongs other later) :
    Form.EachBelongs other later forms :=
  match forms, belong with
  | [], _ => trivial
  | _ :: _, ⟨form, rest⟩ => ⟨Form.Belongs.imp form keeps, Form.EachBelongs.imp rest keeps⟩

end

theorem Form.Belongs.mono
    {later : Sizes}
    {form : Form}
    (belongs : form.Belongs realm size)
    (grown : size ≤ later) :
    form.Belongs realm later :=
  belongs.imp (·.mono grown)

theorem Form.EachBelongs.mono
    {later : Sizes}
    {forms : List Form}
    (belong : Form.EachBelongs realm size forms)
    (grown : size ≤ later) :
    Form.EachBelongs realm later forms :=
  belong.imp (·.mono grown)

/-- Forms belong to the realm one by one. -/
theorem Form.eachBelongs_iff
    {forms : List Form} :
    Form.EachBelongs realm size forms ↔ ∀ form ∈ forms, form.Belongs realm size := by
  induction forms with
  | nil => simp [Form.EachBelongs]
  | cons form rest inductionHypothesis => simp [Form.EachBelongs, inductionHypothesis]

namespace Store.Holds

variable (holds : store.Holds realm size)

include holds

theorem formWithin
    {depth : Nat}
    (belongs : value.Belongs realm size) :
    (store.formWithin depth value).Belongs realm size := by
  induction depth generalizing value with
  | zero => exact belongs
  | succ depth inductionHypothesis =>
      have all {values : List Value} (belong : AllBelong realm size values) :
          Form.EachBelongs realm size (values.map (store.formWithin depth)) := by
        refine Form.eachBelongs_iff.mpr fun form member => ?_
        obtain ⟨inner, isInner, rfl⟩ := List.mem_map.mp member
        exact inductionHypothesis (belong inner isInner)
      unfold Store.formWithin
      split
      · exact belongs
      · exact belongs
      · exact ⟨all (holds.chain belongs).1, inductionHypothesis (holds.chain belongs).2, belongs⟩
      · exact ⟨all (holds.vectorAt belongs), belongs⟩
      · exact ⟨inductionHypothesis (holds.markedAt _), belongs⟩
      · exact belongs

/-- A value of the realm is outlined by parts of the realm. -/
theorem form
    (belongs : value.Belongs realm size) :
    (store.form value).Belongs realm size :=
  holds.formWithin belongs

end Store.Holds

/-! What is added and changed. -/

namespace Store.Holds

variable (holds : store.Holds realm size)

include holds

/-- The address of the next pair is not set apart, for what is set apart is there already. -/
theorem apart_next :
    realm.apart.pairs store.sizes.pairs = none := by
  cases isApart : realm.apart.pairs store.sizes.pairs with
  | none => rfl
  | some pair =>
      have present := holds.apart isApart
      simp [sizes] at present

/-- A vector that is not there yet cannot be set apart. -/
theorem apartVector_next :
    realm.apart.vectors store.sizes.vectors = none := by
  cases isApart : realm.apart.vectors store.sizes.vectors with
  | none => rfl
  | some items =>
      have present := holds.apartVectors isApart
      simp [sizes] at present

/-- A pair that is added may hold what belongs to the realm. -/
theorem pushPair
    {pair : Pair}
    (belongs : pair.Belongs realm size) :
    ({ store with pairs := store.pairs.push pair } : Store).Holds realm size :=
  { holds with
    apart := fun isApart => getElem?_push_of_some (holds.apart isApart)
    pairs := by
      intro address found present outside
      rw [Array.getElem?_push] at present
      split at present
      case isTrue =>
        cases present
        exact belongs
      case isFalse => exact holds.pairs present outside }

/-- A vector that is added may hold what belongs to the realm. -/
theorem pushVector
    {items : Array Value}
    (belong : AllBelong realm size items.toList) :
    ({ store with vectors := store.vectors.push items } : Store).Holds realm size :=
  { holds with
    apartVectors := fun isApart => getElem?_push_of_some (holds.apartVectors isApart)
    vectors := by
      intro address found present outside
      rw [Array.getElem?_push] at present
      split at present
      case isTrue =>
        cases present
        exact belong
      case isFalse => exact holds.vectors present outside }

/-- A pair that is not set apart is changed. -/
theorem modifyPair
    {address : Nat}
    (outside : realm.apart.pairs address = none)
    {change : Pair → Pair}
    (changes : ∀ pair : Pair, pair.Belongs realm size → (change pair).Belongs realm size) :
    ({ store with pairs := store.pairs.modify address change } : Store).Holds realm size :=
  { holds with
    apart := by
      intro other pair isApart
      have different : address ≠ other := by
        rintro rfl
        rw [outside] at isApart
        cases isApart
      rw [Array.getElem?_modify, if_neg different]
      exact holds.apart isApart
    pairs := by
      intro other pair present outsideOther
      rw [Array.getElem?_modify] at present
      split at present
      case isTrue =>
        obtain ⟨before, foundBefore, rfl⟩ := Option.map_eq_some_iff.mp present
        exact changes before (holds.pairs foundBefore outsideOther)
      case isFalse => exact holds.pairs present outsideOther }

/-- A vector that is not set apart is changed. -/
theorem modifyVector
    {address : Nat}
    (outside : realm.apart.vectors address = none)
    {change : Array Value → Array Value}
    (changes :
      ∀ items : Array Value,
        AllBelong realm size items.toList →
        AllBelong realm size (change items).toList) :
    ({ store with vectors := store.vectors.modify address change } : Store).Holds realm size :=
  { holds with
    apartVectors := by
      intro other items isApart
      have different : address ≠ other := by
        rintro rfl
        rw [outside] at isApart
        cases isApart
      rw [Array.getElem?_modify, if_neg different]
      exact holds.apartVectors isApart
    vectors := by
      intro other items present outsideOther
      rw [Array.getElem?_modify] at present
      split at present
      case isTrue =>
        obtain ⟨before, foundBefore, rfl⟩ := Option.map_eq_some_iff.mp present
        exact changes before (holds.vectors foundBefore outsideOther)
      case isFalse => exact holds.vectors present outsideOther }

/-- A frame is changed and goes on binding what it has bound. -/
theorem modifyFrame
    {address : Nat}
    {change : Frame → Frame}
    (changes : ∀ frame : Frame, frame.Belongs realm size → (change frame).Belongs realm size)
    (binds :
      ∀ {name : String},
        ((store.frameAt address).find? name).isSome →
        ((change (store.frameAt address)).find? name).isSome) :
    (store.modifyFrame address change).Holds realm size :=
  { holds with
    frames := forall_mem_modify holds.frames fun frame member =>
        changes frame (holds.frames frame member)
    binds := by
      intro frame name bound
      have before := holds.binds bound
      unfold Store.frameAt at before binds ⊢
      simp only [Store.modifyFrame, Array.getElem?_modify]
      split
      case isTrue same =>
        subst same
        cases found : store.frames[address]? with
        | none => simpa [found] using before
        | some present =>
            rw [found] at before binds
            exact binds before
      case isFalse => exact before }

end Store.Holds

end SmallScheme
