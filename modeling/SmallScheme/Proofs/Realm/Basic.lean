import Mathlib.Order.Basic
import SmallScheme.Evaluation.Machine

namespace SmallScheme

/-!
# Realms

Some pairs and vectors may be set apart from everything else: whoever can reach only what belongs to
the realm outside never meets them, and cannot change them.  What belongs to the realm may depend on
how many pairs and vectors there are, for new ones are added all the time, but it never ceases to
belong.  A realm also says what has to stay as it is outside: names that frames go on binding, and
perhaps parameters.
-/

/-- How many pairs and how many vectors there are. -/
@[ext]
structure Sizes where
  pairs : Nat
  vectors : Nat

instance : Preorder Sizes where
  le first second := first.pairs ≤ second.pairs ∧ first.vectors ≤ second.vectors
  le_refl size := ⟨Nat.le_refl _, Nat.le_refl _⟩
  le_trans first second third earlier later :=
    ⟨Nat.le_trans earlier.1 later.1, Nat.le_trans earlier.2 later.2⟩

def Store.sizes (store : Store) : Sizes :=
  ⟨store.pairs.size, store.vectors.size⟩

/-- Pairs and vectors that are set apart, with what they hold. -/
structure Apart where
  pairs : Nat → Option Pair
  vectors : Nat → Option (Array Value)

/-- Nothing is set apart. -/
def Apart.nothing : Apart :=
  ⟨fun _ => none, fun _ => none⟩

/-- What is set apart, what belongs to the realm outside, and what stays as it is there. -/
structure Realm where
  /-- The pairs and vectors that are set apart. -/
  apart : Apart
  /-- When there are so many pairs and vectors, the pair at the address belongs to the realm. -/
  owns : Sizes → Nat → Prop
  /-- When there are so many pairs and vectors, the vector at the address belongs to the realm. -/
  ownsVector : Sizes → Nat → Prop
  /-- Parameters go on holding what they hold. -/
  steady : Prop
  /-- The frame goes on binding the name. -/
  binds : Nat → String → Prop
  owns_next :
    ∀ {size : Sizes},
      apart.pairs size.pairs = none → owns ⟨size.pairs + 1, size.vectors⟩ size.pairs
  owns_mono : ∀ {size later address}, owns size address → size ≤ later → owns later address
  not_apart : ∀ {size address}, owns size address → apart.pairs address = none
  ownsVector_next :
    ∀ {size : Sizes},
      apart.vectors size.vectors = none → ownsVector ⟨size.pairs, size.vectors + 1⟩ size.vectors
  ownsVector_mono :
    ∀ {size later address}, ownsVector size address → size ≤ later → ownsVector later address
  vector_not_apart : ∀ {size address}, ownsVector size address → apart.vectors address = none

namespace Realm

/-- The realm that everything belongs to, in which parameters go on holding what they hold. -/
def whole : Realm where
  apart := .nothing
  owns _ _ := True
  ownsVector _ _ := True
  steady := True
  binds _ _ := False
  owns_next _ := trivial
  owns_mono _ _ := trivial
  not_apart _ := rfl
  ownsVector_next _ := trivial
  ownsVector_mono _ _ := trivial
  vector_not_apart _ := rfl

end Realm

/-! What belongs to the realm when there are so many pairs and vectors. -/

/-- The value is no pair and no vector that does not belong to the realm. -/
def Value.Belongs (realm : Realm) (size : Sizes) : Value → Prop
  | .pair address => realm.owns size address
  | .vector address => realm.ownsVector size address
  | _ => True

/-- All the values belong to the realm. -/
def AllBelong (realm : Realm) (size : Sizes) (values : List Value) : Prop :=
  ∀ value ∈ values, value.Belongs realm size

def Fault.Belongs (realm : Realm) (size : Sizes) : Fault → Prop
  | .raised value => value.Belongs realm size
  | _ => True

def Unwind.Belongs (realm : Realm) (size : Sizes) : Unwind → Prop
  | .fault cause => cause.Belongs realm size
  | .escape _ value => value.Belongs realm size

def Step.Belongs (realm : Realm) (size : Sizes) : Step → Prop
  | .value result => result.Belongs realm size
  | .tail _ form => form.Belongs realm size
  | .apply callee operands => callee.Belongs realm size ∧ AllBelong realm size operands
  | .expand _ form => form.Belongs realm size

def Request.Belongs (realm : Realm) (size : Sizes) : Request → Prop
  | .evaluate _ form => form.Belongs realm size
  | .call callee operands => callee.Belongs realm size ∧ AllBelong realm size operands
  | .finish step => step.Belongs realm size
  | .reach _ _ => True
  | .endless => True

def Context.Belongs (realm : Realm) (size : Sizes) (context : Context) : Prop :=
  AllBelong realm size context.handlers

def Pair.Belongs (realm : Realm) (size : Sizes) (pair : Pair) : Prop :=
  pair.head.Belongs realm size ∧ pair.tail.Belongs realm size

def Frame.Belongs (realm : Realm) (size : Sizes) (frame : Frame) : Prop :=
  ∀ binding ∈ frame.bindings, binding.2.Belongs realm size

def Rule.Belongs (realm : Realm) (size : Sizes) (rule : Rule) : Prop :=
  rule.pattern.Belongs realm size ∧ rule.template.Belongs realm size

def Parameter.Belongs (realm : Realm) (size : Sizes) (parameter : Parameter) : Prop :=
  parameter.value.Belongs realm size ∧
    ∀ converter, parameter.converter = some converter → converter.Belongs realm size

/-- What is not set apart holds what belongs to the realm, and what has to stay has stayed. -/
structure Store.Holds (realm : Realm) (size : Sizes) (store : Store) : Prop where
  apart :
    ∀ {address : Nat} {pair : Pair},
      realm.apart.pairs address = some pair → store.pairs[address]? = some pair
  apartVectors :
    ∀ {address : Nat} {items : Array Value},
      realm.apart.vectors address = some items → store.vectors[address]? = some items
  pairs :
    ∀ {address : Nat} {pair : Pair},
      store.pairs[address]? = some pair →
      realm.apart.pairs address = none →
      pair.Belongs realm size
  vectors :
    ∀ {address : Nat} {items : Array Value},
      store.vectors[address]? = some items →
      realm.apart.vectors address = none →
      AllBelong realm size items.toList
  marked : ∀ inner ∈ store.marked, inner.Belongs realm size
  programs : ∀ forms ∈ store.programs, AllBelong realm size forms
  frames : ∀ frame ∈ store.frames, frame.Belongs realm size
  procedures : ∀ procedure ∈ store.procedures, AllBelong realm size procedure.body
  transformers :
    ∀ transformer ∈ store.transformers, ∀ rule ∈ transformer.rules, rule.Belongs realm size
  parameters : ∀ parameter ∈ store.parameters, parameter.Belongs realm size
  conditions : ∀ condition ∈ store.conditions, AllBelong realm size condition.irritants
  foreigns : ∀ object ∈ store.foreigns, object.content.Belongs realm size
  binds :
    ∀ {frame : Nat} {name : String},
      realm.binds frame name → ((store.frameAt frame).find? name).isSome

/-- The store holds what belongs to the realm, and has at least so many pairs and vectors. -/
structure Store.Reaches (realm : Realm) (size : Sizes) (store : Store) : Prop where
  grown : size ≤ store.sizes
  holds : store.Holds realm store.sizes

/-- The store has come of an earlier one within the realm, and what has to stay has stayed. -/
structure Store.Follows (realm : Realm) (before after : Store) : Prop where
  grown : before.sizes ≤ after.sizes
  holds : after.Holds realm after.sizes
  steady :
    realm.steady →
    ∀ {address : Nat} {parameter : Parameter},
      before.parameters[address]? = some parameter → after.parameters[address]? = some parameter

/-- An answer is fine, or the reason for which there is none belongs to the realm. -/
def Outcome
    {Answer : Type}
    (realm : Realm)
    (fine : Sizes → Answer → Prop)
    (size : Sizes) : Except Unwind Answer → Prop
  | .ok answer => fine size answer
  | .error reason => reason.Belongs realm size

section Later

variable
  {realm : Realm}
  {size later : Sizes}

/-- What belongs to the realm goes on belonging to it. -/
theorem Value.Belongs.mono
    {value : Value}
    (belongs : value.Belongs realm size)
    (grown : size ≤ later) :
    value.Belongs realm later := by
  cases value with
  | pair address => exact realm.owns_mono belongs grown
  | vector address => exact realm.ownsVector_mono belongs grown
  | _ => trivial

/-- Values go on belonging to the realm when the store grows. -/
theorem AllBelong.mono
    {values : List Value}
    (belong : AllBelong realm size values)
    (grown : size ≤ later) :
    AllBelong realm later values :=
  fun value member => (belong value member).mono grown

/-- A fault goes on belonging to the realm when the store grows. -/
theorem Fault.Belongs.mono
    {fault : Fault}
    (belongs : fault.Belongs realm size)
    (grown : size ≤ later) :
    fault.Belongs realm later := by
  cases fault with
  | raised value => exact Value.Belongs.mono belongs grown
  | _ => trivial

/-- A reason to unwind goes on belonging to the realm when the store grows. -/
theorem Unwind.Belongs.mono
    {reason : Unwind}
    (belongs : reason.Belongs realm size)
    (grown : size ≤ later) :
    reason.Belongs realm later := by
  cases reason with
  | fault cause => exact Fault.Belongs.mono belongs grown
  | escape identity value => exact Value.Belongs.mono belongs grown

/-- An outcome of the realm stays one. -/
theorem Outcome.mono
    {result : Except Unwind Value}
    (outcome : Outcome realm (Value.Belongs realm) size result)
    (grown : size ≤ later) :
    Outcome realm (Value.Belongs realm) later result := by
  cases result with
  | ok value => exact Value.Belongs.mono outcome grown
  | error reason => exact Unwind.Belongs.mono outcome grown

/-- The surroundings go on belonging to the realm when the store grows. -/
theorem Context.Belongs.mono
    {context : Context}
    (belongs : context.Belongs realm size)
    (grown : size ≤ later) :
    context.Belongs realm later :=
  AllBelong.mono belongs grown

/-- A pair goes on belonging to the realm when the store grows. -/
theorem Pair.Belongs.mono
    {pair : Pair}
    (belongs : pair.Belongs realm size)
    (grown : size ≤ later) :
    pair.Belongs realm later :=
  ⟨belongs.1.mono grown, belongs.2.mono grown⟩

/-- With other pairs and vectors, a store holds what belongs to a realm that has all of it. -/
theorem Store.Holds.transfer
    {other : Realm}
    {store : Store}
    {pairs : Array Pair}
    {vectors : Array (Array Value)}
    (holds : store.Holds realm size)
    (values : ∀ {value : Value}, value.Belongs realm size → value.Belongs other later)
    (apart :
      ∀ {address : Nat} {pair : Pair},
        other.apart.pairs address = some pair → pairs[address]? = some pair)
    (apartVectors :
      ∀ {address : Nat} {items : Array Value},
        other.apart.vectors address = some items → vectors[address]? = some items)
    (otherPairs :
      ∀ {address : Nat} {pair : Pair},
        pairs[address]? = some pair →
        other.apart.pairs address = none →
        pair.Belongs other later)
    (otherVectors :
      ∀ {address : Nat} {items : Array Value},
        vectors[address]? = some items →
        other.apart.vectors address = none →
        AllBelong other later items.toList)
    (binds : ∀ {frame : Nat} {name : String}, other.binds frame name → realm.binds frame name) :
    ({ store with pairs := pairs, vectors := vectors } : Store).Holds other later where
  apart := apart
  apartVectors := apartVectors
  pairs := otherPairs
  vectors := otherVectors
  marked inner member := values (holds.marked inner member)
  programs forms member value inForms := values (holds.programs forms member value inForms)
  frames frame member binding bound := values (holds.frames frame member binding bound)
  procedures procedure member value inBody :=
    values (holds.procedures procedure member value inBody)
  transformers transformer member rule isRule :=
    (holds.transformers transformer member rule isRule).imp values values
  parameters parameter member :=
    (holds.parameters parameter member).imp values fun each converter isConverter =>
      values (each converter isConverter)
  conditions condition member value inCondition :=
    values (holds.conditions condition member value inCondition)
  foreigns object member := values (holds.foreigns object member)
  binds := holds.binds ∘ binds

/-- A store that holds what belongs to the realm goes on doing so. -/
theorem Store.Holds.mono
    {store : Store}
    (holds : store.Holds realm size)
    (grown : size ≤ later) :
    store.Holds realm later :=
  holds.transfer (·.mono grown) holds.apart holds.apartVectors
    (fun found outside => (holds.pairs found outside).mono grown)
    (fun found outside => (holds.vectors found outside).mono grown) id

/-- A store with more objects has at least as many as before. -/
theorem Store.Reaches.mono
    {store : Store}
    (reaches : store.Reaches realm later)
    (grown : size ≤ later) :
    store.Reaches realm size :=
  ⟨le_trans grown reaches.grown, reaches.holds⟩

end Later

namespace Store

variable
  {realm : Realm}
  {size : Sizes}
  {before between after : Store}

/-- A store that reaches a size reaches its own. -/
theorem Reaches.self
    (reaches : before.Reaches realm size) :
    before.Reaches realm before.sizes :=
  ⟨le_refl _, reaches.holds⟩

/-- A store that holds the realm follows itself. -/
theorem Reaches.follows
    (reaches : before.Reaches realm size) :
    Follows realm before before :=
  ⟨le_refl _, reaches.holds, fun _ => id⟩

/-- What follows a store that follows another follows that one. -/
theorem Follows.trans
    (first : Follows realm before between)
    (second : Follows realm between after) :
    Follows realm before after where
  grown := le_trans first.grown second.grown
  holds := second.holds
  steady isSteady := second.steady isSteady ∘ first.steady isSteady

/-- A store that follows another reaches its own size. -/
theorem Follows.reaches
    (follows : Follows realm before after) :
    after.Reaches realm after.sizes :=
  ⟨le_refl _, follows.holds⟩

end Store

/-! Lists of values. -/

namespace AllBelong

variable
  {realm : Realm}
  {size : Sizes}
  {value : Value}
  {values others : List Value}

/-- No values all belong to the realm. -/
theorem nil : AllBelong realm size [] :=
  fun _ member => nomatch member

/-- A value and the others belong together. -/
theorem cons
    (belongs : value.Belongs realm size)
    (belong : AllBelong realm size values) :
    AllBelong realm size (value :: values) :=
  List.forall_mem_cons.mpr ⟨belongs, belong⟩

/-- The first of the values belongs to the realm. -/
theorem head
    (belong : AllBelong realm size (value :: values)) :
    value.Belongs realm size :=
  belong value List.mem_cons_self

/-- The other values belong to the realm. -/
theorem tail
    (belong : AllBelong realm size (value :: values)) :
    AllBelong realm size values :=
  fun other member => belong other (List.mem_cons_of_mem _ member)

/-- The values of two lists belong together. -/
theorem append
    (first : AllBelong realm size values)
    (second : AllBelong realm size others) :
    AllBelong realm size (values ++ others) :=
  List.forall_mem_append.mpr ⟨first, second⟩

/-- The order of the values makes no difference. -/
theorem reverse
    (belong : AllBelong realm size values) :
    AllBelong realm size values.reverse :=
  fun value member => belong value (List.mem_reverse.mp member)

/-- Some of the values, in whatever order. -/
theorem of_subset
    (belong : AllBelong realm size values)
    (included : others ⊆ values) :
    AllBelong realm size others :=
  fun value member => belong value (included member)

end AllBelong

end SmallScheme
