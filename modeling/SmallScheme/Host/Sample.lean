import SmallScheme.Primitive.Signature
import SmallScheme.Script.Basic

namespace SmallScheme.Host

/-!
# A sample host

A small host that uses all the ways in which a host can take part: values and objects for free
names, members, typed functions and special forms.
-/

namespace Sample

/-- The integer that stands for an operand count, and minus one for none. -/
def hint (operandCount : Option Nat) : Value :=
  match operandCount with
  | some count => .ofNat count
  | none => .integer (-1)

/-- A fresh object of the host. -/
def object (name : String) (content : Value) : StoreM (Option Value) := do
  let value ← StoreM.change (Store.newForeign ⟨name, content⟩)
  return some value

def texts : List String → StoreM (List Value)
  | [] => return []
  | text :: rest => do
      let value ← StoreM.change (Store.newText text)
      let values ← texts rest
      return value :: values

def list (items : List Value) : StoreM Value :=
  StoreM.change (Store.newList items)

/-- The values of free names. -/
def resolve
    (name : String)
    (operandCount : Option Nat)
    (namespaces : List String) : StoreM (Option Value) :=
  match name with
  | "host-arity" => return some (hint operandCount)
  | "host-namespaces" => do
      let names ← list (← texts namespaces)
      return some names
  | "host-list" => object name .nil
  | "host-arity-fn" => object name (hint operandCount)
  | "host-fail" => object name .nil
  | "host-raise" => object name .nil
  | "Greet" => if namespaces.contains "Demo" then object name .nil else return none
  | _ => return none

/-- How many operands a call had. -/
def countText (operands : List Value) : String :=
  Nat.repr operands.length ++ " args"

def invoke (member : String) (operands : List Value) : StoreM Value :=
  if member = "Fail" then
    throw (.interop ("member Fail with " ++ countText operands))
  else do
    let text ← StoreM.change (Store.newText member)
    list (text :: operands)

def call (object : ForeignObject) (operands : List Value) : StoreM Value :=
  match object.name with
  | "host-arity-fn" => list (object.content :: operands)
  | "host-fail" => throw (.interop ("failed with " ++ countText operands))
  | "host-raise" => do throw (.raised (← list operands))
  | "Greet" => return .ofNat operands.length
  | _ => list operands

/-- The sum of two integers. -/
def sum (first second : Int64) : StoreM Value :=
  match word? (first.toInt + second.toInt) with
  | some total => return .integer total
  | none => throw (.evaluation (.foreign "add2 overflow"))

def function (name : String) : List Value → StoreM Value :=
  match name with
  | "host-zero" => Signature.adapt ⟨[], none⟩ (return .unspecified)
  | "host-add2" => Signature.adapt ⟨[.integer, .integer], none⟩ sum
  | "host-not" => Signature.adapt ⟨[.boolean], none⟩ fun value => return .boolean !value
  | "host-pick" =>
      Signature.adapt ⟨[.index, .textObject, .symbol], none⟩ fun index text name =>
        list [.ofNat index, .text text, .symbol name]
  | "host-scale" =>
      Signature.adapt ⟨[.number], some .number⟩ fun factor numbers =>
        list (numbers.map fun number => .real (factor.toReal * number.toReal))
  | "host-join" =>
      Signature.adapt ⟨[.text, .text], some .text⟩ fun separator ending texts =>
        StoreM.change (Store.newText (separator.intercalate texts ++ ending))
  | "host-byte-sum" =>
      Signature.adapt ⟨[], some .byte⟩ fun bytes =>
        return .ofNat ((bytes.map UInt8.toNat).foldl Nat.add 0)
  | "host-backwards" => Signature.adapt ⟨[], some .any⟩ fun items => list items.reverse
  | _ => fun _ => throw (.interop name)

/-- The texts of operands as they are written. -/
def writings : List Value → Script (List String)
  | [] => return []
  | operand :: rest => do
      let text ← Script.writing operand
      let texts ← writings rest
      return text :: texts

def form (name : String) (scope : Scope) (operands : List Value) : Script Step :=
  match name with
  | "host-raw" => do
      let shown ← writings operands
      Script.answer (← Script.perform (texts shown >>= list))
  | "host-last" =>
      match operands.getLast? with
      | some last => Script.defer (.tail scope last)
      | none => Script.refuseCount 1 0
  | _ => Script.fail (.interop name)

/-- A function under its name. -/
def functionBinding (name : String) (arity : Arity) : String × Value :=
  (name, .primitive (.foreign name arity))

/-- A special form under its name. -/
def formBinding (name : String) (arity : Arity) : String × Value :=
  (name, .special (.foreign name arity))

/-- The functions and special forms, in the order in which they are registered. -/
def bindings : List (String × Value) :=
  [functionBinding "host-zero" .any,
    functionBinding "host-add2" .any,
    functionBinding "host-not" .any,
    functionBinding "host-pick" .any,
    functionBinding "host-scale" .any,
    functionBinding "host-join" (.between 2 5),
    functionBinding "host-byte-sum" (.atLeast 1),
    functionBinding "host-backwards" (.exactly 3),
    formBinding "host-raw" .any,
    formBinding "host-last" (.atLeast 1)]

/-- The scope lies inside another one or is that itself. -/
def isInside (scope outer : Scope) : Bool :=
  scope.frame = outer.frame || scope.outer.contains outer.frame

/--
A scope is there still where it is used, inside another level of nesting, and as long as it is the
root, the scope of programs or around a procedure.
-/
def holds
    (store : Store)
    (_ : Context)
    (depth : Nat)
    (scope home : Scope) : Bool :=
  1 < depth || home.frame ≤ 1 || isInside scope home ||
    store.procedures.any fun procedure => isInside procedure.scope home

end Sample

/-- The functions, special forms and memory of the sample host, without anything for free names. -/
def registering : Host :=
  { Host.absent with function := Sample.function, form := Sample.form, holds := Sample.holds }

def sample : Host where
  resolve := Sample.resolve
  invoke := Sample.invoke
  call := Sample.call
  function := Sample.function
  form := Sample.form
  engine := .plain
  holds := Sample.holds

/-- Texts that are read outside a session are read with the engine of the sample hosts. -/
instance : Regex.Engine := .plain

end SmallScheme.Host
