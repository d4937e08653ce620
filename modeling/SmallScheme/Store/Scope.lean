import SmallScheme.Store.Basic

namespace SmallScheme

/-!
# Scopes

A scope is a chain of frames.  A name means the binding in the innermost frame that has one.  A
frame binds each name at most once, a binding can be assigned but never removed, and the bindings
of the root cannot be assigned.  A new frame starts with the namespaces of the scope around it.
-/

namespace Scope

/-- The frames of a scope, innermost first. -/
def frames (scope : Scope) : List Nat :=
  scope.frame :: scope.outer

def isRoot (scope : Scope) : Bool :=
  scope.outer.isEmpty

def parent? (scope : Scope) : Option Scope :=
  match scope.outer with
  | [] => none
  | frame :: outer => some ⟨frame, outer⟩

end Scope

namespace Frame

/-- The value that the frame binds to a name. -/
def find? (frame : Frame) (name : String) : Option Value :=
  frame.bindings.lookup name

/-- The frame with one more binding. -/
def bind (frame : Frame) (name : String) (value : Value) : Frame :=
  { frame with bindings := (name, value) :: frame.bindings }

/-- Replace the first binding of a name. -/
def replaceBinding
    (name : String)
    (value : Value) : List (String × Value) → List (String × Value)
  | [] => []
  | (bound, present) :: rest =>
      if bound = name then
        (bound, value) :: rest
      else
        (bound, present) :: replaceBinding name value rest

/-- The frame with another value for a name that it binds. -/
def assign (frame : Frame) (name : String) (value : Value) : Frame :=
  { frame with bindings := replaceBinding name value frame.bindings }

/-- The names that the frame binds, in the order of their code points. -/
def names (frame : Frame) : List String :=
  (frame.bindings.map Prod.fst).mergeSort

end Frame

namespace Store

def frameAt (store : Store) (address : Nat) : Frame :=
  store.frames[address]?.getD default

/-- Add a frame and give its address. -/
def newFrame (frame : Frame) (store : Store) : Nat × Store :=
  (store.frames.size, { store with frames := store.frames.push frame })

/-- Add a scope without a scope around it. -/
def newRoot (store : Store) : Scope × Store :=
  let (address, store) := store.newFrame ⟨[], []⟩
  (⟨address, []⟩, store)

/-- Add a scope inside another one. -/
def newChild (scope : Scope) (store : Store) : Scope × Store :=
  let namespaces := (store.frameAt scope.frame).namespaces
  let (address, store) := store.newFrame ⟨[], namespaces⟩
  (⟨address, scope.frames⟩, store)

/-- The value of a name in the first of the frames that binds it. -/
def lookupIn (store : Store) (name : String) : List Nat → Option Value
  | [] => none
  | frame :: outer =>
      match (store.frameAt frame).find? name with
      | some value => some value
      | none => lookupIn store name outer

/-- The value of a name in a scope. -/
def lookup? (store : Store) (scope : Scope) (name : String) : Option Value :=
  store.lookupIn name scope.frames

def isBound (store : Store) (scope : Scope) (name : String) : Bool :=
  (store.lookup? scope name).isSome

/-- The part of a chain of frames that starts with the first frame that binds the name. -/
def holderIn (store : Store) (name : String) : List Nat → Option Scope
  | [] => none
  | frame :: outer =>
      match (store.frameAt frame).find? name with
      | some _ => some ⟨frame, outer⟩
      | none => holderIn store name outer

/-- Change the frame at an address. -/
def modifyFrame (address : Nat) (change : Frame → Frame) (store : Store) : Store :=
  { store with frames := store.frames.modify address change }

/-- Bind a name in the innermost frame of a scope, which must not bind it yet. -/
def define (scope : Scope) (name : String) (value : Value) : StoreM Unit :=
  fun store =>
    match (store.frameAt scope.frame).find? name with
    | some _ => (.error (.duplicateDefinition name), store)
    | none => (.ok (), store.modifyFrame scope.frame fun frame => frame.bind name value)

/-- Assign the nearest binding of a name, which must not be in the root. -/
def assign (scope : Scope) (name : String) (value : Value) : StoreM Unit :=
  fun store =>
    match store.holderIn name scope.frames with
    | none => (.error (.undefinedVariable name), store)
    | some holder =>
        if holder.isRoot then
          (.error (.immutableScope name), store)
        else
          (.ok (), store.modifyFrame holder.frame fun frame => frame.assign name value)

/-- The namespaces that the host searches from a scope, in the order in which they were added. -/
def namespaces (store : Store) (scope : Scope) : List String :=
  (store.frameAt scope.frame).namespaces

/-- Add a namespace to a scope, unless it is there already. -/
def useNamespace (scope : Scope) (name : String) (store : Store) : Store :=
  store.modifyFrame scope.frame fun frame =>
    if frame.namespaces.contains name then
      frame
    else
      { frame with namespaces := frame.namespaces ++ [name] }

/-- The names bound in the innermost frame of a scope, in the order of their code points. -/
def localNames (store : Store) (scope : Scope) : List String :=
  (store.frameAt scope.frame).names

end Store

end SmallScheme
