import SmallScheme.Store.Scope
import SmallScheme.Transformer.Capture

namespace SmallScheme

/-!
# Filling templates

A template is copied with its pattern variables replaced by what they captured.  An item before an
ellipsis is filled once for each repetition of its variables.  An identifier that the template does
not bind itself and that the scope of the macro binds becomes a scoped one; every other identifier
stays plain, and so do all of them once the scope of the macro is gone.
-/

/-- What filling a template depends on besides the captures. -/
structure TemplateSetting where
  literals : List String
  /-- The scope of the macro, if it is still there. -/
  home : Option Scope
  /-- The names that the template binds itself. -/
  locals : List String

namespace TemplateSetting

/-- A name with a binding where the macro was made, with that scope. -/
def boundAtHome? (setting : TemplateSetting) (name : String) (store : Store) : Option Scope :=
  setting.home.filter fun home => store.isBound home name

/-- A free identifier of a template. -/
def freeIdentifier
    (setting : TemplateSetting)
    (name : String)
    (value : Value)
    (store : Store) : Value :=
  match value with
  | .scoped _ _ => value
  | _ =>
      if setting.locals.contains name then
        .symbol name
      else
        match setting.boundAtHome? name store with
        | some home => .scoped name home
        | none => .symbol name

end TemplateSetting

namespace Captures

/-- The forms of a group that a lone ellipsis captured. -/
def groupItems : List Capture → StoreM (List Value)
  | [] => return []
  | .one value :: rest => do
      let values ← groupItems rest
      return value :: values
  | _ :: _ => throw (.evaluation .nestedGroup)

/-- The group that a lone ellipsis captured. -/
def group (captures : Captures) : StoreM (List Value) :=
  match captures.lookup Capture.ellipsis with
  | some (.many each) => groupItems each
  | _ => throw (.evaluation .nothingToRepeat)

/-- The variables among the given ones that have repetitions, with these. -/
def repeatedVariables
    (captures : Captures)
    (named : List String) : List (String × Array Capture) :=
  named.filterMap fun name =>
    match captures.lookup name with
    | some (.many each) => some (name, each.toArray)
    | _ => none

/-- The captures of one repetition in front of those of the whole match. -/
def atRepetition
    (captures : Captures)
    (repeated : List (String × Array Capture))
    (index : Nat) : Captures :=
  repeated.map (fun (name, each) => (name, each[index]?.getD (.many []))) ++ captures

end Captures

namespace Form

/-- Fill an item that is followed by an ellipsis. -/
def fillRepeated
    (fill : Captures → StoreM Value)
    (item : Form)
    (literals : List String)
    (captures : Captures) : StoreM (List Value) :=
  match captures.repeatedVariables (item.variables literals []) with
  | [] => do
      let first ← fill captures
      let group ← captures.group
      return first :: group
  | (name, each) :: others =>
      if others.all fun (_, repetitions) => repetitions.size = each.size then
        (List.range each.size).mapM fun index =>
          fill (captures.atRepetition ((name, each) :: others) index)
      else
        StoreM.failTelling item.value fun text => .evaluation (.unevenRepetition text)

mutual

def fill (setting : TemplateSetting) : Form → Captures → StoreM Value
  | .atom value, _ => return value
  | .identifier name value, captures =>
      match captures.lookup name with
      | some (.one captured) => return captured
      | some _ => throw (.evaluation (.variableDepth name))
      | none => StoreM.view (setting.freeIdentifier name value)
  | .list items tail _, captures => do
      let items ← fillItems setting items captures
      let tail ← fill setting tail captures
      StoreM.change (Store.newListWithTail items tail)
  | .vector items _, captures => do
      let items ← fillItems setting items captures
      StoreM.change (Store.newVector items.toArray)
  | .marked mark inner _, captures => do
      let inner ← fill setting inner captures
      StoreM.change (Store.newMarked mark inner)

/-- Fill the items of a list or vector template. -/
def fillItems (setting : TemplateSetting) : List Form → Captures → StoreM (List Value)
  | [], _ => return []
  | [item], captures =>
      if item.isNamed Capture.ellipsis then
        captures.group
      else do
        let filled ← fill setting item captures
        return [filled]
  | item :: next :: rest, captures =>
      if item.isNamed Capture.ellipsis then do
        let group ← captures.group
        let others ← fillItems setting (next :: rest) captures
        return group ++ others
      else if next.isNamed Capture.ellipsis then do
        let filled ←
          fillRepeated (fun captures => fill setting item captures) item setting.literals captures
        let others ← fillItems setting rest captures
        return filled ++ others
      else do
        let filled ← fill setting item captures
        let others ← fillItems setting (next :: rest) captures
        return filled :: others

end

/-- Put the name of an identifier after the names found before, once. -/
def addBinder (found : List String) (form : Form) : List String :=
  match form.identifier? with
  | some name => if found.contains name then found else found ++ [name]
  | none => found

/-- The names in a parameter form, put after those found before. -/
def addFormals (found : List String) (formals : Form) : List String :=
  match formals with
  | .list items tail _ => addBinder (items.foldl addBinder found) tail
  | _ => addBinder found formals

/-- The name that one binding of a block binds. -/
def addBinding (found : List String) (binding : Form) : List String :=
  match binding with
  | .list (name :: _) _ _ => addBinder found name
  | _ => addBinder found binding

/-- The names in the bindings of a block, put after those found before. -/
def addBindings (found : List String) (bindings : Form) : List String :=
  match bindings with
  | .list items _ _ => items.foldl addBinding found
  | _ => found

/-- The names that a list binds by its own keyword. -/
def addOwnBinders (found : List String) (items : List Form) : List String :=
  match items with
  | head :: first :: rest =>
      match head.identifier? with
      | some "lambda" => addFormals found first
      | some "define" => addFormals found first
      | some keyword =>
          if ["let", "let*", "letrec", "letrec*"].contains keyword then
            match first.identifier?, rest with
            | some _, bindings :: _ => addBindings (addBinder found first) bindings
            | some _, [] => addBinder found first
            | none, _ => addBindings found first
          else
            found
      | none => found
  | _ => found

mutual

/-- The names that the lists of a template bind, put after those found before. -/
def binders (found : List String) : Form → List String
  | .list items tail _ => binders (allBinders (addOwnBinders found items) items) tail
  | _ => found

def allBinders (found : List String) : List Form → List String
  | [] => found
  | form :: rest => allBinders (binders found form) rest

end

end Form

end SmallScheme
