import SmallScheme.Store.Equality
import SmallScheme.Transformer.Capture

namespace SmallScheme

/-!
# Matching patterns

A pattern is a form.  An identifier in it is a literal that matches itself, the wildcard, or a
variable that captures what it meets.  In a list or a vector one item may be followed by an
ellipsis: it matches as many forms as the other items leave over.  Everything else matches what is
equal to it.
-/

/-- What an item of a pattern is matched against. -/
inductive Assignment
  | single (form : Value)
  | repeated (forms : List Value)
  | ignored

/-- How the items of a pattern are laid over the items of a form. -/
structure Overlay where
  /-- Items that match one form each. -/
  singles : List Assignment
  /-- The item before an ellipsis. -/
  repetition : List Assignment
  /-- What is left for the tail of the pattern. -/
  remainder : Option (List Value × Value)
  /-- The whole group that a lone ellipsis captures. -/
  group : Option (List Value)

namespace Overlay

/-- The position of the first ellipsis. -/
def ellipsisIndex? (patterns : List Form) : Option Nat :=
  patterns.findIdx? fun pattern => pattern.isNamed Capture.ellipsis

/-- Lay a pattern without an ellipsis over a form. -/
def plain?
    (patterns : List Form)
    (closed : Bool)
    (forms : List Value)
    (ending : Value) : Option Overlay :=
  if closed then
    if forms.length = patterns.length && ending.isNil then
      some ⟨forms.map .single, [], none, none⟩
    else
      none
  else if forms.length < patterns.length then
    none
  else
    some
      ⟨(forms.take patterns.length).map .single, [],
        some (forms.drop patterns.length, ending), none⟩

/-- Lay a pattern with its first ellipsis at an index over a form. -/
def repeating?
    (patterns : List Form)
    (index : Nat)
    (forms : List Value) : Option Overlay :=
  let before := index - 1
  let after := patterns.drop (index + 1)
  if index = 0 then
    if patterns.length = 1 then some ⟨[], [], none, some forms⟩ else none
  else if forms.length < before + after.length || (ellipsisIndex? after).isSome then
    none
  else
    let middle := forms.length - after.length - before
    let skipped := List.replicate before Assignment.ignored
    some
      ⟨(forms.take before).map .single ++ [.ignored, .ignored] ++
          (forms.drop (before + middle)).map .single,
        skipped ++ [.repeated ((forms.drop before).take middle)], none, none⟩

/-- Lay the items of a pattern over the items of a form. -/
def of?
    (patterns : List Form)
    (closed : Bool)
    (forms : List Value)
    (ending : Value) : Option Overlay :=
  match ellipsisIndex? patterns with
  | none => plain? patterns closed forms ending
  | some index => if closed && ending.isNil then repeating? patterns index forms else none

end Overlay

namespace Form

/-- What a variable captured in one repetition; a variable that met nothing has no repetitions. -/
def repetitionCapture (name : String) (captures : Captures) : Capture :=
  (captures.lookup name).getD (.many [])

/-- Collect the captures of all repetitions, variable by variable. -/
def collectRepetitions
    (repeated : List String)
    (repetitions : List Captures)
    (captures : Captures) : Captures :=
  repeated.foldl
    (fun captures name => (name, .many (repetitions.map (repetitionCapture name))) :: captures)
    captures

/-- Match the tail of a pattern against what is left of a list. -/
def matchRemainder
    (matchForm : Value → Captures → Option Captures)
    (literals : List String)
    (pattern : Form)
    (items : List Value)
    (ending : Value)
    (captures : Captures) : Option Captures :=
  if items.isEmpty then
    matchForm ending captures
  else
    match pattern.identifier? with
    | none => none
    | some name =>
        if name = Capture.wildcard then
          some captures
        else if literals.contains name then
          none
        else
          some ((name, .rest items ending) :: captures)

/-- Match the items of a pattern as they are laid over forms, single items first, then the tail. -/
def matchOverlay
    (matchAssigned : List Assignment → Captures → Option Captures)
    (matchTail : List Value → Value → Captures → Option Captures)
    (overlay : Overlay)
    (captures : Captures) : Option Captures :=
  match overlay.group with
  | some forms => some ((Capture.ellipsis, .many (forms.map .one)) :: captures)
  | none => do
      let captures ← matchAssigned overlay.singles captures
      let captures ←
        match overlay.remainder with
        | none => some captures
        | some (items, ending) => matchTail items ending captures
      matchAssigned overlay.repetition captures

/-- The items and the tail of a list, empty or not. -/
def listParts? (store : Store) (form : Value) : Option (List Value × Value) :=
  match form with
  | .pair _ => some (store.chain form)
  | .nil => some ([], .nil)
  | _ => none

mutual

/-- Match a pattern against a form, adding to the captures. -/
def matchForm
    (store : Store)
    (literals : List String) : Form → Value → Captures → Option Captures
  | .identifier name _, form, captures =>
      if name = Capture.wildcard then
        some captures
      else if literals.contains name then
        if form.isNamed name then some captures else none
      else
        some ((name, .one form) :: captures)
  | .list patterns tail _, form, captures => do
      let (forms, ending) ← listParts? store form
      let overlay ← Overlay.of? patterns tail.isNil forms ending
      matchOverlay
        (fun assignments captures =>
          matchAssigned store literals patterns assignments captures)
        (fun items ending captures =>
          matchRemainder (fun form captures => matchForm store literals tail form captures)
            literals tail items ending captures)
        overlay captures
  | .vector patterns _, form, captures =>
      match form with
      | .vector address => do
          let overlay ← Overlay.of? patterns true (store.vectorAt address).toList .nil
          matchOverlay
            (fun assignments captures =>
              matchAssigned store literals patterns assignments captures)
            (fun _ _ _ => none)
            overlay captures
      | _ => none
  | .atom value, form, captures => if store.equal value form then some captures else none
  | .marked _ _ value, form, captures => if store.equal value form then some captures else none

/-- Match each pattern against what is assigned to it. -/
def matchAssigned
    (store : Store)
    (literals : List String) : List Form → List Assignment → Captures → Option Captures
  | pattern :: patterns, assignment :: assignments, captures =>
      match assignment with
      | .ignored => matchAssigned store literals patterns assignments captures
      | .single form => do
          let captures ← matchForm store literals pattern form captures
          matchAssigned store literals patterns assignments captures
      | .repeated forms => do
          let repetitions ← forms.mapM fun form => matchForm store literals pattern form []
          let captures :=
            collectRepetitions (pattern.variables literals []) repetitions captures
          matchAssigned store literals patterns assignments captures
  | _, _, captures => some captures

end

end Form

end SmallScheme
