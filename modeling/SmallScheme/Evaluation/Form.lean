import SmallScheme.Evaluation.Application

namespace SmallScheme

/-!
# Evaluating forms

What one form does, up to its tail position.  Identifiers are looked up, lists are applied, marked
forms are quoted, vectors are copied with their inner forms evaluated, and everything else is its
own value.
-/

namespace Evaluation

open Script

/-- The items of a vector that are forms with parts of their own. -/
def hasParts : Value → Bool
  | .pair _ => true
  | .vector _ => true
  | .marked _ _ => true
  | _ => false

/-- The items of a vector with inner forms evaluated, put after the reversed list `sofar`. -/
def vectorItems (scope : Scope) (sofar : List Value) : List Value → Script (List Value)
  | [] => return sofar.reverse
  | item :: rest => do
      let value ← if hasParts item then evaluate scope item else pure item
      vectorItems scope (value :: sofar) rest

def vector (scope : Scope) (address : Nat) : Script Step := do
  let items ← view fun store => (store.vectorAt address).toList
  let values ← vectorItems scope [] items
  answerFresh (Store.newVector values.toArray)

/-- Evaluate a marked form. -/
def marked (scope : Scope) (form : Value) (mark : Mark) (address : Nat) : Script Step :=
  match mark with
  | .quote => answerFresh fun store => store.quoteValue (store.markedAt address)
  | .quasiquote => do
      let template ← view fun store => store.markedAt address
      answer (← Quasiquotation.value scope template)
  | .unquote => outside
  | .unquoteSplicing => outside
where
  /-- There is no quasiquotation around the form. -/
  outside : Script Step :=
    failTelling form fun text => .evaluation (.outsideQuasiquote text)

/-- Evaluate a form up to its tail position. -/
def script (host : Host) (scope : Scope) (form : Value) : Script Step :=
  match form with
  | .symbol name => do answer (← nameValue host scope name)
  | .scoped name home => do answer (← scopedNameValue host scope home name)
  | .vector address => vector scope address
  | .marked mark address => marked scope form mark address
  | .program address => do
      let forms ← view fun store => store.programAt address
      body scope forms
  | .pair address => Application.script host scope address
  | _ => answer form

end Evaluation

end SmallScheme
