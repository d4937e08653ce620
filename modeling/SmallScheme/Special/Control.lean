import SmallScheme.Script.Basic
import SmallScheme.Store.Equality
import SmallScheme.Store.Form

namespace SmallScheme.Special

/-!
# Choice, sequence and application

Special forms that decide which of their operands are evaluated.  Each hands over its tail
position, so a loop written with them takes no room.
-/

open Script

/-- One of two branches, or nothing when the second is missing. -/
def conditional (scope : Scope) (operands : List Value) : Script Step :=
  match operands with
  | [test, consequent] => do
      if (← evaluate scope test).isTrue then tail scope consequent else answer .unspecified
  | [test, consequent, alternative] => do
      if (← evaluate scope test).isTrue then tail scope consequent else tail scope alternative
  | _ => refuseCount 3 operands.length

/-- The first false value, or the last form. -/
def conjunction (scope : Scope) : List Value → Script Step
  | [] => refuseCount 2 0
  | [last] => tail scope last
  | form :: rest => do
      if (← evaluate scope form).isTrue then
        conjunction scope rest
      else
        answer (.boolean false)

/-- The first true value, or the last form. -/
def disjunction (scope : Scope) : List Value → Script Step
  | [] => refuseCount 2 0
  | [last] => tail scope last
  | form :: rest => do
      let value ← evaluate scope form
      if value.isTrue then answer value else disjunction scope rest

/-- The parts of a clause, of which there is at least one. -/
def clauseParts (construct : String) (clause : Value) : Script (Value × List Value) := do
  match ← view fun store => store.listItems? clause with
  | some (first :: rest) => return (first, rest)
  | _ =>
      failTelling clause fun text => .evaluation (.malformed (construct ++ " clause") text)

/-- The forms of a clause start with an arrow. -/
def startsWithArrow : List Value → Bool
  | first :: _ => first.isNamed "=>"
  | [] => false

/-- What a chosen clause does with the value it was chosen by. -/
def clauseResult (scope : Scope) (chosen : Value) (forms : List Value) : Script Step :=
  if startsWithArrow forms then
    match forms with
    | [_, receiver] => do
        let receiver ← evaluate scope receiver
        defer (.apply receiver [chosen])
    | _ => fail (.evaluation .arrowForm)
  else
    match forms with
    | [] => answer chosen
    | _ => body scope forms

/-- The first clause whose test is true. -/
def clauses (scope : Scope) : List Value → Script Step
  | [] => fail (.evaluation .noClause)
  | clause :: rest => do
      let (test, forms) ← clauseParts "cond" clause
      if test.isNamed "else" then
        if rest.isEmpty then body scope forms else fail (.evaluation (.elsePlace "cond"))
      else do
        let value ← evaluate scope test
        if value.isTrue then clauseResult scope value forms else clauses scope rest

/-- Some datum of a list is the key. -/
def holdsKey (key : Value) : List Value → StoreM Bool
  | [] => return false
  | datum :: rest => do
      let quoted ← StoreM.change (Store.quoteValue datum)
      if ← StoreM.view fun store => store.identical quoted key then
        return true
      else
        holdsKey key rest

/-- The first clause whose data hold the key. -/
def keyClauses (scope : Scope) (key : Value) : List Value → Script Step
  | [] => answer .unspecified
  | clause :: rest => do
      let (data, forms) ← clauseParts "case" clause
      if data.isNamed "else" then
        if !rest.isEmpty then
          fail (.evaluation (.elsePlace "case"))
        else if startsWithArrow forms then
          clauseResult scope key forms
        else
          body scope forms
      else if ← perform (Store.listItems data >>= holdsKey key) then
        match forms with
        | [] => answer .unspecified
        | _ => clauseResult scope key forms
      else
        keyClauses scope key rest

/-- The clause for the value of a form. -/
def caseClauses (scope : Scope) (operands : List Value) : Script Step :=
  match operands with
  | [] => refuseCount 2 0
  | key :: clauses => do
      let key ← evaluate scope key
      keyClauses scope key clauses

/-- A procedure applied to operands, the last of which is a list of further operands. -/
def application (scope : Scope) (operands : List Value) : Script Step :=
  match operands with
  | [] => refuseCount 2 0
  | operator :: given =>
      match given.getLast? with
      | none => refuseCount 2 1
      | some last => do
          let callee ← evaluate scope operator
          let leading ← evaluateAll scope [] given.dropLast
          let spread ← evaluate scope last
          let further ← perform (Store.listItems spread)
          defer (.apply callee (leading ++ further))

/-- The results of calling a procedure on each item, put after the reversed list `sofar`. -/
def callEach (callee : Value) (sofar : List Value) : List Value → Script (List Value)
  | [] => return sofar.reverse
  | item :: rest => do
      let result ← call callee [item]
      callEach callee (result :: sofar) rest

/-- The results of calling a procedure on the items of a list. -/
def eachResult (scope : Scope) (operands : List Value) : Script (List Value) :=
  match operands with
  | [operator, list] => do
      let callee ← evaluate scope operator
      let list ← evaluate scope list
      let items ← perform (Store.listItems list)
      callEach callee [] items
  | _ => refuseCount 2 operands.length

/-- The list of the results of calling a procedure on each item. -/
def mapping (scope : Scope) (operands : List Value) : Script Step := do
  let results ← eachResult scope operands
  answerFresh (Store.newList results)

/-- Call a procedure on each item. -/
def iteration (scope : Scope) (operands : List Value) : Script Step := do
  let _ ← eachResult scope operands
  answer .unspecified

/-- Evaluate the value of a form; the value of a second form is not used. -/
def evaluation (scope : Scope) (operands : List Value) : Script Step :=
  match operands with
  | [form] => do
      let form ← evaluate scope form
      tail scope form
  | [form, environment] => do
      let form ← evaluate scope form
      let _ ← evaluate scope environment
      tail scope form
  | _ => refuseCount 1 operands.length

end SmallScheme.Special
