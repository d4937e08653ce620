import SmallScheme.Script.Basic
import SmallScheme.Store.Report

namespace SmallScheme.Special

/-!
# Parameters, conditions and escapes

Special forms that bracket the evaluation of something else.  What they change at the start they
change back at the end, whichever way the evaluation ends.
-/

open Script

/-- Make a parameter object; a converter is applied to its value and to every later one. -/
def parameter (scope : Scope) (operands : List Value) : Script Step :=
  match operands with
  | [form] => do
      let value ← evaluate scope form
      answerFresh (Store.newParameter ⟨value, none⟩)
  | [form, converterForm] => do
      let value ← evaluate scope form
      let converter ← evaluate scope converterForm
      let converted ← call converter [value]
      answerFresh (Store.newParameter ⟨converted, some converter⟩)
  | _ => refuseCount 1 operands.length

/-- The parameter object and the value that an entry describes. -/
def rebindingOf (scope : Scope) (entry : Value) : Script (Nat × Value) := do
  match ← perform (Store.listItems entry) with
  | [parameterForm, valueForm] => do
      match ← evaluate scope parameterForm with
      | .parameter address => do
          let value ← evaluate scope valueForm
          let converter ← view fun store => store.parameters[address]?.bind Parameter.converter
          match converter with
          | none => return (address, value)
          | some converter => return (address, ← call converter [value])
      | _ => failTelling entry fun text => .type (.needsParameter text)
  | _ =>
      failTelling entry fun text => .evaluation (.malformed "parameterize binding" text)

/-- What entries describe, put after the reversed list `sofar`. -/
def rebindingsFrom (scope : Scope) (sofar : List (Nat × Value)) :
    List Value → Script (List (Nat × Value))
  | [] => return sofar.reverse
  | entry :: rest => do
      let rebound ← rebindingOf scope entry
      rebindingsFrom scope (rebound :: sofar) rest

/-- Give parameters new values, and answer with their old ones, the last first. -/
def exchange (sofar : List (Nat × Value)) (store : Store) :
    List (Nat × Value) → List (Nat × Value) × Store
  | [] => (sofar, store)
  | (address, value) :: rest =>
      let previous := (store.parameters[address]?.getD default).value
      exchange ((address, previous) :: sofar) (store.setParameter address value) rest

/-- The value of forms, carried out to the end. -/
def bodyValue (scope : Scope) (forms : List Value) : Script Value := do
  let step ← body scope forms
  finish step

/-- Give parameters their old values back, and end as the forms have ended. -/
def restore (previous : List (Nat × Value)) (result : Except Unwind Value) : Script Step := do
  perform (StoreM.change fun store => ((), (exchange [] store previous).2))
  answer (← ofResult result)

/-- Evaluate forms while parameters have other values. -/
def whileRebound
    (scope : Scope)
    (rebound : List (Nat × Value))
    (forms : List Value) : Script Step := do
  let previous ← perform (StoreM.change fun store => exchange [] store rebound)
  let inner ← perform (StoreM.change (Store.newChild scope))
  let result ← attempt (bodyValue inner forms)
  restore previous result

/-- Evaluate forms while the parameters that entries name have the values they name. -/
def rebinding (scope : Scope) (operands : List Value) : Script Step :=
  match operands with
  | [] => refuseCount 1 0
  | bindings :: forms => do
      let entries ← perform (Store.listItems bindings)
      let rebound ← rebindingsFrom scope [] entries
      whileRebound scope rebound forms

/-- Let the host search one more namespace from the present scope. -/
def namespaceUse (scope : Scope) (operands : List Value) : Script Step :=
  match operands with
  | [form] => do
      let name ←
        match form.identifier? with
        | some name => pure name
        | none => do
            match ← evaluate scope form with
            | .text address => view fun store => store.textAt address
            | other => failTelling other fun text => .type (.needsNamespace text)
      perform (StoreM.change fun store => ((), store.useNamespace scope name))
      answer .unspecified
  | _ => refuseCount 1 operands.length

/-- The receiver of an escape has ended: from now on the escape has expired. -/
def leaveReceiver (identity : Nat) (result : Except Unwind Value) : Script Step := do
  switch (Context.closeEscape identity)
  match result with
  | .ok value => answer value
  | .error (.escape target value) =>
      if target = identity then answer value else .unwind (.escape target value)
  | .error reason => .unwind reason

/-- Call a receiver with an escape that returns from here for as long as the receiver runs. -/
def withEscape (receiver : Value) : Script Step := do
  let identity ← switch Context.openEscape
  let result ← attemptCall receiver [.escape identity]
  leaveReceiver identity result

/-- Call the value of a form with an escape. -/
def escaping (scope : Scope) (operands : List Value) : Script Step :=
  match operands with
  | [receiverForm] => do
      let receiver ← evaluate scope receiverForm
      withEscape receiver
  | _ => refuseCount 1 operands.length

/-- Apply an escape: its receiver must still be running. -/
def escape (identity : Nat) (operands : List Value) : Script Step := do
  if ← switch (Context.isRunning identity) then
    match operands with
    | [] => .unwind (.escape identity .unspecified)
    | [value] => .unwind (.escape identity value)
    | _ => refuseCount 1 operands.length
  else
    fail .continuationExpired

/-- Call the last procedure of a wind, and end as the middle one has ended. -/
def windUp (after : Value) (result : Except Unwind Value) : Script Step := do
  let _ ← call after []
  answer (← ofResult result)

/-- Call the middle procedure of a wind and then, whichever way it ends, the last one. -/
def windThrough (thunk after : Value) : Script Step := do
  let result ← attemptCall thunk []
  windUp after result

/-- Call a procedure between two others; the last one is called whichever way the call ends. -/
def wind (scope : Scope) (operands : List Value) : Script Step :=
  match operands with
  | [beforeForm, thunkForm, afterForm] => do
      let before ← evaluate scope beforeForm
      let thunk ← evaluate scope thunkForm
      let after ← evaluate scope afterForm
      let _ ← call before []
      windThrough thunk after
  | _ => refuseCount 3 operands.length

/-- Install a handler again that has been called for a value, and end as its call has ended. -/
def leaveHandler (handler : Value) (result : Except Unwind Value) : Script Step := do
  switch (Context.pushHandler handler)
  answer (← ofResult result)

/--
Offer a value to the innermost handler, whose answer is the value of the form.  While it runs, the
handler is not installed.
-/
def offer (value : Value) : Script Step := do
  match ← switch Context.popHandler with
  | none => fail (.raised value)
  | some handler => do
      let result ← attemptCall handler [value]
      leaveHandler handler result

/-- Offer the value of a form to the innermost handler. -/
def continuableRaise (scope : Scope) (operands : List Value) : Script Step :=
  match operands with
  | [form] => do
      let value ← evaluate scope form
      offer value
  | _ => refuseCount 1 operands.length

/-- What a handler makes of a condition that its thunk ended with. -/
def handle (handler : Value) (cause : Fault) : Script Step :=
  match cause.handled? with
  | none => fail cause
  | some condition => do
      let handled ← call handler [condition]
      if handled.isUnspecified then
        answer .unspecified
      else
        failTelling handled fun text => .evaluation (.handlerReturned text)

/-- The thunk of a handler has ended, and with it the time for which the handler is installed. -/
def leaveThunk (handler : Value) (result : Except Unwind Value) : Script Step := do
  let _ ← switch Context.popHandler
  match result with
  | .ok value => answer value
  | .error (.fault cause) => handle handler cause
  | .error reason => .unwind reason

/--
Call a thunk with a handler installed.  A condition that the thunk ends with is offered to the
handler after the thunk has been left; every other fault and every escape passes.
-/
def withHandler (handler thunk : Value) : Script Step := do
  switch (Context.pushHandler handler)
  let result ← attemptCall thunk []
  leaveThunk handler result

/-- Call the value of a form with the value of another one as its handler. -/
def handling (scope : Scope) (operands : List Value) : Script Step :=
  match operands with
  | [handlerForm, thunkForm] => do
      let handler ← evaluate scope handlerForm
      let thunk ← evaluate scope thunkForm
      if handler.isProcedure then
        withHandler handler thunk
      else
        failTelling handler fun text => .type (.needsHandler text)
  | _ => refuseCount 2 operands.length

end SmallScheme.Special
