import SmallScheme.Regex.Search
import SmallScheme.Store.Formals

namespace SmallScheme

/-!
# Scripts

What one construct of the language does, written down as a tree of requests: look at the store or
change it, evaluate a form, call a procedure, and so on.  Each request is followed by what is done
with its answer.  A script gives no meaning to the requests; that is left to whoever runs it.  So
the meaning of a construct is stated once and can be run with or without a limit on nesting, and
with tail positions deferred or evaluated in place.
-/

/-- What leaves an evaluation early: a fault, or a value on its way to the place it escapes to. -/
inductive Unwind
  | fault (cause : Fault)
  | escape (identity : Nat) (value : Value)

/-- What remains to be done after a construct has handed over its tail position. -/
inductive Step
  | value (value : Value)
  /-- Evaluate a form in a scope. -/
  | tail (scope : Scope) (form : Value)
  /-- Apply a procedure to operands. -/
  | apply (callee : Value) (operands : List Value)
  /-- Expand a form until its head is no transformer, and quote what results. -/
  | expand (scope : Scope) (form : Value)

/--
The dynamic context of an evaluation: the installed handlers, innermost first, the escapes whose
receivers are still running, and the number of the last escape that was made.
-/
structure Context where
  handlers : List Value
  escapes : List Nat
  lastEscape : Nat
  deriving Inhabited

/-- What a construct asks for. -/
inductive Request
  | evaluate (scope : Scope) (form : Value)
  | call (callee : Value) (operands : List Value)
  /-- Carry out the remaining steps here, inside the present construct. -/
  | finish (step : Step)
  /-- Whether the scope of a macro is still there, where the macro or what it left is used. -/
  | reach (scope home : Scope)
  /-- Write a text that has no end. -/
  | endless

/-- A tree of requests that ends with an answer. -/
inductive Script (Answer : Type) : Type 1
  | done (answer : Answer)
  | unwind (reason : Unwind)
  /-- Look at the store. -/
  | viewing {Result : Type} (look : Store → Result) (next : Result → Script Answer)
  /-- Act on the store. -/
  | acting {Result : Type} (action : StoreM Result) (next : Except Fault Result → Script Answer)
  /-- Change the dynamic context. -/
  | switching {Result : Type}
      (change : Context → Result × Context)
      (next : Result → Script Answer)
  /-- Ask for a value. -/
  | asking (request : Request) (next : Except Unwind Value → Script Answer)
  /-- Hand over the tail position. -/
  | deferring (step : Step) (next : Except Unwind Step → Script Answer)

namespace Script

/-- Continue a script with its answer. -/
def bind {First Second : Type} : Script First → (First → Script Second) → Script Second
  | .done answer, next => next answer
  | .unwind reason, _ => .unwind reason
  | .viewing look continuation, next => .viewing look fun result => (continuation result).bind next
  | .acting action continuation, next =>
      .acting action fun result => (continuation result).bind next
  | .switching change continuation, next =>
      .switching change fun result => (continuation result).bind next
  | .asking request continuation, next =>
      .asking request fun result => (continuation result).bind next
  | .deferring step continuation, next =>
      .deferring step fun result => (continuation result).bind next

instance : Monad Script where
  pure := .done
  bind := Script.bind

/-- Answer with the reason when the script unwinds. -/
def attempt {Answer : Type} : Script Answer → Script (Except Unwind Answer)
  | .done answer => .done (.ok answer)
  | .unwind reason => .done (.error reason)
  | .viewing look continuation => .viewing look fun result => (continuation result).attempt
  | .acting action continuation => .acting action fun result => (continuation result).attempt
  | .switching change continuation => .switching change fun result => (continuation result).attempt
  | .asking request continuation => .asking request fun result => (continuation result).attempt
  | .deferring step continuation => .deferring step fun result => (continuation result).attempt

/-- Unwind with a fault. -/
def fail {Answer : Type} (fault : Fault) : Script Answer :=
  .unwind (.fault fault)

/-- Go on with an answer, or unwind. -/
def ofResult {Answer : Type} : Except Unwind Answer → Script Answer
  | .ok answer => .done answer
  | .error reason => .unwind reason

/-- Begin to write a text that has no end. -/
def wait : Script Value :=
  .asking .endless ofResult

/-- Unwind with a fault, unless its message has no end. -/
def report {Answer : Type} (fault : Fault) : Script Answer :=
  if fault.isEndless then do
    let _ ← wait
    fail fault
  else
    fail fault

/-- Act on the store; a fault unwinds. -/
def perform {Result : Type} (action : StoreM Result) : Script Result :=
  .acting action fun result =>
    match result with
    | .ok answer => .done answer
    | .error fault => report fault

def view {Result : Type} (look : Store → Result) : Script Result :=
  .viewing look .done

def switch {Result : Type} (change : Context → Result × Context) : Script Result :=
  .switching change .done

/-- The value of a form. -/
def evaluate (scope : Scope) (form : Value) : Script Value :=
  .asking (.evaluate scope form) ofResult

/-- The value of a call. -/
def call (callee : Value) (operands : List Value) : Script Value :=
  .asking (.call callee operands) ofResult

/-- How a call ends. -/
def attemptCall (callee : Value) (operands : List Value) : Script (Except Unwind Value) :=
  .asking (.call callee operands) .done

/-- Carry out the remaining steps here. -/
def finish (step : Step) : Script Value :=
  .asking (.finish step) ofResult

def defer (step : Step) : Script Step :=
  .deferring step ofResult

/-- Answer with a value. -/
def answer (value : Value) : Script Step :=
  .done (.value value)

/-- Answer with a fresh object. -/
def answerFresh (make : Store → Value × Store) : Script Step := do
  answer (← perform (StoreM.change make))

/-- The text of a value, which is waited for in vain if it has no end. -/
def writing (value : Value) : Script String := do
  match ← view fun store => store.written? value with
  | some text => return text
  | none => do
      let _ ← wait
      return ""

/-- Unwind with a fault that describes values as they now are. -/
def failWith {Answer : Type} (fault : Store → Fault) : Script Answer := do
  fail (← view fault)

/-- Unwind with a fault whose message quotes a value. -/
def failTelling {Answer : Type} (value : Value) (fault : String → Fault) : Script Answer := do
  fail (fault (← writing value))

/-- Whether the scope of a macro is still there, where it is needed in a scope. -/
def reaches (scope home : Scope) : Script Bool := do
  return (← .asking (.reach scope home) ofResult).isTrue

/-- Refuse a number of operands. -/
def refuseCount {Answer : Type} (expected given : Nat) : Script Answer :=
  fail (.arity expected given none)

/-- A form in tail position; what cannot call anything is evaluated at once. -/
def tail (scope : Scope) (form : Value) : Script Step :=
  match form with
  | .pair _ => defer (.tail scope form)
  | .program _ => defer (.tail scope form)
  | _ => do answer (← evaluate scope form)

/-- Forms one after the other, the last one in tail position. -/
def body (scope : Scope) : List Value → Script Step
  | [] => answer .unspecified
  | [last] => tail scope last
  | form :: rest => do
      let _ ← evaluate scope form
      body scope rest

/-- The values of forms, put after the reversed list `sofar`. -/
def evaluateAll (scope : Scope) (sofar : List Value) : List Value → Script (List Value)
  | [] => return sofar.reverse
  | form :: rest => do
      let value ← evaluate scope form
      evaluateAll scope (value :: sofar) rest

/-- The name that a construct binds or assigns. -/
def nameFor (construct : String) (form : Value) : Script String :=
  match form.identifier? with
  | some name => return name
  | none => failTelling form fun text => .type (.needsSymbol construct text)

end Script

namespace Context

def pushHandler (handler : Value) (context : Context) : Unit × Context :=
  ((), { context with handlers := handler :: context.handlers })

/-- Take the innermost handler off. -/
def popHandler (context : Context) : Option Value × Context :=
  match context.handlers with
  | [] => (none, context)
  | handler :: rest => (some handler, { context with handlers := rest })

/-- Number a new escape and mark it as running. -/
def openEscape (context : Context) : Nat × Context :=
  let identity := context.lastEscape + 1
  (identity, { context with escapes := identity :: context.escapes, lastEscape := identity })

/-- Mark an escape as no longer running. -/
def closeEscape (identity : Nat) (context : Context) : Unit × Context :=
  ((), { context with escapes := context.escapes.filter (· ≠ identity) })

/-- Whether the receiver of an escape is still running. -/
def isRunning (identity : Nat) (context : Context) : Bool × Context :=
  (context.escapes.contains identity, context)

end Context

/-!
## The host

The program that embeds the interpreter may supply what the language does not: values for names
without a binding, members that are invoked with a leading dot, objects that can be called, and
functions and special forms under names of its own.  The interpreter asks the host and never looks
inside its objects.  The engine for regular expressions comes with the host as well, and so does the
memory: a macro does not keep the scope in which it was made, and only the host knows whether
something else still does.
-/

/-- What the host supplies. -/
structure Host : Type 1 where
  /--
  The value of a name that no scope binds, given the number of operands when the name stands
  before a proper list of operands, and the namespaces of the scope that uses it.
  -/
  resolve : String → Option Nat → List String → StoreM (Option Value)
  /-- Invoke a member, named without its dot. -/
  invoke : String → List Value → StoreM Value
  /-- Call one of the objects of the host. -/
  call : ForeignObject → List Value → StoreM Value
  /-- What a function of the host does. -/
  function : String → List Value → StoreM Value
  /-- What a special form of the host does with its operands as they are written. -/
  form : String → Scope → List Value → Script Step
  engine : Regex.Engine
  /--
  Whether the scope of a macro, given last, is still there: given the state of the machine and the
  scope in which the macro or an identifier from it is used.
  -/
  holds : Store → Context → Nat → Scope → Scope → Bool

/-- The host that supplies an engine for plain patterns only, and keeps every scope. -/
def Host.absent : Host where
  resolve _ _ _ := return none
  invoke member _ :=
    throw (.interop ("no foreign resolver installed for member ." ++ member))
  call object _ := throw (.interop object.name)
  function name _ := throw (.interop name)
  form name _ _ := .fail (.interop name)
  engine := .plain
  holds _ _ _ _ _ := true

end SmallScheme
