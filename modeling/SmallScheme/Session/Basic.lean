import SmallScheme.Evaluation.Machine
import SmallScheme.Reader.Basic
import SmallScheme.Session.Library
import SmallScheme.Store.Load

namespace SmallScheme

/-!
# Sessions

A session keeps a machine between evaluations.  Its root scope holds the primitives, the special
forms and the library; programs are evaluated in a scope of their own inside the root, so they may
hide what the root binds but not change it.
-/

/-- What evaluation in a session depends on and never changes. -/
structure Settings where
  /-- So many levels of nesting may be open at a time. -/
  limit : Nat
  library : Bool
  host : Host

namespace Settings

/-- The limit on nesting of an ordinary session. -/
def usualLimit : Nat := 512

def usual : Settings :=
  ⟨usualLimit, true, Host.absent⟩

end Settings

/-- A machine with the scopes of the root and of the programs. -/
structure Session where
  root : Scope
  user : Scope
  machine : Machine

/-- Why a text has no value: it cannot be read, or its evaluation ends with a fault. -/
inductive Failure
  | unreadable (error : ReadError)
  | fault (cause : Fault)

/-- The fault that an evaluation ends with: an escape that nothing catches has expired. -/
def Unwind.toFault : Unwind → Fault
  | .fault cause => cause
  | .escape _ _ => .continuationExpired

/-- What comes of using a session, if it ends. -/
abbrev Session.Outcome (Reason : Type) :=
  Option (Except Reason Value × Session)

namespace Session

/-- What the root scope binds to begin with. -/
def initialBindings : List (String × Value) :=
  Primitive.all.map (fun operation => (operation.name, .primitive operation)) ++
    SpecialForm.all.map fun form => (form.name, .special form)

/-- Define a name in a scope. -/
def defineIn
    (scope : Scope)
    (name : String)
    (value : Value) : Session → Except Fault Unit × Session
  | ⟨root, user, ⟨store, context, depth⟩⟩ =>
      let (result, store) := Store.define scope name value store
      (result, ⟨root, user, ⟨store, context, depth⟩⟩)

/-- Define names in the root scope; the answers tell which of them were new. -/
def register : List (String × Value) → Session → List (Except Fault Unit) × Session
  | [], session => ([], session)
  | (name, value) :: rest, session =>
      let (result, session) := defineIn session.root name value session
      let (results, session) := register rest session
      (result :: results, session)

/-- A session with the initial bindings only. -/
def bare : Session :=
  let (root, store) := Store.empty.newRoot
  let (user, store) := store.newChild root
  (register initialBindings ⟨root, user, ⟨store, ⟨[], [], 0⟩, 0⟩⟩).2

/-- Put a datum into the store of a session. -/
def load (datum : Datum) : Session → Value × Session
  | ⟨root, user, ⟨store, context, depth⟩⟩ =>
      let (value, store) := store.load datum
      (value, ⟨root, user, ⟨store, context, depth⟩⟩)

/-- Ask the machine for a value. -/
def ask (settings : Settings) (request : Request) : Session → Outcome Fault
  | ⟨root, user, machine⟩ =>
      match Machine.serve settings.host settings.limit Fuel.ample request machine with
      | none => none
      | some (result, machine) => some (result.mapError Unwind.toFault, ⟨root, user, machine⟩)

/-- Close all levels and forget the handlers and escapes of the last evaluation. -/
def settle : Session → Session
  | ⟨root, user, ⟨store, context, _⟩⟩ =>
      ⟨root, user, ⟨store, { context with handlers := [], escapes := [] }, 0⟩⟩

/-- Evaluate a form in the scope of programs. -/
def evaluate (settings : Settings) (form : Value) (session : Session) : Outcome Fault :=
  match session.ask settings (.evaluate session.user form) with
  | none => none
  | some (result, session) => some (result, session.settle)

/-- Evaluate a form in the root scope. -/
def evaluateInRoot (settings : Settings) (form : Value) (session : Session) : Outcome Fault :=
  session.ask settings (.evaluate session.root form)

def call
    (settings : Settings)
    (callee : Value)
    (operands : List Value)
    (session : Session) : Outcome Fault :=
  session.ask settings (.call callee operands)

/-- Read a text as a program and go on with it. -/
def withProgram
    (settings : Settings)
    (source : String)
    (continuation : Value → Session → Outcome Fault)
    (session : Session) : Outcome Failure :=
  match @Reader.readAll settings.host.engine source with
  | .error error => some (.error (.unreadable error), session)
  | .ok forms =>
      let (program, session) := session.load (.program forms)
      match continuation program session with
      | none => none
      | some (result, session) => some (result.mapError .fault, session)

/-- Evaluate a text in the scope of programs. -/
def evaluateText (settings : Settings) (source : String) (session : Session) : Outcome Failure :=
  session.withProgram settings source (evaluate settings)

/-- Evaluate a text in the root scope. -/
def evaluateTextInRoot
    (settings : Settings)
    (source : String)
    (session : Session) : Outcome Failure :=
  session.withProgram settings source (evaluateInRoot settings)

/-- The session that an outcome leaves; without one it stays as it was. -/
def leftBy (session : Session) : Outcome Failure → Session
  | some (_, after) => after
  | none => session

/--
Evaluate the library in the root scope.  The host is not asked for anything yet.  Where the limit
is too low, the definitions before the one that fails stay.
-/
def loadLibrary (settings : Settings) (session : Session) : Session :=
  session.leftBy
    (session.evaluateTextInRoot { settings with host := Host.absent } Library.text)

def start (settings : Settings) : Session :=
  if settings.library then bare.loadLibrary settings else bare

def store (session : Session) : Store :=
  session.machine.store

/-- What a name means in the scope of programs. -/
def get? (session : Session) (name : String) : Option Value :=
  session.store.lookup? session.user name

/-- Define a name in the scope of programs. -/
def define (name : String) (value : Value) (session : Session) : Except Fault Unit × Session :=
  defineIn session.user name value session

/-- The names that programs have defined. -/
def userNames (session : Session) : List String :=
  session.store.localNames session.user

/-- The names that the root binds. -/
def rootNames (session : Session) : List String :=
  session.store.localNames session.root

/-- The namespaces that the host searches from the scope of programs. -/
def namespaces (session : Session) : List String :=
  session.store.namespaces session.user

end Session

end SmallScheme
