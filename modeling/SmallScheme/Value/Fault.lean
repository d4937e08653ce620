import SmallScheme.Value.Basic

namespace SmallScheme

/-!
# Faults

Why an evaluation ends without a value.  A fault records its cause; values that a message mentions
are recorded as they were written at that moment, while a raised value or condition is carried
itself and written when the fault is shown.
-/

/-- A value is not of the kind that an operation needs. -/
inductive TypeFault
  | expected (wanted given : String)
  | operand (operation wanted given : String)
  | byteRange (value : Int64)
  | needsSymbol (construct given : String)
  | formalName (given : String)
  | literalName (given : String)
  | needsTransformer (given : String)
  | needsParameter (binding : String)
  | needsNamespace (given : String)
  | needsHandler (given : String)
  | notApplicable (given : String)
  deriving Repr, DecidableEq

/-- An evaluation breaks a rule other than one about kinds, names or operand counts. -/
inductive EvaluationFault
  | depthLimit (limit : Nat)
  | overflow (operation : String)
  | divisionByZero
  | indexRange (index length : Nat)
  | duplicateFormal (name : String)
  | outsideQuasiquote (form : String)
  | splicePlace (form : String)
  | spliceList (shape : String)
  | operandList (shape : String)
  | malformed (what form : String)
  | arrowForm
  | elsePlace (construct : String)
  | noClause
  | handlerReturned (given : String)
  | missingLiterals
  | variableDepth (name : String)
  | nestedGroup
  | nothingToRepeat
  | unevenRepetition (form : String)
  | noRule (name operands : String)
  | foreign (detail : String)
  /-- A text that the message of the fault would quote has no end, so the fault never comes
  about. -/
  | endless
  deriving Repr, DecidableEq

/-- Why an evaluation ends without a value. -/
inductive Fault
  | duplicateDefinition (name : String)
  | unboundVariable (name : String)
  | undefinedVariable (name : String)
  | immutableScope (name : String)
  | arity (expected given : Nat) (expression : Option String)
  | type (cause : TypeFault)
  | evaluation (cause : EvaluationFault)
  | raised (value : Value)
  | structured (condition : Nat)
  | continuationExpired
  | interop (detail : String)

namespace TypeFault

def message : TypeFault → String
  | .expected wanted given => "expected " ++ wanted ++ ", got " ++ given
  | .operand operation wanted given => operation ++ ": expected " ++ wanted ++ ", got " ++ given
  | .byteRange value => "byte out of range: " ++ Int.repr value.toInt
  | .needsSymbol construct given => construct ++ " requires a symbol, got " ++ given
  | .formalName given => "Lambda parameters must be symbols, got " ++ given
  | .literalName given => "syntax-rules literals must be symbols, got " ++ given
  | .needsTransformer given => "define-syntax expects a syntax-rules transformer, got " ++ given
  | .needsParameter binding => "parameterize expects a parameter object: " ++ binding
  | .needsNamespace given => "use-namespace expects a string or symbol, got " ++ given
  | .needsHandler given => "exception handler must be a procedure, got " ++ given
  | .notApplicable given => "Cannot apply non-procedure: " ++ given

end TypeFault

namespace EvaluationFault

def message : EvaluationFault → String
  | .depthLimit limit => "Evaluation depth limit exceeded (max: " ++ Nat.repr limit ++ ")"
  | .overflow operation => "Integer overflow in " ++ operation
  | .divisionByZero => "Division by zero"
  | .indexRange index length =>
      "index " ++ Nat.repr index ++ " out of range for length " ++ Nat.repr length
  | .duplicateFormal name => "Duplicate parameter name: " ++ name
  | .outsideQuasiquote form => form ++ " is only valid inside quasiquote"
  | .splicePlace form => form ++ " is only valid in list or vector position"
  | .spliceList shape => "unquote-splicing expects a proper list, got " ++ shape
  | .operandList shape => "argument list must be proper, got " ++ shape
  | .malformed what form => "malformed " ++ what ++ ": " ++ form
  | .arrowForm => "=> must be followed by exactly one expression"
  | .elsePlace construct => "else clause must be the last " ++ construct ++ " clause"
  | .noClause => "cond: no clause matched and there is no else clause"
  | .handlerReturned given => "handler returned from non-continuable raise: " ++ given
  | .missingLiterals => "syntax-rules requires a literal list"
  | .variableDepth name => "pattern variable " ++ name ++ " must be followed by ..."
  | .nestedGroup => "nested rest group"
  | .nothingToRepeat => "... in template has no pattern variable to repeat"
  | .unevenRepetition form => "mismatched ellipsis repetition lengths in " ++ form
  | .noRule name operands => "no matching syntax rule for (" ++ name ++ " " ++ operands ++ ")"
  | .foreign detail => detail
  | .endless => ""

end EvaluationFault

namespace Fault

/-- Give an arity fault the expression it arose in, unless it has one. -/
def inExpression
    (expression : String) : Fault → Fault
  | .arity expected given none => .arity expected given (some expression)
  | fault => fault

/-- A fault that never comes about, because its message has no end. -/
def isEndless : Fault → Bool
  | .evaluation .endless => true
  | _ => false

/-- An arity fault that does not name its expression. -/
def lacksExpression : Fault → Bool
  | .arity _ _ none => true
  | _ => false

end Fault

end SmallScheme
