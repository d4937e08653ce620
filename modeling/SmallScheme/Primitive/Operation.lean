import SmallScheme.Arity

namespace SmallScheme

/-!
# The names of the operations

Every operation that programs find in the root scope has a name and an arity.  Primitives receive
evaluated operands; special forms receive their operands as they are written.  This module only
enumerates them: what a primitive does is told in the modules beside this one, what a special form
does in the modules under `Special`.
-/

/-- Operations on numbers. -/
inductive Arithmetic
  | add
  | multiply
  | subtract
  | divide
  | quotient
  | remainder
  | modulo
  | absolute
  | maximum
  | minimum
  deriving Repr, DecidableEq

/-- Relations between neighbouring numbers. -/
inductive Comparison
  | equal
  | less
  | greater
  | atMost
  | atLeast
  deriving Repr, DecidableEq

/-- Negation and the equivalences. -/
inductive Equivalence
  | negation
  | same
  | equivalent
  | alike
  deriving Repr, DecidableEq

/-- Operations on pairs and lists. -/
inductive Listing
  | head
  | tail
  | cons
  | setHead
  | setTail
  | list
  | length
  | append
  | reverse
  deriving Repr, DecidableEq

/-- Tests for the kind of a value. -/
inductive KindTest
  | nil
  | pair
  | list
  | symbol
  | procedure
  | number
  | integer
  | text
  | boolean
  | character
  | vector
  | bytevector
  | regex
  | condition
  deriving Repr, DecidableEq

/-- Operations on vectors and bytevectors. -/
inductive Sequence
  | vector
  | makeVector
  | vectorItem
  | setVectorItem
  | vectorLength
  | vectorToList
  | listToVector
  | bytevector
  | byteItem
  | setByteItem
  | bytevectorLength
  deriving Repr, DecidableEq

/-- Operations on texts, symbols and regular expressions. -/
inductive Textual
  | append
  | length
  | symbolToText
  | textToSymbol
  | numberToText
  | regexMatches
  deriving Repr, DecidableEq

/-- Operations that raise conditions and take them apart. -/
inductive Signalling
  | error
  | raise
  | message
  | irritants
  deriving Repr, DecidableEq

/-- A function of evaluated operands; the host may add some under names of its own. -/
inductive Primitive
  | arithmetic (operation : Arithmetic)
  | comparison (relation : Comparison)
  | equivalence (operation : Equivalence)
  | listing (operation : Listing)
  | kindTest (test : KindTest)
  | sequence (operation : Sequence)
  | textual (operation : Textual)
  | signalling (operation : Signalling)
  | foreign (name : String) (declared : Arity)
  deriving Repr, DecidableEq

/-- An operation on operands as they are written; the host may add some. -/
inductive SpecialForm
  | quotation
  | quasiquotation
  | conditional
  | sequence
  | definition
  | assignment
  | procedure
  | letBlock
  | letStarBlock
  | letrecBlock
  | letrecStarBlock
  | clauses
  | caseClauses
  | conjunction
  | disjunction
  | application
  | mapping
  | iteration
  | evaluation
  | parameter
  | rebinding
  | namespaceUse
  | transformerDefinition
  | transformer
  | expansion
  | escapeShort
  | escapeLong
  | escapeOnly
  | wind
  | continuableRaise
  | handling
  | foreign (name : String) (declared : Arity)
  deriving Repr, DecidableEq

namespace Primitive

/-- The name that the root scope binds the primitive to. -/
def name : Primitive → String
  | .arithmetic .add => "+"
  | .arithmetic .multiply => "*"
  | .arithmetic .subtract => "-"
  | .arithmetic .divide => "/"
  | .arithmetic .quotient => "quotient"
  | .arithmetic .remainder => "remainder"
  | .arithmetic .modulo => "modulo"
  | .arithmetic .absolute => "abs"
  | .arithmetic .maximum => "max"
  | .arithmetic .minimum => "min"
  | .comparison .equal => "="
  | .comparison .less => "<"
  | .comparison .greater => ">"
  | .comparison .atMost => "<="
  | .comparison .atLeast => ">="
  | .equivalence .negation => "not"
  | .equivalence .same => "eq?"
  | .equivalence .equivalent => "eqv?"
  | .equivalence .alike => "equal?"
  | .listing .head => "car"
  | .listing .tail => "cdr"
  | .listing .cons => "cons"
  | .listing .setHead => "set-car!"
  | .listing .setTail => "set-cdr!"
  | .listing .list => "list"
  | .listing .length => "length"
  | .listing .append => "append"
  | .listing .reverse => "reverse"
  | .kindTest .nil => "null?"
  | .kindTest .pair => "pair?"
  | .kindTest .list => "list?"
  | .kindTest .symbol => "symbol?"
  | .kindTest .procedure => "procedure?"
  | .kindTest .number => "number?"
  | .kindTest .integer => "integer?"
  | .kindTest .text => "string?"
  | .kindTest .boolean => "boolean?"
  | .kindTest .character => "char?"
  | .kindTest .vector => "vector?"
  | .kindTest .bytevector => "bytevector?"
  | .kindTest .regex => "regex?"
  | .kindTest .condition => "error-object?"
  | .sequence .vector => "vector"
  | .sequence .makeVector => "make-vector"
  | .sequence .vectorItem => "vector-ref"
  | .sequence .setVectorItem => "vector-set!"
  | .sequence .vectorLength => "vector-length"
  | .sequence .vectorToList => "vector->list"
  | .sequence .listToVector => "list->vector"
  | .sequence .bytevector => "bytevector"
  | .sequence .byteItem => "bytevector-u8-ref"
  | .sequence .setByteItem => "bytevector-u8-set!"
  | .sequence .bytevectorLength => "bytevector-length"
  | .textual .append => "string-append"
  | .textual .length => "string-length"
  | .textual .symbolToText => "symbol->string"
  | .textual .textToSymbol => "string->symbol"
  | .textual .numberToText => "number->string"
  | .textual .regexMatches => "regex-match?"
  | .signalling .error => "error"
  | .signalling .raise => "raise"
  | .signalling .message => "error-object-message"
  | .signalling .irritants => "error-object-irritants"
  | .foreign name _ => name

/-- The numbers of operands that the primitive accepts. -/
def arity : Primitive → Arity
  | .arithmetic .add => .any
  | .arithmetic .multiply => .any
  | .arithmetic .quotient => .exactly 2
  | .arithmetic .remainder => .exactly 2
  | .arithmetic .modulo => .exactly 2
  | .arithmetic .absolute => .exactly 1
  | .arithmetic _ => .atLeast 1
  | .comparison _ => .atLeast 2
  | .equivalence .negation => .exactly 1
  | .equivalence _ => .exactly 2
  | .listing .cons => .exactly 2
  | .listing .setHead => .exactly 2
  | .listing .setTail => .exactly 2
  | .listing .list => .any
  | .listing .append => .any
  | .listing _ => .exactly 1
  | .kindTest _ => .exactly 1
  | .sequence .vector => .any
  | .sequence .makeVector => .between 1 2
  | .sequence .vectorItem => .exactly 2
  | .sequence .setVectorItem => .exactly 3
  | .sequence .bytevector => .any
  | .sequence .byteItem => .exactly 2
  | .sequence .setByteItem => .exactly 3
  | .sequence _ => .exactly 1
  | .textual .append => .any
  | .textual .regexMatches => .exactly 2
  | .textual _ => .exactly 1
  | .signalling .error => .atLeast 1
  | .signalling _ => .exactly 1
  | .foreign _ declared => declared

/-- The primitives of every root scope. -/
def all : List Primitive :=
  [Arithmetic.add, .multiply, .subtract, .divide, .quotient, .remainder, .modulo, .absolute,
    .maximum, .minimum].map .arithmetic ++
  [Comparison.equal, .less, .greater, .atMost, .atLeast].map .comparison ++
  [Equivalence.negation, .same, .equivalent, .alike].map .equivalence ++
  [Listing.head, .tail, .cons, .setHead, .setTail, .list, .length, .append,
    .reverse].map .listing ++
  [KindTest.nil, .pair, .list, .symbol, .procedure, .number, .integer, .text, .boolean, .character,
    .vector, .bytevector, .regex, .condition].map .kindTest ++
  [Sequence.vector, .makeVector, .vectorItem, .setVectorItem, .vectorLength, .vectorToList,
    .listToVector, .bytevector, .byteItem, .setByteItem, .bytevectorLength].map .sequence ++
  [Textual.append, .length, .symbolToText, .textToSymbol, .numberToText, .regexMatches].map
    .textual ++
  [Signalling.error, .raise, .message, .irritants].map .signalling

end Primitive

namespace SpecialForm

/-- The name that the root scope binds the special form to. -/
def name : SpecialForm → String
  | .quotation => "quote"
  | .quasiquotation => "quasiquote"
  | .conditional => "if"
  | .sequence => "begin"
  | .definition => "define"
  | .assignment => "set!"
  | .procedure => "lambda"
  | .letBlock => "let"
  | .letStarBlock => "let*"
  | .letrecBlock => "letrec"
  | .letrecStarBlock => "letrec*"
  | .clauses => "cond"
  | .caseClauses => "case"
  | .conjunction => "and"
  | .disjunction => "or"
  | .application => "apply"
  | .mapping => "map"
  | .iteration => "for-each"
  | .evaluation => "eval"
  | .parameter => "make-parameter"
  | .rebinding => "parameterize"
  | .namespaceUse => "use-namespace"
  | .transformerDefinition => "define-syntax"
  | .transformer => "syntax-rules"
  | .expansion => "macroexpand"
  | .escapeShort => "call/cc"
  | .escapeLong => "call-with-current-continuation"
  | .escapeOnly => "call/ec"
  | .wind => "dynamic-wind"
  | .continuableRaise => "raise-continuable"
  | .handling => "with-exception-handler"
  | .foreign name _ => name

/-- The numbers of operands that the special form accepts. -/
def arity : SpecialForm → Arity
  | .quotation => .exactly 1
  | .quasiquotation => .exactly 1
  | .conditional => .between 2 3
  | .sequence => .any
  | .definition => .atLeast 1
  | .assignment => .exactly 2
  | .procedure => .atLeast 2
  | .letBlock => .atLeast 1
  | .letStarBlock => .atLeast 1
  | .letrecBlock => .atLeast 1
  | .letrecStarBlock => .atLeast 1
  | .clauses => .atLeast 1
  | .caseClauses => .atLeast 2
  | .conjunction => .atLeast 2
  | .disjunction => .atLeast 2
  | .application => .atLeast 2
  | .mapping => .exactly 2
  | .iteration => .exactly 2
  | .evaluation => .between 1 2
  | .parameter => .between 1 2
  | .rebinding => .atLeast 1
  | .namespaceUse => .exactly 1
  | .transformerDefinition => .exactly 2
  | .transformer => .atLeast 1
  | .expansion => .exactly 1
  | .escapeShort => .exactly 1
  | .escapeLong => .exactly 1
  | .escapeOnly => .exactly 1
  | .wind => .exactly 3
  | .continuableRaise => .exactly 1
  | .handling => .exactly 2
  | .foreign _ declared => declared

/-- The special forms of every root scope. -/
def all : List SpecialForm :=
  [.quotation, .quasiquotation, .conditional, .sequence, .definition, .assignment, .procedure,
    .letBlock, .letStarBlock, .letrecBlock, .letrecStarBlock, .clauses, .caseClauses, .conjunction,
    .disjunction, .application, .mapping, .iteration, .evaluation, .parameter, .rebinding,
    .namespaceUse, .transformerDefinition, .transformer, .expansion, .escapeShort, .escapeLong,
    .escapeOnly, .wind, .continuableRaise, .handling]

end SpecialForm

end SmallScheme
