import SmallScheme.Proofs.Realm.Alongside
import SmallScheme.Proofs.Realm.Expansion

namespace SmallScheme

/-!
# Closed macros

Main result.  The expansion of a closed template is evaluated alike in any two scopes: whatever the
scopes bind, special forms included, the outcome is the same, and so is what has become of the
machine.  The scope of the macro has to be there still when the macro is used, and so do the scopes
that identifiers of the expansion are looked up in, when they are.  Of the operators in the
expansion it is enough that their values, in the run from the one scope, are no transformers and no
special forms but four whose operands are evaluated in place.
-/

namespace Store

variable (store : Store)

/-- The form is a list whose head quotes. -/
def Quotes (form : Value) : Prop :=
  ∃ (head : Value) (data : List Value),
    store.Spells form (head :: data) .nil ∧ store.quoting.quotes head

/-- The parts of code that are evaluated: all but data that are quoted. -/
inductive IsPart (whole : Value) : Value → Prop
  | whole : IsPart whole whole
  | item {list item : Value} {items : List Value} :
      IsPart whole list →
      store.Spells list items .nil →
      ¬store.Quotes list →
      item ∈ items →
      IsPart whole item

/-- The operator of a list that quotes quotes, and any other one evaluates its operands. -/
structure Fits (form callee : Value) : Prop where
  quotation : store.Quotes form → callee = .special .quotation
  operator : ¬store.Quotes form → callee.isOperator

/-- The operators of the parts of code fit them. -/
def fitting (whole : Value) : Operators where
  quotes := store.quoting.quotes
  allows address callee := store.IsPart whole (.pair address) → store.Fits (.pair address) callee

end Store

/-- Code whose operators fit it has operators of known values. -/
theorem Coded.fitting
    {realm : Realm}
    {size : Sizes}
    {store : Store}
    {whole form : Value}
    (coded : Coded realm store.quoting size form)
    (holds : store.Holds realm size)
    (isPart : store.IsPart whole form) :
    Coded realm (store.fitting whole) size form := by
  induction coded with
  | constant isConstant => exact .constant isConstant
  | identifier inHome bound => exact .identifier inHome bound
  | quoted address => exact .quoted address
  | @quotation address head data spells quotes headCoded belong _ _ =>
      have quotesHere : store.Quotes (.pair address) := ⟨head, data, spells.inStore holds, quotes⟩
      have headFits : Coded realm (store.fitting whole) size head := by
        obtain ⟨name, home, rfl, _⟩ := quotes
        cases headCoded with
        | constant isConstant => exact isConstant.elim
        | identifier inHome bound => exact .identifier inHome bound
      exact .quotation spells quotes headFits belong fun callee fits =>
        (fits isPart).quotation quotesHere
  | @application address head operands spells applies _ _ _ headHypothesis operandHypotheses =>
      have inStore := spells.inStore holds
      have noQuotation : ¬store.Quotes (.pair address) := by
        rintro ⟨other, data, spellsOther, quotes⟩
        obtain ⟨same, _⟩ := inStore.unique (fun _ => nofun) spellsOther fun _ => nofun
        cases same
        exact applies quotes
      refine .application spells applies ?_ ?_ fun callee fits => (fits isPart).operator noQuotation
      · exact headHypothesis (.item isPart inStore noQuotation List.mem_cons_self)
      · exact fun operand member =>
          operandHypotheses operand member
            (.item isPart inStore noQuotation (List.mem_cons_of_mem _ member))

/-- Where a value has been returned, it is an operator. -/
def Moment.returnsOperator (moment : Moment) : Bool :=
  moment.activity.value?.all Value.isOperator

/-- A macro whose template is `(if #t (+ 1 2) 'x)`, and a scope that hides both of its names. -/
def closedMacro : Store :=
  { Store.empty with
    pairs :=
      #[⟨.symbol "if", .pair 1⟩, ⟨.boolean true, .pair 2⟩, ⟨.pair 4, .pair 3⟩,
        ⟨.marked .quote 0, .nil⟩, ⟨.symbol "+", .pair 5⟩, ⟨.integer 1, .pair 6⟩,
        ⟨.integer 2, .nil⟩]
    marked := #[.symbol "x"]
    frames :=
      #[⟨[("if", .special .conditional), ("+", .primitive (.arithmetic .add))], []⟩,
        ⟨[("if", .special .sequence), ("+", .integer 5)], []⟩]
    transformers := #[⟨"m", [], [⟨.nil, .pair 0⟩], ⟨0, []⟩⟩] }

/-- The same store after the macro has been used. -/
def expandedClosedMacro : Store :=
  { closedMacro with
    pairs :=
      closedMacro.pairs ++
        #[⟨.integer 2, .nil⟩, ⟨.integer 1, .pair 7⟩, ⟨.scoped "+" ⟨0, []⟩, .pair 8⟩,
          ⟨.marked .quote 1, .nil⟩, ⟨.pair 9, .pair 10⟩, ⟨.boolean true, .pair 11⟩,
          ⟨.scoped "if" ⟨0, []⟩, .pair 12⟩]
    marked := #[.symbol "x", .symbol "x"] }

theorem closedMacro_holds :
    closedMacro.Holds (.present closedMacro) closedMacro.sizes where
  apart := nofun
  apartVectors := nofun
  pairs {address pair} found _ := by
    have member := Array.mem_of_getElem? found
    simp only [closedMacro, List.mem_toArray, List.mem_cons, List.not_mem_nil, or_false] at member
    rcases member with rfl | rfl | rfl | rfl | rfl | rfl | rfl <;>
      simp [Pair.Belongs, Value.Belongs, Realm.around, Apart.nothing, Store.sizes, closedMacro]
  vectors := by simp [closedMacro, Store.empty]
  marked := by simp [closedMacro, Value.Belongs]
  programs := by simp [closedMacro, Store.empty]
  frames frame member binding bound := by
    simp only [closedMacro, List.mem_toArray, List.mem_cons, List.not_mem_nil, or_false] at member
    rcases member with rfl | rfl <;> (rcases bound with _ | ⟨_, _ | ⟨_, _⟩⟩ <;> trivial)
  procedures := by simp [closedMacro, Store.empty]
  transformers := by
    simp [closedMacro, Rule.Belongs, Value.Belongs, Realm.around, Apart.nothing, Store.sizes]
  parameters := by simp [closedMacro, Store.empty]
  conditions := by simp [closedMacro, Store.empty]
  foreigns := by simp [closedMacro, Store.empty]
  binds := id

/-- The use of the macro, which has no variables. -/
def closedFilling : Filling :=
  ⟨⟨"m", [], [⟨.nil, .pair 0⟩], ⟨0, []⟩⟩, closedMacro, .atom .nil, closedMacro.form (.pair 0), []⟩

theorem closedFilling_closes :
    closedFilling.Closes closedFilling.template := by
  have introduced
      (name : String)
      (unbound : name ∉ closedFilling.template.binders [])
      (known : closedMacro.isBound ⟨0, []⟩ name)
      (ordinary : name ≠ Capture.ellipsis) :
      closedFilling.Refers (.identifier name (.symbol name)) name ⟨0, []⟩ :=
    .introduced (fun _ _ => nofun) ⟨List.not_mem_nil, ordinary⟩
      (fun binds => unbound ((Form.mem_binders _ []).mpr (.inr binds))) known
  have sum :
      closedFilling.Closes
        (.list
          [.identifier "+" (.symbol "+"), .atom (.integer 1), .atom (.integer 2)] (.atom .nil)
          (.pair 4)) := by
    refine .application (.identifier (introduced "+" (by decide) rfl (by decide))) ?_ ?_
    · rintro _ _ ⟨⟩
      nofun
    · exact List.forall_mem_cons.mpr
        ⟨.constant trivial, List.forall_mem_cons.mpr ⟨.constant trivial, nofun⟩⟩
  refine .application (.identifier (introduced "if" (by decide) rfl (by decide))) ?_ ?_
  · rintro _ _ ⟨⟩
    nofun
  · exact List.forall_mem_cons.mpr
      ⟨.constant trivial, List.forall_mem_cons.mpr
        ⟨sum, List.forall_mem_cons.mpr ⟨.quoted _ _, nofun⟩⟩⟩

/-- No name means to quote, in whatever scope. -/
theorem expandedClosedMacro_quotes_nothing
    (name : String)
    (home : Scope) :
    expandedClosedMacro.lookup? home name ≠ some (.special .quotation) := by
  unfold Store.lookup?
  induction home.frames with
  | nil => nofun
  | cons frame outer inductionHypothesis =>
      unfold Store.lookupIn
      split
      case h_1 value found =>
        rintro ⟨⟩
        obtain ⟨before, after, shape, _⟩ := List.lookup_eq_some_iff.mp found
        have member :
            (name, Value.special .quotation) ∈ (expandedClosedMacro.frameAt frame).bindings := by
          rw [shape]
          simp
        match frame with
        | 0 => simp [expandedClosedMacro, closedMacro, Store.frameAt] at member
        | 1 => simp [expandedClosedMacro, closedMacro, Store.frameAt] at member
        | frame + 2 =>
            simp only [expandedClosedMacro, closedMacro, Store.frameAt, List.getElem?_toArray,
              List.getElem?_cons_succ, List.getElem?_nil, Option.getD_none] at member
            cases member
      case h_2 => exact inductionHypothesis

end SmallScheme
