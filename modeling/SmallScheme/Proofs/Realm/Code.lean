import SmallScheme.Proofs.Realm.Run
import SmallScheme.Proofs.Store.Growth

namespace SmallScheme

/-!
# Code set apart

Code may be made of pairs that are set apart from everything else.  If its identifiers bring their
own scopes along, and its operators are applied to values or choose among operands in place, then
two scopes in which it is evaluated make no difference: the scripts of its parts ask for the same
parts, from one scope here and from the other one there.
-/

open Script

/-- Following the pairs that are set apart, one meets the items of a proper list. -/
inductive Realm.Spells (realm : Realm) : Value → List Value → Prop
  | nil : Spells realm .nil []
  | pair {address : Nat} {head tail : Value} {items : List Value} :
      realm.apart.pairs address = some ⟨head, tail⟩ →
      Spells realm tail items →
      Spells realm (.pair address) (head :: items)

/-- What evaluates to itself. -/
def Value.IsConstant : Value → Prop
  | .symbol _ => False
  | .scoped _ _ => False
  | .vector _ => False
  | .marked _ _ => False
  | .program _ => False
  | .pair _ => False
  | _ => True

/-- The value of an operator whose operands are evaluated, all of them or some of them in place. -/
def Value.isOperator : Value → Bool
  | .transformer _ => false
  | .special keyword => [.conditional, .sequence, .conjunction, .disjunction].contains keyword
  | _ => true

/-- What is known of the operators in code. -/
structure Operators where
  /-- What stands at the head of a list quotes what stands next to it. -/
  quotes : Value → Prop
  /-- The operator of the list at the address may have the value. -/
  allows : Nat → Value → Prop

/--
Code that is set apart, when there are so many pairs.  The operators of its lists may have the
values that are known of them, and those of lists that quote data only quote them.
-/
inductive Coded (realm : Realm) (operators : Operators) (size : Sizes) : Value → Prop
  | constant {value : Value} :
      value.IsConstant →
      Coded realm operators size value
  | identifier {name : String} {home : Scope} {frame : Nat} :
      frame ∈ home.frames →
      realm.binds frame name →
      Coded realm operators size (.scoped name home)
  | quoted (address : Nat) :
      Coded realm operators size (.marked .quote address)
  | quotation {address : Nat} {head : Value} {data : List Value} :
      realm.Spells (.pair address) (head :: data) →
      operators.quotes head →
      Coded realm operators size head →
      AllBelong realm size data →
      (∀ callee, operators.allows address callee → callee = .special .quotation) →
      Coded realm operators size (.pair address)
  | application {address : Nat} {head : Value} {operands : List Value} :
      realm.Spells (.pair address) (head :: operands) →
      ¬operators.quotes head →
      Coded realm operators size head →
      (∀ operand ∈ operands, Coded realm operators size operand) →
      (∀ callee, operators.allows address callee → callee.isOperator) →
      Coded realm operators size (.pair address)

/-- A name has a value if one of the frames binds it. -/
theorem Store.isSome_lookupIn_iff
    {store : Store}
    {name : String}
    {frames : List Nat} :
    (store.lookupIn name frames).isSome ↔
      ∃ frame ∈ frames, ((store.frameAt frame).find? name).isSome := by
  induction frames with
  | nil => simp [lookupIn]
  | cons frame outer inductionHypothesis =>
      unfold lookupIn
      cases found : (store.frameAt frame).find? name with
      | some value => simp [found]
      | none => simp [found, inductionHypothesis]

variable
  {realm : Realm}
  {operators : Operators}
  {here there : Scope}
  {size later : Sizes}
  {value : Value}
  {operands : List Value}

theorem Coded.mono
    (coded : Coded realm operators size value)
    (grown : size ≤ later) :
    Coded realm operators later value := by
  induction coded with
  | constant isConstant => exact .constant isConstant
  | identifier inHome bound => exact .identifier inHome bound
  | quoted address => exact .quoted address
  | quotation spells quotes _ belong fits inductionHypothesis =>
      exact .quotation spells quotes inductionHypothesis (belong.mono grown) fits
  | application spells applies _ _ fits inductionHypothesis operandHypotheses =>
      exact .application spells applies inductionHypothesis operandHypotheses fits

/-- The items of a list of pairs that are set apart are spelled by the store. -/
theorem Realm.Spells.inStore
    {store : Store}
    {items : List Value}
    (spells : realm.Spells value items)
    (holds : store.Holds realm size) :
    store.Spells value items .nil := by
  induction spells with
  | nil => exact .nothing
  | pair isApart _ inductionHypothesis => exact .pair (holds.apart isApart) inductionHypothesis

theorem Realm.Spells.listItems?
    {store : Store}
    {items : List Value}
    (spells : realm.Spells value items)
    (holds : store.Holds realm size) :
    store.listItems? value = some items :=
  Store.listItems?_of_spells (spells.inStore holds)

/-! Steps, requests and scripts from two scopes. -/

/-- The steps are the same within the realm, or they evaluate the same code from the two scopes. -/
inductive Step.Alongside
    (realm : Realm)
    (operators : Operators)
    (here there : Scope)
    (size : Sizes) : Step → Step → Prop
  | same {step : Step} :
      step.Belongs realm size →
      Alongside realm operators here there size step step
  | tail {form : Value} :
      Coded realm operators size form →
      Alongside realm operators here there size (.tail here form) (.tail there form)

inductive Request.Alongside
    (realm : Realm)
    (operators : Operators)
    (here there : Scope)
    (size : Sizes) : Request → Request → Prop
  | same {request : Request} :
      request.Belongs realm size →
      Alongside realm operators here there size request request
  | evaluate {form : Value} :
      Coded realm operators size form →
      Alongside realm operators here there size (.evaluate here form) (.evaluate there form)
  | finish {first second : Step} :
      first.Alongside realm operators here there size second →
      Alongside realm operators here there size (.finish first) (.finish second)

theorem Step.Alongside.mono
    {first second : Step}
    (steps : first.Alongside realm operators here there size second)
    (grown : size ≤ later) :
    first.Alongside realm operators here there later second := by
  cases steps with
  | same belongs => exact .same (belongs.mono grown)
  | tail coded => exact .tail (coded.mono grown)

theorem Request.Alongside.mono
    {first second : Request}
    (requests : first.Alongside realm operators here there size second)
    (grown : size ≤ later) :
    first.Alongside realm operators here there later second := by
  cases requests with
  | same belongs => exact .same (belongs.mono grown)
  | evaluate coded => exact .evaluate (coded.mono grown)
  | finish steps => exact .finish (steps.mono grown)

/-- The scripts do the same within the realm, apart from code that they evaluate from two scopes. -/
inductive Script.Alongside
    {Answer : Type}
    (realm : Realm)
    (operators : Operators)
    (here there : Scope)
    (fine : Sizes → Answer → Answer → Prop) : Sizes → Script Answer → Script Answer → Prop
  | done {size : Sizes} {first second : Answer} :
      fine size first second →
      Alongside realm operators here there fine size (.done first) (.done second)
  | unwind {size : Sizes} {reason : Unwind} :
      reason.Belongs realm size →
      Alongside realm operators here there fine size (.unwind reason) (.unwind reason)
  | viewing
      {size : Sizes}
      {Result : Type}
      {look : Store → Result}
      {first second : Result → Script Answer} :
      (∀ store : Store,
        store.Reaches realm size →
        Alongside realm operators here there fine store.sizes
          (first (look store)) (second (look store))) →
      Alongside realm operators here there fine size (.viewing look first) (.viewing look second)
  | acting
      {size : Sizes}
      {Result : Type}
      {action : StoreM Result}
      {first second : Except Fault Result → Script Answer} :
      (∀ store : Store,
        store.Reaches realm size →
        store.Follows realm (action store).2) →
      (∀ store : Store,
        store.Reaches realm size →
        Alongside realm operators here there fine (action store).2.sizes
          (first (action store).1) (second (action store).1)) →
      Alongside realm operators here there fine size (.acting action first) (.acting action second)
  | switching
      {size : Sizes}
      {Result : Type}
      {change : Context → Result × Context}
      {first second : Result → Script Answer} :
      (∀ later context,
        size ≤ later →
        Context.Belongs realm later context →
        (change context).2.Belongs realm later) →
      (∀ later context,
        size ≤ later →
        Context.Belongs realm later context →
        Alongside realm operators here there fine later
          (first (change context).1) (second (change context).1)) →
      Alongside realm operators here there fine size (.switching change first)
        (.switching change second)
  | asking
      {size : Sizes}
      {request other : Request}
      {first second : Except Unwind Value → Script Answer} :
      request.Alongside realm operators here there size other →
      (∀ later result,
        size ≤ later →
        Outcome realm (Value.Belongs realm) later result →
        Alongside realm operators here there fine later (first result) (second result)) →
      Alongside realm operators here there fine size (.asking request first) (.asking other second)
  /-- The scope of a macro is needed, and it is still there. -/
  | reaching
      {size : Sizes}
      {home : Scope}
      {first second : Except Unwind Value → Script Answer} :
      (∀ later,
        size ≤ later →
        Alongside realm operators here there fine later
          (first (.ok (.boolean true))) (second (.ok (.boolean true)))) →
      Alongside realm operators here there fine size (.asking (.reach here home) first)
        (.asking (.reach there home) second)
  | deferring
      {size : Sizes}
      {step other : Step}
      {first second : Except Unwind Step → Script Answer} :
      step.Alongside realm operators here there size other →
      Alongside realm operators here there fine size (first (.ok step)) (second (.ok other)) →
      Alongside realm operators here there fine size
          (.deferring step first) (.deferring other second)

/-- The answers are the same one, which is fine. -/
def Alike {Answer : Type} (fine : Sizes → Answer → Prop) (size : Sizes) (first second : Answer) :
    Prop :=
  first = second ∧ fine size first

namespace Script.Alongside

variable
  {First Answer : Type}
  {fine : Sizes → Answer → Answer → Prop}

/-- A script that stays within the realm does the same both times. -/
theorem of_within
    {fineAnswer : Sizes → Answer → Prop}
    {script : Script Answer}
    (stays : Within realm fineAnswer size script)
    (included : ∀ later answer, fineAnswer later answer → fine later answer answer) :
    Script.Alongside realm operators here there fine size script script := by
  induction stays with
  | arriving impossible => exact impossible.elim
  | done isFine => exact .done (included _ _ isFine)
  | unwind belongs => exact .unwind belongs
  | viewing _ inductionHypothesis => exact .viewing inductionHypothesis
  | acting keeps _ inductionHypothesis => exact .acting keeps inductionHypothesis
  | switching keeps _ inductionHypothesis => exact .switching keeps inductionHypothesis
  | asking belongs _ inductionHypothesis => exact .asking (.same belongs) inductionHypothesis
  | deferring belongs _ inductionHypothesis => exact .deferring (.same belongs) inductionHypothesis

theorem bind
    {fineFirst : Sizes → First → First → Prop}
    {first second : Script First}
    {next following : First → Script Answer}
    (alongside : Script.Alongside realm operators here there fineFirst size first second)
    (continues :
      ∀ later answer other,
        size ≤ later →
        fineFirst later answer other →
        Script.Alongside realm operators here there fine later (next answer) (following other)) :
    Script.Alongside realm operators here there fine size (first >>= next)
        (second >>= following) := by
  change Script.Alongside realm operators here there fine size (first.bind next)
    (second.bind following)
  induction alongside with
  | done isFine => exact continues _ _ _ (le_refl _) isFine
  | unwind belongs => exact .unwind belongs
  | viewing _ inductionHypothesis =>
      exact .viewing fun store reaches =>
        inductionHypothesis store reaches fun later answer other more =>
          continues later answer other (le_trans reaches.grown more)
  | acting keeps _ inductionHypothesis =>
      refine .acting keeps fun store reaches =>
        inductionHypothesis store reaches fun later answer other more =>
          continues later answer other ?_
      exact le_trans (le_trans reaches.grown (keeps store reaches).grown) more
  | switching keeps _ inductionHypothesis =>
      exact .switching keeps fun later context grown belongs =>
        inductionHypothesis later context grown belongs fun last answer other more =>
          continues last answer other (le_trans grown more)
  | asking requests _ inductionHypothesis =>
      exact .asking requests fun later result grown outcome =>
        inductionHypothesis later result grown outcome fun last answer other more =>
          continues last answer other (le_trans grown more)
  | reaching _ inductionHypothesis =>
      exact .reaching fun later grown =>
        inductionHypothesis later grown fun last answer other more =>
          continues last answer other (le_trans grown more)
  | deferring steps _ inductionHypothesis =>
      exact .deferring steps (inductionHypothesis continues)

/-- What follows the same answer does the same both times. -/
theorem bindAlike
    {fineFirst : Sizes → First → Prop}
    {first second : Script First}
    {next following : First → Script Answer}
    (alongside : Script.Alongside realm operators here there (Alike fineFirst) size first second)
    (continues :
      ∀ later answer,
        size ≤ later →
        fineFirst later answer →
        Script.Alongside realm operators here there fine later (next answer) (following answer)) :
    Script.Alongside realm operators here there fine size (first >>= next)
        (second >>= following) := by
  refine alongside.bind fun later answer other grown alike => ?_
  obtain ⟨rfl, isFine⟩ := alike
  exact continues later answer grown isFine

end Script.Alongside

/-! What is done with code. -/

/-- Steps with the same further course. -/
abbrev Script.StepsAlongside
    (realm : Realm)
    (operators : Operators)
    (here there : Scope)
    (size : Sizes)
    (first second : Script Step) : Prop :=
  Script.Alongside realm operators here there
      (Step.Alongside realm operators here there) size first second

theorem alongside_within
    {script : Script Step}
    (stays : Within realm (Step.Belongs realm) size script) :
    StepsAlongside realm operators here there size script script :=
  .of_within stays fun _ _ => .same

theorem alongside_evaluate
    (coded : Coded realm operators size value) :
    Script.Alongside realm operators here there (Alike (Value.Belongs realm)) size
      (evaluate here value) (evaluate there value) := by
  refine .asking (.evaluate coded) fun later result grown outcome => ?_
  cases result with
  | ok answer => exact .done ⟨rfl, outcome⟩
  | error reason => exact .unwind outcome

theorem alongside_tail
    (coded : Coded realm operators size value) :
    StepsAlongside realm operators here there size (tail here value) (tail there value) := by
  unfold tail
  split
  · exact .deferring (.tail coded) (.done (.tail coded))
  · exact .deferring (.tail coded) (.done (.tail coded))
  · exact (alongside_evaluate coded).bindAlike fun _ _ _ belongs => .done (.same belongs)

section Operands

variable (coded : ∀ operand ∈ operands, Coded realm operators size operand)

include coded

theorem alongside_body :
    StepsAlongside realm operators here there size (body here operands) (body there operands) := by
  induction operands generalizing size with
  | nil => exact alongside_within (stays_answer trivial)
  | cons form rest inductionHypothesis =>
      obtain ⟨formCoded, restCoded⟩ := List.forall_mem_cons.mp coded
      cases rest with
      | nil => exact alongside_tail formCoded
      | cons second others =>
          refine (alongside_evaluate formCoded).bindAlike fun later _ grown _ => ?_
          exact inductionHypothesis fun operand member => (restCoded operand member).mono grown

theorem alongside_conditional :
    StepsAlongside realm operators here there size
      (Special.conditional here operands) (Special.conditional there operands) := by
  unfold Special.conditional
  split
  · obtain ⟨testCoded, restCoded⟩ := List.forall_mem_cons.mp coded
    refine (alongside_evaluate testCoded).bindAlike fun later value grown _ => ?_
    split
    · exact alongside_tail ((restCoded _ (by simp)).mono grown)
    · exact alongside_within (stays_answer trivial)
  · obtain ⟨testCoded, restCoded⟩ := List.forall_mem_cons.mp coded
    refine (alongside_evaluate testCoded).bindAlike fun later value grown _ => ?_
    split
    · exact alongside_tail ((restCoded _ (by simp)).mono grown)
    · exact alongside_tail ((restCoded _ (by simp)).mono grown)
  · exact alongside_within stays_refuseCount

theorem alongside_conjunction :
    StepsAlongside realm operators here there size
      (Special.conjunction here operands) (Special.conjunction there operands) := by
  induction operands generalizing size with
  | nil => exact alongside_within stays_refuseCount
  | cons form rest inductionHypothesis =>
      obtain ⟨formCoded, restCoded⟩ := List.forall_mem_cons.mp coded
      cases rest with
      | nil => exact alongside_tail formCoded
      | cons second others =>
          refine (alongside_evaluate formCoded).bindAlike fun later value grown _ => ?_
          split
          · exact inductionHypothesis fun operand member => (restCoded operand member).mono grown
          · exact alongside_within (stays_answer trivial)

theorem alongside_disjunction :
    StepsAlongside realm operators here there size
      (Special.disjunction here operands) (Special.disjunction there operands) := by
  induction operands generalizing size with
  | nil => exact alongside_within stays_refuseCount
  | cons form rest inductionHypothesis =>
      obtain ⟨formCoded, restCoded⟩ := List.forall_mem_cons.mp coded
      cases rest with
      | nil => exact alongside_tail formCoded
      | cons second others =>
          refine (alongside_evaluate formCoded).bindAlike fun later value grown isValue => ?_
          split
          · exact alongside_within (stays_answer isValue)
          · exact inductionHypothesis fun operand member => (restCoded operand member).mono grown

end Operands

/-! Lists of code. -/

private theorem alongside_operandsFrom
    {steps : Nat}
    {sofar : List Value}
    (spells : realm.Spells value operands)
    (coded : ∀ operand ∈ operands, Coded realm operators size operand)
    (earlier : AllBelong realm size sofar) :
    Script.Alongside realm operators here there (Alike (AllBelong realm)) size
      (Application.operandsFrom here steps sofar value)
      (Application.operandsFrom there steps sofar value) := by
  induction steps generalizing size sofar value operands with
  | zero => exact .done ⟨rfl, earlier.reverse⟩
  | succ steps inductionHypothesis =>
      cases spells with
      | nil => exact .done ⟨rfl, earlier.reverse⟩
      | @pair address head tail items isApart spells =>
          obtain ⟨headCoded, restCoded⟩ := List.forall_mem_cons.mp coded
          refine .viewing fun store reaches => ?_
          have present : store.pairAt address = ⟨head, tail⟩ := by
            rw [Store.pairAt, reaches.holds.apart isApart]
            rfl
          rw [present]
          refine (alongside_evaluate (headCoded.mono reaches.grown)).bindAlike
            fun later operand grown isOperand => ?_
          have all := le_trans reaches.grown grown
          exact inductionHypothesis spells
            (fun operand member => (restCoded operand member).mono all)
            (.cons isOperand (earlier.mono all))

theorem alongside_operandValues
    (spells : realm.Spells value operands)
    (coded : ∀ operand ∈ operands, Coded realm operators size operand) :
    Script.Alongside realm operators here there (Alike (AllBelong realm)) size
      (Application.operandValues here value) (Application.operandValues there value) := by
  refine .viewing fun store reaches => ?_
  dsimp only [Script.bind]
  split
  · exact alongside_operandsFrom spells
      (fun operand member => (coded operand member).mono reaches.grown) .nil
  · exact .of_within (stays_failWith fun _ _ => trivial) fun _ _ => False.elim

/-- A special form takes its operands as the code spells them. -/
private theorem alongside_listItems
    {first second : List Value → Script Step}
    (spells : realm.Spells value operands)
    (continues :
      ∀ later,
        size ≤ later →
        StepsAlongside realm operators here there later (first operands) (second operands)) :
    StepsAlongside realm operators here there size
      (perform (Store.listItems value) >>= first) (perform (Store.listItems value) >>= second) := by
  have listed {store : Store} (reaches : store.Reaches realm size) :
      Store.listItems value store = (.ok operands, store) := by
    unfold Store.listItems
    rw [StoreM.view_bind, spells.listItems? reaches.holds]
    rfl
  refine .acting (fun store reaches => ?_) fun store reaches => ?_
  · rw [listed reaches]
    exact reaches.follows
  · rw [listed reaches]
    exact continues _ reaches.grown

section Hosted

variable
  {host : Host}
  (hostStays : host.Stays realm)

include hostStays

/-- An operator is applied to the values of its operands, or it evaluates them in place. -/
theorem alongside_dispatch
    {form callee : Value}
    (spells : realm.Spells value operands)
    (coded : ∀ operand ∈ operands, Coded realm operators size operand)
    (calleeBelongs : callee.Belongs realm size)
    (isOperator : callee.isOperator) :
    StepsAlongside realm operators here there size
      (Application.dispatch host here form callee value)
      (Application.dispatch host there form callee value) := by
  unfold Application.dispatch
  split
  · refine alongside_listItems spells fun later grown => ?_
    have codedLater : ∀ operand ∈ operands, Coded realm operators later operand :=
      fun operand member => (coded operand member).mono grown
    split
    · exact alongside_within (stays_failTelling fun _ _ => trivial)
    · simp only [Value.isOperator, List.contains_iff_mem, List.mem_cons, List.not_mem_nil,
        or_false] at isOperator
      obtain rfl | rfl | rfl | rfl := isOperator
      · exact alongside_conditional codedLater
      · exact alongside_body codedLater
      · exact alongside_conjunction codedLater
      · exact alongside_disjunction codedLater
  · cases isOperator
  · refine (alongside_operandValues spells coded).bindAlike fun later values grown belong => ?_
    exact alongside_within
      (Application.stays_applyLocated hostStays (calleeBelongs.mono grown) belong)

omit hostStays in
/-- Data are quoted in the same way wherever that is done. -/
theorem alongside_quotation
    {form : Value}
    (spells : realm.Spells value operands)
    (belong : AllBelong realm size operands) :
    StepsAlongside realm operators here there size
      (Application.dispatch host here form (.special .quotation) value)
      (Application.dispatch host there form (.special .quotation) value) := by
  refine alongside_listItems spells fun later grown => ?_
  split
  · exact alongside_within (stays_failTelling fun _ _ => trivial)
  · exact alongside_within (Special.stays_quotation (belong.mono grown))

omit hostStays in
/-- Code that is no list does the same in both scopes. -/
theorem alongside_script
    (coded : Coded realm operators size value)
    (noPair : ∀ address, value ≠ .pair address) :
    StepsAlongside realm operators here there size
      (Evaluation.script host here value) (Evaluation.script host there value) := by
  cases coded with
  | constant isConstant =>
      cases value with
      | symbol name => exact isConstant.elim
      | «scoped» name home => exact isConstant.elim
      | vector address => exact isConstant.elim
      | marked mark address => exact isConstant.elim
      | program address => exact isConstant.elim
      | pair address => exact isConstant.elim
      | _ => exact alongside_within (stays_answer trivial)
  | @identifier name home frame inHome bound =>
      refine .reaching fun later grown => .viewing fun store reaches => ?_
      have present : (store.lookup? home name).isSome :=
        Store.isSome_lookupIn_iff.mpr ⟨frame, inHome, reaches.holds.binds bound⟩
      obtain ⟨found, isFound⟩ := Option.isSome_iff_exists.mp present
      rw [isFound]
      exact .done (.same (reaches.holds.lookup? isFound))
  | quoted address =>
      have stays :
          Within realm (Step.Belongs realm) size
            (Evaluation.marked here (.marked .quote address) .quote address) :=
        Evaluation.stays_marked
      exact alongside_within stays
  | quotation => exact (noPair _ rfl).elim
  | application => exact (noPair _ rfl).elim

end Hosted

end SmallScheme
