import SmallScheme.Primitive.Signature
import Mathlib.Data.List.Forall2

namespace SmallScheme

/-!
# Native functions

An adapted native function counts its operands before it looks at any of them, and reads all of
them, from left to right, before it runs.  What a call comes to is therefore known from the operands
alone, whatever the function does.
-/

namespace OperandKind

/-- The item is what an operand of the kind is. -/
inductive Reads (store : Store) : (kind : OperandKind) → Value → kind.Carrier → Prop
  | any (value : Value) : Reads store .any value value
  | integer (value : Int64) : Reads store .integer (.integer value) value
  | index {value : Int64} {index : Nat} :
      value.toInt = index → Reads store .index (.integer value) index
  | exact (value : Int64) : Reads store .number (.integer value) (Number.exact value)
  | real (value : Float) : Reads store .number (.real value) (Number.real value)
  | boolean (value : Bool) : Reads store .boolean (.boolean value) value
  | text (address : Nat) : Reads store .text (.text address) (store.textAt address)
  | textObject (address : Nat) : Reads store .textObject (.text address) address
  | symbol (name : String) : Reads store .symbol (.symbol name) name
  | scoped (name : String) (home : Scope) : Reads store .symbol (.scoped name home) name
  | byte {value : Int64} {byte : UInt8} :
      value.toInt = byte.toNat → Reads store .byte (.integer value) byte

/-- How messages call a kind that not every value is of. -/
def wanted : OperandKind → String
  | .any => "value"
  | .integer => "integer"
  | .index => "non-negative integer"
  | .number => "number"
  | .boolean => "boolean"
  | .text => "string"
  | .textObject => "string"
  | .symbol => "symbol"
  | .byte => "byte"

/--
The operand is nothing of the kind, and the fault says so; it never comes about if the operand has
no text.
-/
inductive Refuses (store : Store) : OperandKind → Value → Fault → Prop
  | kind {kind : OperandKind} {value : Value} :
      (∀ item, ¬kind.Reads store value item) →
      (kind = .byte → ∀ number, value ≠ .integer number) →
      Refuses store kind value
        (store.telling value fun text => .type (.expected kind.wanted text))
  /-- An integer that is no byte is reported as one that is out of range. -/
  | byteRange {value : Int64} :
      (∀ byte, ¬OperandKind.byte.Reads store (.integer value) byte) →
      Refuses store .byte (.integer value) (.type (.byteRange value))

variable
  {store : Store}
  {kind : OperandKind}
  {value : Value}
  {fault : Fault}

/-- An operand is read as what it is, or refused because it is nothing of the kind. -/
theorem read_meets
    (store : Store)
    (kind : OperandKind)
    (value : Value) :
    match kind.read store value with
    | .ok item => kind.Reads store value item
    | .error fault => kind.Refuses store value fault := by
  unfold OperandKind.read
  cases kind with
  | any => exact .any value
  | integer =>
      cases value with
      | integer value => exact .integer value
      | _ => exact .kind nofun nofun
  | index =>
      cases value with
      | integer value =>
          by_cases isIndex : 0 ≤ value.toInt
          · simp only [if_pos isIndex]
            exact .index (Int.toNat_of_nonneg isIndex).symm
          · simp only [if_neg isIndex]
            refine .kind ?_ nofun
            rintro index ⟨⟩
            omega
      | _ => exact .kind nofun nofun
  | number =>
      cases value with
      | integer value => exact .exact value
      | real value => exact .real value
      | _ => exact .kind nofun nofun
  | boolean =>
      cases value with
      | boolean value => exact .boolean value
      | _ => exact .kind nofun nofun
  | text =>
      cases value with
      | text address => exact .text address
      | _ => exact .kind nofun nofun
  | textObject =>
      cases value with
      | text address => exact .textObject address
      | _ => exact .kind nofun nofun
  | symbol =>
      cases value with
      | symbol name => exact .symbol name
      | «scoped» name home => exact .scoped name home
      | _ => exact .kind nofun nofun
  | byte =>
      cases value with
      | integer value =>
          by_cases isByte : 0 ≤ value.toInt ∧ value.toInt ≤ 255
          · simp only [isByte, decide_true, Bool.and_self, if_true]
            refine .byte ?_
            rw [UInt8.toNat_ofNat']
            omega
          · have outside : (decide (0 ≤ value.toInt) && decide (value.toInt ≤ 255)) = false := by
              simpa using isByte
            simp only [outside]
            refine .byteRange ?_
            rintro byte ⟨same⟩
            have := byte.toNat_lt
            omega
      | _ => exact .kind nofun fun _ => nofun

/-- What a kind reads of a value is what its reading computes. -/
theorem Reads.read_eq
    {item : kind.Carrier}
    (reads : kind.Reads store value item) :
    kind.read store value = .ok item := by
  cases reads with
  | index same => simp [OperandKind.read, same]
  | @byte value byte same =>
      have := byte.toNat_lt
      simp only [OperandKind.read, same, Int.toNat_natCast, UInt8.ofNat_toNat]
      exact if_pos (by simp; omega)
  | _ => rfl

/-- A reading answers exactly with what the kind reads. -/
theorem read_eq_ok_iff
    {item : kind.Carrier} :
    kind.read store value = .ok item ↔ kind.Reads store value item := by
  refine ⟨fun read => ?_, Reads.read_eq⟩
  have meets := read_meets store kind value
  rw [read] at meets
  exact meets

/-- A value is refused by a kind with one fault only. -/
theorem Refuses.unique
    {other : Fault}
    (refuses : kind.Refuses store value fault)
    (refusesOther : kind.Refuses store value other) :
    fault = other := by
  cases refuses with
  | kind _ noNumber =>
      cases refusesOther with
      | kind _ _ => rfl
      | byteRange _ => exact (noNumber rfl _ rfl).elim
  | byteRange _ =>
      cases refusesOther with
      | kind _ noNumber => exact (noNumber rfl _ rfl).elim
      | byteRange _ => rfl

/-- A refused value is not read. -/
theorem Refuses.not_reads
    (refuses : kind.Refuses store value fault)
    (item : kind.Carrier) :
    ¬kind.Reads store value item := by
  cases refuses with
  | kind isNone _ => exact isNone item
  | byteRange isNone => exact isNone item

/-- A reading fails exactly with the fault of the kind. -/
theorem read_eq_error_iff :
    kind.read store value = .error fault ↔ kind.Refuses store value fault := by
  have meets := read_meets store kind value
  cases read : kind.read store value with
  | ok item =>
      rw [read] at meets
      exact iff_of_false nofun fun refuses => refuses.not_reads item meets
  | error own =>
      rw [read] at meets
      refine ⟨?_, fun refuses => congrArg _ (meets.unique refuses)⟩
      rintro ⟨⟩
      exact meets

end OperandKind

/--
The first of the operands that is nothing of its kind has the fault.  Those before it are what they
should be.
-/
def FirstRefused (store : Store) (operands : List (OperandKind × Value)) (fault : Fault) : Prop :=
  ∃ earlier kind operand later,
    operands = earlier ++ (kind, operand) :: later ∧
      (∀ pair ∈ earlier, ∃ item, pair.1.Reads store pair.2 item) ∧
      kind.Refuses store operand fault

variable
  {store : Store}
  {kind : OperandKind}
  {value operand : Value}
  {operands : List Value}
  {fault : Fault}

/-- No operand is the first refused where there is none. -/
theorem not_firstRefused_nil :
    ¬FirstRefused store [] fault := by
  rintro ⟨earlier, kind, operand, later, same, -, -⟩
  cases List.append_eq_nil_iff.mp same.symm |>.2

/--
The first operand refused is the one at the head, or that one is read and it is among the others.
-/
theorem firstRefused_cons_iff
    {others : List (OperandKind × Value)} :
    FirstRefused store ((kind, operand) :: others) fault ↔
      kind.Refuses store operand fault ∨
        (∃ item, kind.Reads store operand item) ∧ FirstRefused store others fault := by
  constructor
  · rintro ⟨_ | ⟨first, earlier⟩, refusing, refused, later, same, read, refuses⟩
    · cases same
      exact .inl refuses
    · cases same
      obtain ⟨readFirst, readEarlier⟩ := List.forall_mem_cons.mp read
      exact .inr ⟨readFirst, earlier, refusing, refused, later, rfl, readEarlier, refuses⟩
  · rintro (refuses | ⟨read, earlier, refusing, refused, later, rfl, readEarlier, refuses⟩)
    · exact ⟨[], kind, operand, others, rfl, List.forall_mem_nil _, refuses⟩
    · exact ⟨(kind, operand) :: earlier, refusing, refused, later, rfl,
        List.forall_mem_cons.mpr ⟨read, readEarlier⟩, refuses⟩

/-! One operand, and then what comes of the others. -/

section First

variable
  {Others Answer : Type}
  {others : Except Fault Others}
  {together : kind.Carrier → Others → Answer}

/-- Operands read from left to right are all read exactly where the first is and the others are. -/
theorem read_first_eq_ok_iff
    {answer : Answer} :
    (do
        let item ← kind.read store operand
        let items ← others
        return together item items) =
        .ok answer ↔
      ∃ item items,
        kind.Reads store operand item ∧ others = .ok items ∧ together item items = answer := by
  cases first : kind.read store operand with
  | error fault =>
      refine iff_of_false nofun ?_
      rintro ⟨item, _, reads, _⟩
      cases first.symm.trans reads.read_eq
  | ok item =>
      cases others with
      | error fault => exact iff_of_false nofun nofun
      | ok items =>
          constructor
          · rintro ⟨⟩
            exact ⟨item, items, OperandKind.read_eq_ok_iff.mp first, rfl, rfl⟩
          · rintro ⟨other, _, reads, ⟨⟩, rfl⟩
            cases first.symm.trans reads.read_eq
            rfl

/-- The others matter only if this one is read. -/
theorem read_first_eq_error_iff :
    (do
        let item ← kind.read store operand
        let items ← others
        return together item items) =
        .error fault ↔
      kind.Refuses store operand fault ∨
        (∃ item, kind.Reads store operand item) ∧ others = .error fault := by
  cases first : kind.read store operand with
  | error own =>
      have isOwn : kind.Refuses store operand own := OperandKind.read_eq_error_iff.mp first
      constructor
      · rintro ⟨⟩
        exact .inl isOwn
      · rintro (refuses | ⟨⟨item, reads⟩, -⟩)
        · exact congrArg _ (isOwn.unique refuses)
        · exact (isOwn.not_reads item reads).elim
  | ok item =>
      have reads := OperandKind.read_eq_ok_iff.mp first
      cases others with
      | error own =>
          refine ⟨fun failed => .inr ⟨⟨item, reads⟩, ?_⟩, ?_⟩
          · cases failed
            rfl
          · rintro (refuses | ⟨-, ⟨⟩⟩)
            · exact (refuses.not_reads item reads).elim
            · rfl
      | ok items =>
          refine iff_of_false nofun ?_
          rintro (refuses | ⟨-, ⟨⟩⟩)
          exact refuses.not_reads item reads

end First

/-! Further operands of one kind. -/

/-- Operands of one kind are read together exactly where each is read. -/
theorem OperandKind.readAll_eq_ok_iff
    {items : List kind.Carrier} :
    kind.readAll store operands = .ok items ↔
      List.Forall₂ (kind.Reads store) operands items := by
  induction operands generalizing items with
  | nil =>
      rw [List.forall₂_nil_left_iff, readAll, Except.ok.injEq]
      exact eq_comm
  | cons operand rest inductionHypothesis =>
      rw [List.forall₂_cons_left_iff, readAll, read_first_eq_ok_iff]
      constructor
      · rintro ⟨item, others, reads, readRest, rfl⟩
        exact ⟨item, others, reads, inductionHypothesis.mp readRest, rfl⟩
      · rintro ⟨item, others, reads, readsRest, rfl⟩
        exact ⟨item, others, reads, inductionHypothesis.mpr readsRest, rfl⟩

/-- Operands of one kind fail together with the fault of the first that is refused. -/
theorem OperandKind.readAll_eq_error_iff :
    kind.readAll store operands = .error fault ↔
      FirstRefused store (operands.map (kind, ·)) fault := by
  induction operands with
  | nil => exact iff_of_false nofun not_firstRefused_nil
  | cons operand rest inductionHypothesis =>
      rw [List.map_cons, firstRefused_cons_iff, ← inductionHypothesis, readAll]
      exact read_first_eq_error_iff

/-- Looking at the store leaves it as it is, also where it fails. -/
theorem StoreM.look_bind
    {First Second : Type}
    (look : Store → Except Fault First)
    (rest : First → StoreM Second)
    (store : Store) :
    ((fun store => (look store, store) : StoreM First) >>= rest) store =
      match look store with
      | .error fault => (.error fault, store)
      | .ok found => rest found store := by
  change ExceptT.bindCont rest (look store) store = _
  cases look store <;> rfl

namespace Signature

/-- What a native function with these operands receives, one item after the other. -/
@[reducible]
def ItemsOf : List OperandKind → Option OperandKind → Type
  | [], none => Unit
  | [], some kind => List kind.Carrier
  | kind :: kinds, rest => kind.Carrier × ItemsOf kinds rest

/-- Run a native function on items. -/
def call :
    (fixed : List OperandKind) →
    (rest : Option OperandKind) →
    BodyOf fixed rest →
    ItemsOf fixed rest →
    StoreM Value
  | [], none, body, _ => body
  | [], some _, body, items => body items
  | _ :: kinds, rest, body, items => call kinds rest (body items.1) items.2

/-- Each item is what its operand is, and no operand is left over. -/
inductive AllRead (store : Store) :
    (fixed : List OperandKind) →
    (rest : Option OperandKind) →
    List Value →
    ItemsOf fixed rest →
    Prop
  | none : AllRead store [] none [] ()
  | rest {kind : OperandKind} {operands : List Value} {items : List kind.Carrier} :
      List.Forall₂ (kind.Reads store) operands items →
      AllRead store [] (some kind) operands items
  | fixed {kind : OperandKind} {kinds : List OperandKind} {rest : Option OperandKind}
      {operand : Value} {operands : List Value} {item : kind.Carrier} {items : ItemsOf kinds rest} :
      kind.Reads store operand item →
      AllRead store kinds rest operands items →
      AllRead store (kind :: kinds) rest (operand :: operands) (item, items)

/-- The operands with the kinds that they should be of. -/
def assigned (signature : Signature) (operands : List Value) : List (OperandKind × Value) :=
  signature.fixed.zip operands ++
    match signature.rest with
    | none => []
    | some kind => (operands.drop signature.fixed.length).map (kind, ·)

/--
What comes of a call before the native function is asked: a fault for the number of operands, or
else the fault of the first one that is refused, or else the items that the function receives.
-/
inductive Judges (signature : Signature) (store : Store) (operands : List Value) :
    Except Fault (ItemsOf signature.fixed signature.rest) → Prop
  | miscounted :
      ¬signature.arity.accepts operands.length →
      Judges signature store operands
        (.error (.arity signature.fixed.length operands.length none))
  | refused {fault : Fault} :
      signature.arity.accepts operands.length →
      FirstRefused store (signature.assigned operands) fault →
      Judges signature store operands (.error fault)
  | read {items : ItemsOf signature.fixed signature.rest} :
      signature.arity.accepts operands.length →
      AllRead store signature.fixed signature.rest operands items →
      Judges signature store operands (.ok items)

/-- The items for the operands, or the fault of the first that is refused. -/
def readItems (store : Store) :
    (fixed : List OperandKind) →
    (rest : Option OperandKind) →
    List Value →
    Except Fault (ItemsOf fixed rest)
  | [], none, _ => .ok ()
  | [], some kind, operands => kind.readAll store operands
  | _ :: _, _, [] => .error (.arity 1 0 none)
  | kind :: kinds, rest, operand :: operands => do
      let item ← kind.read store operand
      let items ← readItems store kinds rest operands
      return (item, items)

/-- Run a native function on its items, or fail without running it. -/
def settle
    {fixed : List OperandKind}
    {rest : Option OperandKind}
    (judgement : Except Fault (ItemsOf fixed rest))
    (body : BodyOf fixed rest) : StoreM Value :=
  match judgement with
  | .error fault => throw fault
  | .ok items => call fixed rest body items

/-- The function runs on all items or not at all. -/
theorem feed_eq
    (fixed : List OperandKind)
    (rest : Option OperandKind)
    (body : BodyOf fixed rest)
    (operands : List Value)
    (store : Store) :
    feed fixed rest body operands store =
      settle (readItems store fixed rest operands) body store := by
  induction fixed generalizing operands with
  | nil =>
      cases rest with
      | none => rfl
      | some kind =>
          refine (StoreM.look_bind (kind.readAll · operands) body store).trans ?_
          rw [readItems]
          cases kind.readAll store operands <;> rfl
  | cons kind kinds inductionHypothesis =>
      cases operands with
      | nil => rfl
      | cons operand operands =>
          refine (StoreM.look_bind (kind.read · operand) _ store).trans ?_
          rw [readItems]
          cases kind.read store operand with
          | error fault => rfl
          | ok item =>
              refine (inductionHypothesis (body item) operands).trans ?_
              cases readItems store kinds rest operands <;> rfl

/-- A signature takes one operand more than without its first kind. -/
theorem accepts_cons_iff
    {kinds : List OperandKind}
    {rest : Option OperandKind} :
    (⟨kind :: kinds, rest⟩ : Signature).arity.accepts (operand :: operands).length ↔
      (⟨kinds, rest⟩ : Signature).arity.accepts operands.length := by
  cases rest with
  | none => exact Nat.succ_inj
  | some kind => exact Nat.succ_le_succ_iff

/-- A signature with a fixed kind does not take no operands. -/
theorem not_accepts_nil
    {kinds : List OperandKind}
    {rest : Option OperandKind} :
    ¬(⟨kind :: kinds, rest⟩ : Signature).arity.accepts ([] : List Value).length := by
  cases rest with
  | none => exact nofun
  | some kind => exact nofun

/-- The items of accepted operands are those that each kind reads of its operand. -/
theorem readItems_eq_ok_iff
    {fixed : List OperandKind}
    {rest : Option OperandKind}
    (accepts : (⟨fixed, rest⟩ : Signature).arity.accepts operands.length)
    {items : ItemsOf fixed rest} :
    readItems store fixed rest operands = .ok items ↔ AllRead store fixed rest operands items := by
  induction fixed generalizing operands with
  | nil =>
      cases rest with
      | none =>
          cases List.eq_nil_of_length_eq_zero accepts
          exact iff_of_true rfl .none
      | some kind =>
          refine OperandKind.readAll_eq_ok_iff.trans ⟨.rest, ?_⟩
          rintro ⟨⟩
          assumption
  | cons kind kinds inductionHypothesis =>
      cases operands with
      | nil => exact (not_accepts_nil accepts).elim
      | cons operand operands =>
          have acceptsRest := accepts_cons_iff.mp accepts
          rw [readItems, read_first_eq_ok_iff]
          constructor
          · rintro ⟨item, others, reads, readRest, rfl⟩
            exact .fixed reads ((inductionHypothesis acceptsRest).mp readRest)
          · intro readsItems
            cases readsItems with
            | fixed reads readsRest =>
                exact ⟨_, _, reads, (inductionHypothesis acceptsRest).mpr readsRest, rfl⟩

/-- The reading of accepted operands fails with the fault of the leftmost one refused. -/
theorem readItems_eq_error_iff
    {fixed : List OperandKind}
    {rest : Option OperandKind}
    (accepts : (⟨fixed, rest⟩ : Signature).arity.accepts operands.length) :
    readItems store fixed rest operands = .error fault ↔
      FirstRefused store ((⟨fixed, rest⟩ : Signature).assigned operands) fault := by
  induction fixed generalizing operands with
  | nil =>
      cases rest with
      | none => exact iff_of_false nofun not_firstRefused_nil
      | some kind => exact OperandKind.readAll_eq_error_iff
  | cons kind kinds inductionHypothesis =>
      cases operands with
      | nil => exact (not_accepts_nil accepts).elim
      | cons operand operands =>
          have acceptsRest := accepts_cons_iff.mp accepts
          have pairs :
              (⟨kind :: kinds, rest⟩ : Signature).assigned (operand :: operands) =
                (kind, operand) :: (⟨kinds, rest⟩ : Signature).assigned operands :=
            rfl
          rw [pairs, firstRefused_cons_iff, ← inductionHypothesis acceptsRest, readItems]
          exact read_first_eq_error_iff

/-! Judgements. -/

/-- A count that is not accepted is told how many operands are fixed. -/
theorem refuses?_of_not_accepts
    {signature : Signature}
    {given : Nat}
    (refused : ¬signature.arity.accepts given) :
    signature.arity.refuses? given = some signature.fixed.length := by
  obtain ⟨fixed, _ | kind⟩ := signature
  · exact if_neg refused
  · exact if_pos (Nat.lt_of_not_le refused)

/-- What comes of a call before the native function is asked, as one looks for it. -/
def verdict (signature : Signature) (store : Store) (operands : List Value) :
    Except Fault (ItemsOf signature.fixed signature.rest) :=
  match signature.arity.refuses? operands.length with
  | some bound => .error (.arity bound operands.length none)
  | none => readItems store signature.fixed signature.rest operands

/-- An adapted function judges its operands and then settles the judgement. -/
theorem adapt_eq
    (signature : Signature)
    (body : signature.Body)
    (operands : List Value)
    (store : Store) :
    signature.adapt body operands store =
      settle (signature.verdict store operands) body store := by
  unfold adapt verdict
  cases signature.arity.refuses? operands.length with
  | some bound => rfl
  | none => exact feed_eq _ _ body operands store

/-- The judgement of operands is what the verdict computes. -/
theorem judges_iff
    {signature : Signature}
    {judgement : Except Fault (ItemsOf signature.fixed signature.rest)} :
    signature.Judges store operands judgement ↔ signature.verdict store operands = judgement := by
  by_cases accepts : signature.arity.accepts operands.length
  · rw [verdict, Arity.refuses?_eq_none_iff.mpr accepts]
    cases judgement with
    | error fault =>
        refine ⟨?_, fun read => .refused accepts ((readItems_eq_error_iff accepts).mp read)⟩
        rintro (refused | ⟨-, isFirst⟩)
        · exact (refused accepts).elim
        · exact (readItems_eq_error_iff accepts).mpr isFirst
    | ok items =>
        refine ⟨?_, fun read => .read accepts ((readItems_eq_ok_iff accepts).mp read)⟩
        rintro (_ | _ | ⟨-, allRead⟩)
        exact (readItems_eq_ok_iff accepts).mpr allRead
  · rw [verdict, refuses?_of_not_accepts accepts]
    refine ⟨?_, ?_⟩
    · rintro (_ | ⟨accepted, -⟩ | ⟨accepted, -⟩)
      · rfl
      · exact (accepts accepted).elim
      · exact (accepts accepted).elim
    · rintro rfl
      exact .miscounted accepts

end Signature

/--
For each call of a native function there is exactly one judgement, which the operands alone decide.
If it is a fault, the call fails with it and the function does not run.  If it is items, the call is
one run of the function on them.  The store is as it was until then.
-/
theorem native_functions_run_once_on_what_all_operands_are
    (signature : Signature)
    (operands : List Value)
    (store : Store) :
    (∃! verdict, signature.Judges store operands verdict) ∧
      (∀ fault,
        signature.Judges store operands (.error fault) →
        ∀ body : signature.Body, signature.adapt body operands store = (.error fault, store)) ∧
      ∀ items,
        signature.Judges store operands (.ok items) →
        ∀ body : signature.Body,
          signature.adapt body operands store =
            Signature.call signature.fixed signature.rest body items store := by
  refine ⟨⟨signature.verdict store operands, Signature.judges_iff.mpr rfl,
    fun _ judges => (Signature.judges_iff.mp judges).symm⟩, ?_, ?_⟩
  · intro fault judges body
    rw [signature.adapt_eq, Signature.judges_iff.mp judges]
    rfl
  · intro items judges body
    rw [signature.adapt_eq, Signature.judges_iff.mp judges]
    rfl

/-- A native function of an integer and any numbers after it. -/
def countFrom (start : Int64) (numbers : List Number) : StoreM Value :=
  return .integer (start + Int64.ofNat numbers.length)

/-- No operand at all, a third one that is no number, and operands that are all read. -/
theorem counting_needs_an_integer_and_numbers :
    Signature.adapt ⟨[.integer], some .number⟩ countFrom [] Store.empty =
        (.error (.arity 1 0 none), Store.empty) ∧
      Signature.adapt ⟨[.integer], some .number⟩ countFrom
          [.integer 2, .integer 5, .boolean true, .nil] Store.empty =
        (.error (.type (.expected "number" "#t")), Store.empty) ∧
      Signature.adapt ⟨[.integer], some .number⟩ countFrom [.integer 2, .integer 5, .integer 7]
          Store.empty =
        (.ok (.integer 4), Store.empty) := by
  refine ⟨?_, ?_, ?_⟩
  · obtain ⟨_, fails, _⟩ :=
      native_functions_run_once_on_what_all_operands_are ⟨[.integer], some .number⟩ [] Store.empty
    exact fails _ (.miscounted nofun) countFrom
  · obtain ⟨_, fails, _⟩ :=
      native_functions_run_once_on_what_all_operands_are ⟨[.integer], some .number⟩
        [.integer 2, .integer 5, .boolean true, .nil] Store.empty
    refine fails _ (.refused (Arity.refuses?_eq_none_iff.mp rfl) ?_) countFrom
    have isNoNumber : OperandKind.number.Refuses Store.empty (.boolean true)
        (Store.empty.telling (.boolean true) fun text => .type (.expected "number" text)) :=
      .kind nofun nofun
    refine ⟨[(.integer, .integer 2), (.number, .integer 5)], .number, .boolean true,
      [(.number, .nil)], rfl, ?_, isNoNumber⟩
    exact List.forall_mem_cons.mpr
      ⟨⟨_, .integer 2⟩, List.forall_mem_cons.mpr ⟨⟨_, .exact 5⟩, List.forall_mem_nil _⟩⟩
  · obtain ⟨_, _, runs⟩ :=
      native_functions_run_once_on_what_all_operands_are ⟨[.integer], some .number⟩
        [.integer 2, .integer 5, .integer 7] Store.empty
    refine runs (2, [.exact 5, .exact 7]) (.read (Arity.refuses?_eq_none_iff.mp rfl) ?_) countFrom
    exact .fixed (.integer 2) (.rest (.cons (.exact 5) (.cons (.exact 7) .nil)))

end SmallScheme
