import SmallScheme.Proofs.Quasiquotation.Quoting
import SmallScheme.Proofs.RelatedLists

namespace SmallScheme

/-!
# Quotations of values without cycles

Quoting looks for marked forms and for identifiers of macros inside the pairs and vectors of a
value.  Where it finds none it gives the value itself, and in what it gives there are none.
-/

/-- A marked form or an identifier that a macro put there. -/
def Value.IsRewritten : Value → Prop
  | .marked _ _ => True
  | .scoped _ _ => True
  | _ => False

namespace Store

/-- The second value is the head or the tail of a pair, or an item of a vector. -/
def HasPiece (store : Store) (whole piece : Value) : Prop :=
  match whole with
  | .pair address =>
      ∃ pair, store.pairs[address]? = some pair ∧ (piece = pair.head ∨ piece = pair.tail)
  | .vector address => ∃ items, store.vectors[address]? = some items ∧ piece ∈ items
  | _ => False

/-- Nowhere in the pairs and vectors of the value is there anything that quoting rewrites. -/
def IsLiteral (store : Store) (value : Value) : Prop :=
  ∀ piece, Relation.ReflTransGen store.HasPiece value piece → ¬piece.IsRewritten

variable
  {store : Store}
  {value quotation : Value}

theorem isLiteral_iff :
    store.IsLiteral value ↔
      ¬value.IsRewritten ∧ ∀ piece, store.HasPiece value piece → store.IsLiteral piece := by
  constructor
  · intro isLiteral
    refine ⟨isLiteral value .refl, fun piece hasPiece last further => ?_⟩
    exact isLiteral last (.head hasPiece further)
  · rintro ⟨notRewritten, pieces⟩ piece leads
    rcases leads.cases_head with rfl | ⟨first, hasPiece, further⟩
    · exact notRewritten
    · exact pieces first hasPiece piece further

theorem isLiteral_pair_iff
    {address : Nat}
    {head tail : Value}
    (found : store.pairs[address]? = some ⟨head, tail⟩) :
    store.IsLiteral (.pair address) ↔ store.IsLiteral head ∧ store.IsLiteral tail := by
  rw [isLiteral_iff]
  simp [Value.IsRewritten, HasPiece, found]

theorem isLiteral_vector_iff
    {address : Nat}
    {items : List Value}
    (found : store.vectors[address]? = some items.toArray) :
    store.IsLiteral (.vector address) ↔ ∀ item ∈ items, store.IsLiteral item := by
  rw [isLiteral_iff]
  simp [Value.IsRewritten, HasPiece, found]

/-- A chain is literal if its items and its ending are. -/
theorem isLiteral_spells_iff
    {items : List Value}
    {ending : Value}
    (spells : store.Spells value items ending) :
    store.IsLiteral value ↔ (∀ item ∈ items, store.IsLiteral item) ∧ store.IsLiteral ending := by
  induction spells with
  | nothing => simp
  | pair found _ inductionHypothesis =>
      rw [isLiteral_pair_iff found, inductionHypothesis, List.forall_mem_cons, and_assoc]

theorem isLiteral_symbol
    (store : Store)
    (name : String) :
    store.IsLiteral (.symbol name) :=
  isLiteral_iff.mpr ⟨id, fun _ => False.elim⟩

theorem isLiteral_of_standsForItself
    (isConstant : value.StandsForItself) :
    store.IsLiteral value := by
  refine isLiteral_iff.mpr ⟨fun rewritten => ?_, fun piece hasPiece => ?_⟩
  · cases value <;> first | exact isConstant | exact rewritten
  · cases value <;> first | exact isConstant.elim | exact hasPiece.elim

theorem isLiteral_nil
    (store : Store) :
    store.IsLiteral .nil :=
  @isLiteral_of_standsForItself store .nil trivial

/-! What quotes a value. -/

/-- Only constants, symbols, pairs and vectors quote anything. -/
theorem IsQuotedAs.isLiteral
    (quotes : store.IsQuotedAs value quotation) :
    store.IsLiteral quotation := by
  induction quotes with
  | constant isConstant => exact isLiteral_of_standsForItself isConstant
  | identifier _ => exact isLiteral_symbol store _
  | pair _ foundCopy _ _ headIsLiteral tailIsLiteral =>
      exact (isLiteral_pair_iff foundCopy).mpr ⟨headIsLiteral, tailIsLiteral⟩
  | vector _ foundCopy sameLength _ copyIsLiteral =>
      have copies := List.forall₂_iff_zip.mpr ⟨sameLength, copyIsLiteral⟩
      exact (isLiteral_vector_iff foundCopy).mpr (forall_mem_right_of_forall₂ copies id)
  | marked _ _ spells datumIsLiteral =>
      refine (isLiteral_spells_iff spells).mpr ⟨?_, isLiteral_nil store⟩
      exact List.forall_mem_cons.mpr
        ⟨isLiteral_symbol store _, List.forall_mem_singleton.mpr datumIsLiteral⟩

theorem isFinite_of_standsForItself
    (isConstant : value.StandsForItself) :
    store.IsFinite value :=
  (alike_of_standsForItself isConstant).isFinite

/-- What quotes a value has no cycles, either. -/
theorem IsQuotedAs.isFinite
    (quotes : store.IsQuotedAs value quotation) :
    store.IsFinite quotation := by
  have symbolIsFinite (name : String) : store.IsFinite (.symbol name) := ⟨.identifier name, rfl⟩
  induction quotes with
  | constant isConstant => exact isFinite_of_standsForItself isConstant
  | identifier _ => exact symbolIsFinite _
  | pair _ foundCopy _ _ headIsFinite tailIsFinite =>
      refine .of_spells (.pair foundCopy .nothing) ?_ tailIsFinite
      exact List.forall_mem_singleton.mpr headIsFinite
  | vector _ foundCopy sameLength _ copyIsFinite =>
      have copies := List.forall₂_iff_zip.mpr ⟨sameLength, copyIsFinite⟩
      have alike := List.forall₂_same.mpr fun copy member =>
        (forall_mem_right_of_forall₂ copies id copy member).alike
      exact (Alike.of_vectors foundCopy foundCopy alike).isFinite
  | marked _ _ spells datumIsFinite =>
      refine .of_spells spells ?_ (@isFinite_of_standsForItself store .nil trivial)
      exact List.forall_mem_cons.mpr
        ⟨symbolIsFinite _, List.forall_mem_singleton.mpr datumIsFinite⟩

/-- A list is quoted item by item, and then comes what quotes its ending. -/
theorem IsQuotedAs.spells
    {items : List Value}
    {ending : Value}
    (quotes : store.IsQuotedAs value quotation)
    (spells : store.Spells value items ending) :
    ∃ copies endingCopy,
      store.Spells quotation copies endingCopy ∧ List.Forall₂ store.IsQuotedAs items copies ∧
        store.IsQuotedAs ending endingCopy := by
  induction spells generalizing quotation with
  | nothing => exact ⟨[], quotation, .nothing, .nil, quotes⟩
  | pair found _ inductionHypothesis =>
      obtain ⟨address, headCopy, _, rfl, foundCopy, quotesHead, quotesTail⟩ := quotes.of_pair found
      obtain ⟨copies, endingCopy, spellsCopy, quoteItems, quotesEnding⟩ :=
        inductionHypothesis quotesTail
      exact ⟨headCopy :: copies, endingCopy, .pair foundCopy spellsCopy,
        .cons quotesHead quoteItems, quotesEnding⟩

/-! What quoting looks for. -/

/-- The test for whether there is anything to rewrite finds everything that quoting rewrites. -/
theorem IsWithin.isPlain_iff
    {depth : Nat}
    (isWithin : store.IsWithin depth value) :
    (store.formWithin depth value).isPlain ↔ store.IsLiteral value := by
  induction depth generalizing value with
  | zero =>
      obtain ⟨_, _, below⟩ := isWithin
      exact (Nat.not_lt_zero _ below).elim
  | succ depth inductionHypothesis =>
      have together {items : List Value} (within : ∀ item ∈ items, store.IsWithin depth item) :
          Form.allPlain (items.map (store.formWithin depth)) ↔
            ∀ item ∈ items, store.IsLiteral item := by
        rw [allPlain_map_iff]
        exact forall₂_congr fun item member => inductionHypothesis (within item member)
      have rewritten (isRewritten : value.IsRewritten) : ¬store.IsLiteral value :=
        fun isLiteral => isLiteral value .refl isRewritten
      cases value with
      | symbol name => exact iff_of_true rfl (isLiteral_symbol store name)
      | «scoped» name home => exact iff_of_false nofun (rewritten trivial)
      | marked mark address => exact iff_of_false nofun (rewritten trivial)
      | pair address =>
          obtain ⟨items, ending, spells, isLast⟩ := isWithin.isFinite.exists_spells
          obtain ⟨withinItems, withinEnding⟩ := isWithin.items spells
          have nonempty : items ≠ [] := by
            rintro rfl
            cases spells
            exact isLast address rfl
          rw [formWithin, chain_of_spells spells isLast]
          dsimp only
          rw [Form.isPlain, Bool.and_eq_true, together withinItems,
            inductionHypothesis (withinEnding nonempty), isLiteral_spells_iff spells]
      | vector address =>
          obtain ⟨items, found, withinItems⟩ := isWithin.vector
          rw [formWithin, vectorAt, found]
          exact (together withinItems).trans (isLiteral_vector_iff found).symm
      | _ =>
          refine iff_of_true rfl (isLiteral_of_standsForItself ?_)
          trivial

/-- A plain form is quoted by the value that it shows, and nothing is made for it. -/
theorem quoted_of_isPlain
    {depth : Nat}
    (plain : (store.formWithin depth value).isPlain)
    (present : Store) :
    (store.formWithin depth value).quoted present = (value, present) := by
  cases depth with
  | zero => rfl
  | succ depth =>
      cases value with
      | «scoped» name home => cases plain
      | marked mark address => cases plain
      | pair address => exact if_pos plain
      | vector address => exact if_pos plain
      | _ => rfl

theorem IsFinite.isPlain_iff
    (isFinite : store.IsFinite value) :
    (store.form value).isPlain ↔ store.IsLiteral value := by
  obtain ⟨outline, shows⟩ := isFinite
  exact IsWithin.isPlain_iff ⟨outline, shows, Nat.lt_succ_of_le shows.height_le_extent⟩

theorem IsFinite.quoteValue_of_isLiteral
    (isFinite : store.IsFinite value)
    (isLiteral : store.IsLiteral value) :
    store.quoteValue value = (value, store) :=
  quoted_of_isPlain (isFinite.isPlain_iff.mpr isLiteral) store

end Store

/--
The quotation of a value without cycles is literal: nothing is left in it that quoting rewrites, so
that quoting it once more changes nothing.  A value that was literal before is its own quotation.
Any other one is copied: lists keep their items and their ending, vectors their items, and a marked
form becomes the list of its keyword and what quotes the form.
-/
theorem quotations_are_literal_and_shaped_like_their_forms
    {store : Store}
    {value : Value}
    (isFinite : store.IsFinite value) :
    ∃ quotation after,
      store.quoteValue value = (quotation, after) ∧
        store.Grows after ∧
        after.IsLiteral quotation ∧
        (after.form quotation).isPlain ∧
        after.quoteValue quotation = (quotation, after) ∧
        (store.IsLiteral value → quotation = value ∧ after = store) ∧
        after.IsQuotedAs value quotation ∧
        ∀ items ending,
          store.Spells value items ending →
          ∃ copies endingCopy,
            after.Spells quotation copies endingCopy ∧
              List.Forall₂ after.IsQuotedAs items copies ∧ after.IsQuotedAs ending endingCopy := by
  obtain ⟨grows, quotes⟩ := isFinite.quoteValue_quotes
  have isLiteral := quotes.isLiteral
  refine ⟨_, _, rfl, grows, isLiteral, quotes.isFinite.isPlain_iff.mpr isLiteral,
    quotes.isFinite.quoteValue_of_isLiteral isLiteral, fun wasLiteral => ?_, quotes,
    fun items ending spells => quotes.spells (spells.grows grows)⟩
  have same := isFinite.quoteValue_of_isLiteral wasLiteral
  exact ⟨congrArg Prod.fst same, congrArg Prod.snd same⟩

/-- The form `('a #(b 1) . ,x)`, where a macro has put the `b` there, and the vector `#(1 2)`. -/
def nestedForm : Store :=
  { Store.empty with
    pairs := #[⟨.marked .quote 0, .pair 1⟩, ⟨.vector 0, .marked .unquote 1⟩]
    vectors := #[#[.scoped "b" ⟨0, []⟩, .integer 1], #[.integer 1, .integer 2]]
    marked := #[.symbol "a", .symbol "x"] }

/-- The two items stay where they are, before the list that the mark at the end becomes. -/
theorem nested_form_is_quoted :
    (nestedForm.IsFinite (.pair 0) ∧
      ∃ quotation after,
        nestedForm.quoteValue (.pair 0) = (quotation, after) ∧
          after.quoteValue quotation = (quotation, after) ∧
          after.written quotation = "((quote a) #(b 1) unquote x)" ∧
          ∃ copies endingCopy, after.Spells quotation copies endingCopy ∧ copies.length = 2) ∧
      nestedForm.IsLiteral (.vector 1) ∧
        nestedForm.quoteValue (.vector 1) = (.vector 1, nestedForm) := by
  refine ⟨?_, ?_⟩
  · have isFinite : nestedForm.IsFinite (.pair 0) :=
      ⟨.pair (.marked .quote (.identifier "a"))
          (.pair (.vector [.identifier "b", .leaf (.integer 1)])
            (.marked .unquote (.identifier "x"))),
        0, _, _, rfl, rfl, ⟨0, _, rfl, rfl, rfl⟩, 1, _, _, rfl, rfl,
        ⟨0, [.scoped "b" ⟨0, []⟩, .integer 1], rfl, rfl, _, _, rfl, rfl, _, _, rfl,
          ⟨rfl, trivial⟩, rfl⟩,
        1, _, rfl, rfl, rfl⟩
    have spells :
        nestedForm.Spells (.pair 0) [.marked .quote 0, .vector 0] (.marked .unquote 1) :=
      .pair rfl (.pair rfl .nothing)
    obtain ⟨quotation, after, quoted, _, _, _, again, _, _, lists⟩ :=
      quotations_are_literal_and_shaped_like_their_forms isFinite
    obtain ⟨copies, endingCopy, spellsCopy, quoteItems, _⟩ := lists _ _ spells
    refine ⟨isFinite, quotation, after, quoted, again, ?_, copies, endingCopy, spellsCopy,
      quoteItems.length_eq.symm⟩
    cases quoted
    decide +kernel
  · have isFinite : nestedForm.IsFinite (.vector 1) :=
      ⟨.vector [.leaf (.integer 1), .leaf (.integer 2)], 1, [.integer 1, .integer 2], rfl, rfl,
        _, _, rfl, ⟨rfl, trivial⟩, _, _, rfl, ⟨rfl, trivial⟩, rfl⟩
    have isLiteral : nestedForm.IsLiteral (.vector 1) := by
      have found : nestedForm.vectors[1]? = some [Value.integer 1, .integer 2].toArray := rfl
      have number (value : Int64) : nestedForm.IsLiteral (.integer value) :=
        @Store.isLiteral_of_standsForItself nestedForm (.integer value) trivial
      exact (Store.isLiteral_vector_iff found).mpr
        (List.forall_mem_cons.mpr ⟨number 1, List.forall_mem_singleton.mpr (number 2)⟩)
    obtain ⟨quotation, after, quoted, _, _, _, _, same, _⟩ :=
      quotations_are_literal_and_shaped_like_their_forms isFinite
    obtain ⟨rfl, rfl⟩ := same isLiteral
    exact ⟨isLiteral, quoted⟩

end SmallScheme
