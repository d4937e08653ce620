import SmallScheme.Proofs.Chains
import SmallScheme.Proofs.Formals
import SmallScheme.Proofs.Store.Binding
import SmallScheme.Proofs.Store.View

namespace SmallScheme

/-!
# Operands of procedures

A procedure is entered with a new frame, in which its formals take the operands of the call.  They
take exactly as many as their arity accepts.  The names differ, so that none of them is bound when
its turn comes.
-/

namespace Store

variable
  {before after store : Store}
  {value last : Value}
  {cells : List Nat}

/-- The list has the items, and all its pairs are new. -/
def IsNewList (before after : Store) (list : Value) (items : List Value) : Prop :=
  ∃ cells,
    after.Visits list cells .nil ∧ after.headsOf cells = items ∧
      ∀ cell ∈ cells, before.pairs[cell]? = none

/--
The formals have taken the operands of a call in a new frame inside the scope.  Nothing else has
changed.
-/
structure Takes
    (formals : Formals)
    (scope : Scope)
    (operands : List Value)
    (before after : Store) : Prop where
  named :
    ∀ {index : Nat} {name : String},
      formals.names[index]? = some name →
      ∃ operand,
        operands[index]? = some operand ∧
          (after.frameAt before.frames.size).find? name = some operand
  rest :
    ∀ {name : String},
      formals.rest? = some name →
      ∃ list,
        (after.frameAt before.frames.size).find? name = some list ∧
          IsNewList before after list (operands.drop formals.names.length)
  others :
    ∀ {name : String},
      name ∉ formals.allNames → (after.frameAt before.frames.size).find? name = none
  namespaces : (after.frameAt before.frames.size).namespaces = before.namespaces scope
  frames : after.frames = before.frames.push (after.frameAt before.frames.size)
  pairs :
    ∀ {address : Nat} {pair : Pair},
      before.pairs[address]? = some pair → after.pairs[address]? = some pair
  same : after = { before with pairs := after.pairs, frames := after.frames }

/-! New lists. -/

theorem Visits.mono
    (visits : before.Visits value cells last)
    (kept :
      ∀ {address : Nat} {pair : Pair},
        before.pairs[address]? = some pair → after.pairs[address]? = some pair) :
    after.Visits value cells last := by
  induction visits with
  | nothing => exact .nothing
  | pair found _ inductionHypothesis => exact .pair (kept found) inductionHypothesis

/-- The pairs of a new list come before the list that it is put in front of. -/
theorem newListFrom_visits
    (reversed : List Value)
    (tail : Value)
    (before : Store) :
    ∃ cells,
      (∀ cell ∈ cells, before.pairs.size ≤ cell) ∧
        ∀ {others : List Nat} {last : Value},
          before.Visits tail others last →
            (before.newListFrom reversed tail).2.Visits (before.newListFrom reversed tail).1
              (cells ++ others) last := by
  induction reversed generalizing tail before with
  | nil => exact ⟨[], List.forall_mem_nil _, id⟩
  | cons item reversed inductionHypothesis =>
      obtain ⟨cells, areNew, visits⟩ :=
        inductionHypothesis (before.newPair item tail).1 (before.newPair item tail).2
      refine ⟨cells ++ [before.pairs.size], ?_, fun visitsTail => ?_⟩
      · intro cell member
        rcases List.mem_append.mp member with inFront | isLast
        · have := areNew cell inFront
          simp only [newPair, Array.size_push] at this
          omega
        · exact (List.mem_singleton.mp isLast).ge
      · rw [List.append_assoc]
        exact visits (.pair Array.getElem?_push_size (visitsTail.mono getElem?_push_of_some))

theorem isNewList_newList
    (items : List Value)
    (before : Store) :
    IsNewList before (before.newList items).2 (before.newList items).1 items := by
  obtain ⟨cells, areNew, visits⟩ := newListFrom_visits items.reverse .nil before
  have list : (before.newList items).2.Visits (before.newList items).1 (cells ++ []) .nil :=
    visits .nothing
  have isLast (address : Nat) : Value.nil ≠ .pair address := nofun
  have spells := (newListWithTail_spells items .nil before).2
  rw [List.append_nil] at list
  exact ⟨cells, list, (list.spells.unique isLast spells isLast).1,
    fun cell member => Array.getElem?_eq_none (areNew cell member)⟩

theorem newListFrom_same
    (reversed : List Value)
    (tail : Value)
    (before : Store) :
    (before.newListFrom reversed tail).2 =
      { before with pairs := (before.newListFrom reversed tail).2.pairs } := by
  induction reversed generalizing tail before with
  | nil => rfl
  | cons item reversed inductionHypothesis =>
      exact inductionHypothesis (before.newPair item tail).1 (before.newPair item tail).2

/-! Frames with the operands. -/

theorem lookup_of_not_mem
    {bindings : List (String × Value)}
    {name : String}
    (notBound : name ∉ bindings.map Prod.fst) :
    bindings.lookup name = none := by
  refine List.lookup_eq_none_iff.mpr fun binding member => ?_
  rw [bne_iff_ne]
  rintro rfl
  exact notBound (List.mem_map_of_mem member)

theorem lookup_of_mem
    {bindings : List (String × Value)}
    {name : String}
    (distinct : (bindings.map Prod.fst).Nodup)
    (member : (name, value) ∈ bindings) :
    bindings.lookup name = some value := by
  obtain ⟨earlier, later, rfl⟩ := List.append_of_mem member
  refine List.lookup_eq_some_iff.mpr ⟨earlier, later, rfl, fun binding inEarlier => ?_⟩
  rw [List.map_append, List.map_cons] at distinct
  have different := (List.nodup_append.mp distinct).2.2 binding.1 (List.mem_map_of_mem inEarlier)
    name List.mem_cons_self
  exact bne_iff_ne.mpr different.symm

end Store

namespace Formals

/-- The names with the values that they take. -/
def bindings (formals : Formals) (operands : List Value) (list : Value) : List (String × Value) :=
  formals.names.zip operands ++ formals.rest?.toList.map (·, list)

variable
  {formals : Formals}
  {operands : List Value}

theorem map_fst_bindings
    (enough : formals.names.length ≤ operands.length)
    (list : Value) :
    (formals.bindings operands list).map Prod.fst = formals.allNames := by
  rw [bindings, allNames, List.map_append, List.map_fst_zip enough, List.map_map]
  exact congrArg _ (List.map_id _)

end Formals

namespace Store

variable
  {before grown : Store}
  {formals : Formals}
  {operands : List Value}

/-- A frame with the operands, and perhaps a list that has been made for it, is what is needed. -/
theorem takes_withFrame
    (scope : Scope)
    (distinct : formals.allNames.Nodup)
    (enough : formals.names.length ≤ operands.length)
    (list : Value)
    (isNewList :
      ∀ name,
        formals.rest? = some name →
        IsNewList before grown list (operands.drop formals.names.length))
    (grows : before.Grows grown)
    (same : grown = { before with pairs := grown.pairs }) :
    Takes formals scope operands before
      (grown.withFrame ⟨(formals.bindings operands list).reverse, before.namespaces scope⟩) := by
  have isFrame :
      (grown.withFrame
          ⟨(formals.bindings operands list).reverse, before.namespaces scope⟩).frameAt
            before.frames.size =
        ⟨(formals.bindings operands list).reverse, before.namespaces scope⟩ :=
    grows.frames ▸ grown.frameAt_withFrame _
  have isNames := Formals.map_fst_bindings enough list
  have distinctBindings : ((formals.bindings operands list).reverse.map Prod.fst).Nodup := by
    rw [List.map_reverse, isNames]
    exact List.nodup_reverse.mpr distinct
  refine
    { named := ?_, rest := ?_, others := ?_, namespaces := ?_, frames := ?_
      pairs := grows.pairs, same := ?_ }
  · intro index name isName
    obtain ⟨inside, _⟩ := List.getElem?_eq_some_iff.mp isName
    have given : operands[index]? = some (operands.get ⟨index, inside.trans_le enough⟩) :=
      List.getElem?_eq_getElem _
    refine ⟨_, given, ?_⟩
    rw [isFrame]
    refine lookup_of_mem distinctBindings (List.mem_reverse.mpr (List.mem_append_left _ ?_))
    exact List.mem_of_getElem? (List.getElem?_zip_eq_some.mpr ⟨isName, given⟩)
  · intro name isRest
    refine ⟨list, ?_, ?_⟩
    · rw [isFrame]
      refine lookup_of_mem distinctBindings (List.mem_reverse.mpr (List.mem_append_right _ ?_))
      rw [isRest]
      exact List.mem_cons_self
    · obtain ⟨cells, visits, heads, areNew⟩ := isNewList name isRest
      exact ⟨cells, visits.mono id, heads, areNew⟩
  · intro name notBound
    rw [isFrame]
    refine lookup_of_not_mem fun bound => notBound ?_
    rw [List.map_reverse, isNames] at bound
    exact List.mem_reverse.mp bound
  · rw [isFrame]
  · rw [isFrame, withFrame, grows.frames]
  · rw [withFrame, same]

theorem takes_newList
    (scope : Scope)
    (distinct : formals.allNames.Nodup)
    (enough : formals.names.length ≤ operands.length)
    (before : Store) :
    Takes formals scope operands before
      ((before.newList (operands.drop formals.names.length)).2.withFrame
        ⟨(formals.bindings operands
            (before.newList (operands.drop formals.names.length)).1).reverse,
          before.namespaces scope⟩) :=
  takes_withFrame scope distinct enough _ (fun _ _ => isNewList_newList _ before)
    (newListWithTail_spells _ .nil before).1 (newListFrom_same _ _ before)

/-- Operands in an accepted number are bound. -/
theorem bindFormals_takes
    {procedure : Procedure}
    (distinct : procedure.formals.allNames.Nodup)
    (scope : Scope)
    (accepts : procedure.formals.arity.accepts operands.length)
    (before : Store) :
    ∃ after,
      bindFormals procedure (before.newChild scope).1 operands (before.newChild scope).2 =
          (.ok (), after) ∧
        Takes procedure.formals scope operands before after := by
  obtain ⟨formals, body, home, called⟩ := procedure
  cases formals with
  | variadic name =>
      exact ⟨_, defineList_withFrame before scope.frames (before.namespaces scope) rfl operands,
        takes_newList scope distinct (Nat.zero_le _) before⟩
  | fixed names =>
      have fits : operands.length = names.length := accepts
      have enough : names.length ≤ operands.length := fits.ge
      have distinctNames : names.Nodup := distinct.of_append_left
      have same : names.zip operands = (Formals.fixed names).bindings operands .nil :=
        (List.append_nil _).symm
      refine ⟨_, ?_, takes_withFrame scope distinct enough .nil nofun (.refl before) rfl⟩
      simp only [bindFormals, if_pos fits]
      exact same ▸ before.defineAll_zip scope distinctNames enough
  | withRest names rest =>
      have enough : names.length ≤ operands.length := accepts
      have distinctNames : names.Nodup := distinct.of_append_left
      let added := operands.drop names.length
      have same :
          ((Formals.withRest names rest).bindings operands (before.newList added).1).reverse =
            (rest, (before.newList added).1) :: (names.zip operands).reverse :=
        List.reverse_append
      have isNew : (names.zip operands).reverse.lookup rest = none := by
        refine lookup_of_not_mem fun bound => ?_
        rw [List.map_reverse, List.map_fst_zip enough] at bound
        exact List.disjoint_of_nodup_append distinct (List.mem_reverse.mp bound) List.mem_cons_self
      have takes : Takes (.withRest names rest) scope operands before
          ((before.newList added).2.withFrame
            ⟨((Formals.withRest names rest).bindings operands (before.newList added).1).reverse,
              before.namespaces scope⟩) :=
        takes_newList scope distinct enough before
      rw [same] at takes
      refine ⟨_, ?_, takes⟩
      simp only [bindFormals, if_neg (Nat.not_lt.mpr enough)]
      refine StoreM.bind_eq_ok_iff.mpr ⟨(), _, before.defineAll_zip scope distinctNames enough, ?_⟩
      exact defineList_withFrame before scope.frames (before.namespaces scope) isNew added

/-- Operands in another number are refused before any of them is bound. -/
theorem bindFormals_of_refused
    {procedure : Procedure}
    {bound : Nat}
    (refused : procedure.formals.arity.refuses? operands.length = some bound)
    (scope : Scope)
    (store : Store) :
    bindFormals procedure scope operands store =
      (.error (.arity bound operands.length (callText procedure)), store) := by
  unfold bindFormals
  cases same : procedure.formals with
  | variadic name =>
      rw [same] at refused
      cases refused
  | fixed names =>
      rw [same] at refused
      by_cases fits : operands.length = names.length
      · cases (if_pos fits).symm.trans refused
      · cases (if_neg fits).symm.trans refused
        simp only [if_neg fits]
        rfl
  | withRest names rest =>
      rw [same] at refused
      by_cases few : operands.length < names.length
      · cases (if_pos few).symm.trans refused
        simp only [if_pos few]
        rfl
      · cases (if_neg few).symm.trans refused

end Store

/--
Reading the parameters that a form describes ends with one outcome, also on a circular chain, unless
the first part that is no identifier is to be told and has no text.  Reading finds formals exactly
if the form is an identifier or a chain of identifiers with different names.
In a new frame the formals of a procedure then take any operands that their arity accepts: each
name takes its own, the name for the rest takes a new list of the others, and nothing else is
bound or changed.  Other operands are refused with an arity fault before any of them is bound.
-/
theorem formals_take_what_their_arity_accepts
    (store : Store)
    (form : Value) :
    ((∀ part, Formals.RefusesFirst store form part → store.written? part ≠ none) →
      Formals.EndsWith store form (Formals.ofForm store form)) ∧
      (∀ outcome,
        Formals.EndsWith store form outcome →
        outcome = Formals.ofForm store form ∧
          ∀ part, Formals.RefusesFirst store form part → store.written? part ≠ none) ∧
      (∀ formals,
        Formals.ofForm store form = .ok formals ↔ Formals.Describes store form formals) ∧
      ∀ procedure : Procedure,
        Formals.ofForm store form = .ok procedure.formals →
        ∀ (scope : Scope) (operands : List Value) (before : Store),
          (∀ bound,
            procedure.formals.arity.refuses? operands.length = some bound →
            Store.bindFormals procedure (before.newChild scope).1 operands
                (before.newChild scope).2 =
              (.error (.arity bound operands.length (Store.callText procedure)),
                (before.newChild scope).2)) ∧
          (procedure.formals.arity.accepts operands.length →
            ∃ after,
              Store.bindFormals procedure (before.newChild scope).1 operands
                  (before.newChild scope).2 =
                (.ok (), after) ∧
              Store.Takes procedure.formals scope operands before after) := by
  refine ⟨Formals.endsWith_ofForm, fun _ => Formals.EndsWith.eq_and_told,
    fun _ => Formals.ofForm_eq_ok_iff, ?_⟩
  intro procedure accepted scope operands before
  have describes := Formals.ofForm_eq_ok_iff.mp accepted
  exact ⟨fun _ refused => Store.bindFormals_of_refused refused _ _,
    fun accepts => Store.bindFormals_takes describes.nodup scope accepts before⟩

/-- A store with the form `(first second . rest)`, whose second name comes from a macro. -/
def formalsStore : Store :=
  { Store.empty with
    pairs := #[⟨.symbol "first", .pair 1⟩, ⟨.scoped "second" ⟨0, []⟩, .symbol "rest"⟩]
    frames := #[⟨[], []⟩] }

/-- Two names and a list are read to the end, take four operands and refuse one. -/
theorem two_names_and_a_list_take_four_operands :
    Formals.ofForm formalsStore (.pair 0) = .ok (.withRest ["first", "second"] "rest") ∧
      Formals.EndsWith formalsStore (.pair 0) (.ok (.withRest ["first", "second"] "rest")) ∧
      (∃ after,
        Store.bindFormals ⟨.withRest ["first", "second"] "rest", [], ⟨0, []⟩, none⟩
            (formalsStore.newChild ⟨0, []⟩).1 [.integer 1, .integer 2, .integer 3, .integer 4]
            (formalsStore.newChild ⟨0, []⟩).2 =
          (.ok (), after) ∧
        Store.Takes (.withRest ["first", "second"] "rest") ⟨0, []⟩
          [.integer 1, .integer 2, .integer 3, .integer 4] formalsStore after) ∧
      Store.bindFormals ⟨.withRest ["first", "second"] "rest", [], ⟨0, []⟩, some "call"⟩
          (formalsStore.newChild ⟨0, []⟩).1 [.integer 1] (formalsStore.newChild ⟨0, []⟩).2 =
        (.error (.arity 2 1 (some "(call ...)")), (formalsStore.newChild ⟨0, []⟩).2) := by
  have accepted :
      Formals.ofForm formalsStore (.pair 0) = .ok (.withRest ["first", "second"] "rest") := rfl
  have told (part : Value)
      (refuses : Formals.RefusesFirst formalsStore (.pair 0) part)
      (noText : formalsStore.written? part = none) : False := by
    cases accepted.symm.trans (Formals.ofForm_eq_endless_iff.mpr ⟨part, refuses, noText⟩)
  obtain ⟨ends, _, _, binding⟩ := formals_take_what_their_arity_accepts formalsStore (.pair 0)
  exact ⟨accepted, accepted ▸ ends told,
    (binding ⟨_, [], ⟨0, []⟩, none⟩ accepted ⟨0, []⟩ _ formalsStore).2
      (Arity.refuses?_eq_none_iff.mp rfl),
    (binding ⟨_, [], ⟨0, []⟩, some "call"⟩ accepted ⟨0, []⟩ _ formalsStore).1 2 rfl⟩

/-- A pair whose head it is itself. -/
def headOfItself : Store :=
  { Store.empty with pairs := #[⟨.pair 0, .nil⟩] }

/-- A circular form is not always read to an end: one whose head it is itself cannot be told. -/
theorem form_that_is_its_own_head_is_not_read :
    ∃ (store : Store) (form : Value), ∀ outcome, ¬Formals.EndsWith store form outcome := by
  refine ⟨headOfItself, .pair 0, fun outcome ends => ?_⟩
  have refuses : Formals.RefusesFirst headOfItself (.pair 0) (.pair 0) :=
    ⟨rfl, [], [], .pair 0, .nothing, rfl, .inl ⟨0, .nil, rfl, rfl⟩⟩
  have noText : headOfItself.written? (.pair 0) = none := by
    have contained : .pair 0 ∈ headOfItself.contents (.pair 0) := List.mem_singleton_self _
    rw [Store.written?, Store.datum?, Store.datumWithin?_of_return .refl contained .refl]
    rfl
  exact ends.eq_and_told.2 (.pair 0) refuses noText

end SmallScheme
