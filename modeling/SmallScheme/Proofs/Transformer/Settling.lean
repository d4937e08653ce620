import SmallScheme.Proofs.Store.Growth
import SmallScheme.Transformer.Capture

namespace SmallScheme

/-!
# Settled captures

Captures of the same shape are compared leaf by leaf.  Settling the captures of a match keeps their
shape: a captured form stays, and what was left of a list becomes a fresh list of it.
-/

namespace Capture

/-- A capture without repetitions. -/
def IsLeaf : Capture → Prop
  | .many _ => False
  | _ => True

/-- Captures with as many repetitions everywhere and with related leaves. -/
inductive Lifts (leaf : Capture → Capture → Prop) : Capture → Capture → Prop
  | leaf {first second : Capture} :
      first.IsLeaf → second.IsLeaf → leaf first second → Lifts leaf first second
  | many {firsts seconds : List Capture} :
      List.Forall₂ (Lifts leaf) firsts seconds → Lifts leaf (.many firsts) (.many seconds)

/-- The second capture is the form that the first one stands for in the store. -/
inductive IsSettled (store : Store) : Capture → Capture → Prop
  | one {value : Value} : IsSettled store (.one value) (.one value)
  | rest {items : List Value} {tail value : Value} :
      store.Spells value items tail → IsSettled store (.rest items tail) (.one value)

theorem IsSettled.grows
    {before after : Store}
    (grows : before.Grows after)
    {capture settled : Capture}
    (isSettled : IsSettled before capture settled) :
    IsSettled after capture settled := by
  cases isSettled with
  | one => exact .one
  | rest spells => exact .rest (spells.grows grows)

variable {first second : Capture → Capture → Prop}

mutual

theorem Lifts.mono
    (implies : ∀ {capture other : Capture}, first capture other → second capture other) :
    ∀ (capture : Capture) {other : Capture}, Lifts first capture other → Lifts second capture other
  | .one _, _, .leaf here there related => .leaf here there (implies related)
  | .rest _ _, _, .leaf here there related => .leaf here there (implies related)
  | .many each, _, .many related => .many (Lifts.monoAll implies each related)

theorem Lifts.monoAll
    (implies : ∀ {capture other : Capture}, first capture other → second capture other) :
    ∀ (each : List Capture) {others : List Capture},
      List.Forall₂ (Lifts first) each others → List.Forall₂ (Lifts second) each others
  | [], _, .nil => .nil
  | capture :: each, _, .cons related others =>
      .cons (Lifts.mono implies capture related) (Lifts.monoAll implies each others)

end

mutual

theorem Lifts.of_eq : ∀ capture : Capture, Lifts Eq capture capture
  | .one _ => .leaf trivial trivial rfl
  | .rest _ _ => .leaf trivial trivial rfl
  | .many each => .many (Lifts.allOfEq each)

theorem Lifts.allOfEq : ∀ each : List Capture, List.Forall₂ (Lifts Eq) each each
  | [] => .nil
  | capture :: others => .cons (Lifts.of_eq capture) (Lifts.allOfEq others)

end

mutual

/-- Settling captures makes lists and leaves the shape of the captures as it is. -/
theorem settle_lifts
    (capture : Capture)
    (store : Store) :
    store.Grows (capture.settle store).2 ∧
      Lifts (IsSettled (capture.settle store).2) capture (capture.settle store).1 := by
  match capture with
  | .one value =>
      exact ⟨.refl _, .leaf trivial trivial .one⟩
  | .rest items tail =>
      obtain ⟨grows, spells⟩ := store.newListWithTail_spells items tail
      exact ⟨grows, .leaf trivial trivial (.rest spells)⟩
  | .many each =>
      obtain ⟨grows, related⟩ := settleAll_lifts each store
      exact ⟨grows, .many related⟩

theorem settleAll_lifts
    (each : List Capture)
    (store : Store) :
    store.Grows (settleAll each store).2 ∧
      List.Forall₂ (Lifts (IsSettled (settleAll each store).2)) each (settleAll each store).1 := by
  match each with
  | [] =>
      exact ⟨.refl _, .nil⟩
  | capture :: others =>
      obtain ⟨growsFirst, relatedFirst⟩ := settle_lifts capture store
      obtain ⟨growsOthers, relatedOthers⟩ := settleAll_lifts others (capture.settle store).2
      exact ⟨growsFirst.trans growsOthers,
        .cons (relatedFirst.mono (IsSettled.grows growsOthers)) relatedOthers⟩

end

end Capture

namespace Captures

/-- The name stands for related captures, or for nothing on both sides. -/
def Agree
    (leaf : Capture → Capture → Prop)
    (first second : Captures)
    (name : String) : Prop :=
  Option.Rel (Capture.Lifts leaf) (first.lookup name) (second.lookup name)

theorem Agree.of_eq
    {first second : Captures}
    {name : String}
    (same : first.lookup name = second.lookup name) :
    Agree Eq first second name := by
  rw [Agree, same]
  cases second.lookup name with
  | none => exact .none
  | some capture => exact .some (.of_eq capture)

theorem Agree.mono
    {first second : Capture → Capture → Prop}
    (implies : ∀ {capture other : Capture}, first capture other → second capture other)
    {captures others : Captures}
    {name : String}
    (agree : Agree first captures others name) :
    Agree second captures others name := by
  unfold Agree at agree ⊢
  generalize captures.lookup name = found, others.lookup name = foundOther at agree ⊢
  cases agree with
  | none => exact .none
  | some lifts => exact .some (Capture.Lifts.mono implies _ lifts)

theorem settle_agree
    (captures : Captures)
    (store : Store) :
    store.Grows (captures.settle store).2 ∧
      ∀ name, Agree (Capture.IsSettled (captures.settle store).2) captures
        (captures.settle store).1 name := by
  induction captures generalizing store with
  | nil =>
      exact ⟨.refl _, fun _ => .none⟩
  | cons named others inductionHypothesis =>
      obtain ⟨own, capture⟩ := named
      obtain ⟨growsFirst, relatedFirst⟩ := capture.settle_lifts store
      obtain ⟨growsOthers, agree⟩ := inductionHypothesis (capture.settle store).2
      refine ⟨growsFirst.trans growsOthers, fun name => ?_⟩
      by_cases same : name = own
      · subst same
        simp only [Agree, settle, List.lookup_cons_self]
        exact .some (relatedFirst.mono (Capture.IsSettled.grows growsOthers))
      · have apart : (name == own) = false := beq_false_of_ne same
        simp only [Agree, settle, List.lookup_cons, apart]
        exact agree name

/-- A name that stands for nothing still does when the captures have been settled. -/
theorem lookup_settle_eq_none
    {captures : Captures}
    {name : String}
    (store : Store)
    (uncaptured : captures.lookup name = none) :
    (captures.settle store).1.lookup name = none := by
  have agree := (captures.settle_agree store).2 name
  unfold Agree at agree
  rw [uncaptured] at agree
  generalize (captures.settle store).1.lookup name = settled at agree ⊢
  cases agree
  rfl

end Captures

end SmallScheme
