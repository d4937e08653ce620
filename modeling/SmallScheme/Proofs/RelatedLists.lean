import Mathlib.Data.List.Forall2

namespace SmallScheme

/-!
# Lists of related things

Facts about lists whose items are related one by one, as the items of a pattern and of a form are.
-/

variable
  {First Second Third : Type}
  {firsts others : List First}
  {seconds : List Second}
  {thirds : List Third}

theorem forall₂_trans
    {left : First → Second → Prop}
    {right : Second → Third → Prop}
    {whole : First → Third → Prop}
    (step :
      ∀ first ∈ firsts, ∀ second third, left first second → right second third → whole first third)
    (leftRelated : List.Forall₂ left firsts seconds)
    (rightRelated : List.Forall₂ right seconds thirds) :
    List.Forall₂ whole firsts thirds := by
  induction leftRelated generalizing thirds with
  | nil =>
      cases rightRelated
      exact .nil
  | cons related _ inductionHypothesis =>
      obtain ⟨stepFirst, stepRest⟩ := List.forall_mem_cons.mp step
      cases rightRelated with
      | cons related' relatedRest =>
          exact .cons (stepFirst _ _ related related') (inductionHypothesis stepRest relatedRest)

theorem forall₂_join
    {left : First → Second → Prop}
    {right : First → Third → Prop}
    {whole : Second → Third → Prop}
    (step :
      ∀ first ∈ firsts, ∀ second third, left first second → right first third → whole second third)
    (leftRelated : List.Forall₂ left firsts seconds)
    (rightRelated : List.Forall₂ right firsts thirds) :
    List.Forall₂ whole seconds thirds := by
  induction leftRelated generalizing thirds with
  | nil =>
      cases rightRelated
      exact .nil
  | cons related _ inductionHypothesis =>
      obtain ⟨stepFirst, stepRest⟩ := List.forall_mem_cons.mp step
      cases rightRelated with
      | cons related' relatedRest =>
          exact .cons (stepFirst _ _ related related') (inductionHypothesis stepRest relatedRest)

theorem forall₂_append_left
    {related : First → Second → Prop}
    (all : List.Forall₂ related (firsts ++ others) seconds) :
    ∃ start rest,
      seconds = start ++ rest ∧ List.Forall₂ related firsts start ∧
        List.Forall₂ related others rest := by
  induction firsts generalizing seconds with
  | nil => exact ⟨[], seconds, rfl, .nil, all⟩
  | cons first firsts inductionHypothesis =>
      cases all with
      | cons here all =>
          obtain ⟨start, rest, rfl, relatedStart, relatedRest⟩ := inductionHypothesis all
          exact ⟨_ :: start, rest, rfl, .cons here relatedStart, relatedRest⟩

theorem forall₂_and_right
    {related : First → Second → Prop}
    {holds : Second → Prop}
    (all : List.Forall₂ related firsts seconds)
    (each : ∀ second ∈ seconds, holds second) :
    List.Forall₂ (fun first second => related first second ∧ holds second) firsts seconds := by
  induction all with
  | nil => exact .nil
  | cons here _ inductionHypothesis =>
      obtain ⟨holdsHere, holdsRest⟩ := List.forall_mem_cons.mp each
      exact .cons ⟨here, holdsHere⟩ (inductionHypothesis holdsRest)

/-- What holds of everything that something is related to holds of all things that are related. -/
theorem forall_mem_right_of_forall₂
    {related : First → Second → Prop}
    {holds : Second → Prop}
    (all : List.Forall₂ related firsts seconds)
    (implies : ∀ {first : First} {second : Second}, related first second → holds second) :
    ∀ second ∈ seconds, holds second := by
  induction all with
  | nil => exact nofun
  | cons here _ inductionHypothesis =>
      exact List.forall_mem_cons.mpr ⟨implies here, inductionHypothesis⟩

/-- What there is for each pair of related things can be collected. -/
theorem forall₂_collect
    {related : First → Second → Prop}
    {left : First → Third → Prop}
    {right : Second → Third → Prop}
    (step :
      ∀ first, ∀ second ∈ seconds, related first second →
        ∃ third, left first third ∧ right second third)
    (all : List.Forall₂ related firsts seconds) :
    ∃ thirds, List.Forall₂ left firsts thirds ∧ List.Forall₂ right seconds thirds := by
  induction all with
  | nil => exact ⟨[], .nil, .nil⟩
  | cons here _ inductionHypothesis =>
      obtain ⟨third, leftHere, rightHere⟩ := step _ _ List.mem_cons_self here
      obtain ⟨thirds, leftRest, rightRest⟩ := inductionHypothesis fun first second member =>
        step first second (List.mem_cons_of_mem _ member)
      exact ⟨third :: thirds, .cons leftHere leftRest, .cons rightHere rightRest⟩

end SmallScheme
