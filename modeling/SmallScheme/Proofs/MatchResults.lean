import SmallScheme.Proofs.PatternInstances
import SmallScheme.Proofs.Store.Refusal
import SmallScheme.Proofs.Transformer.Captured
import SmallScheme.Proofs.Transformer.Taking
import SmallScheme.Transformer.Basic

namespace SmallScheme

/-!
# Results of matches

The tree that a variable is bound to by a match branches once for each ellipsis over the variable in
the pattern, and its leaves are parts of the matched form.  A template that uses its variables under
as many ellipses is filled without a complaint about ellipses that are missing.  Only variables
under marks are bound to nothing, or to nothing but empty groups.
-/

/-- The complaint that a variable must be followed by more ellipses. -/
def Fault.MissesEllipsis (fault : Fault) : Prop :=
  ∃ name, fault = .evaluation (.variableDepth name)

namespace Capture

variable {link : Capture → Capture → Prop}

/-- The capture is a form and not a group of repetitions. -/
def IsForm (capture : Capture) : Prop :=
  ∃ value, capture = .one value

theorem IsSettled.isForm
    {store : Store}
    {capture settled : Capture}
    (isSettled : capture.IsSettled store settled) :
    settled.IsForm := by
  cases isSettled <;> exact ⟨_, rfl⟩

/-- Captures that are related leaf by leaf are equally deep. -/
theorem HasDepth.of_lifts
    {leaf leaf' : Capture → Prop}
    (isLeaf : ∀ capture, leaf capture → capture.IsLeaf)
    (leaves : ∀ capture other, link capture other → leaf' other)
    {depth : Nat}
    {capture other : Capture}
    (lifts : Lifts link capture other)
    (hasDepth : capture.HasDepth leaf depth) :
    other.HasDepth leaf' depth := by
  induction depth generalizing capture other with
  | zero =>
      cases lifts with
      | leaf _ _ related => exact leaves _ _ related
      | many _ => exact (isLeaf _ hasDepth).elim
  | succ depth inductionHypothesis =>
      obtain ⟨each, rfl, deep⟩ := hasDepth
      cases lifts with
      | leaf isLeaf _ _ => exact isLeaf.elim
      | many related =>
          refine ⟨_, rfl, fun inner member => ?_⟩
          obtain ⟨index, within, rfl⟩ := List.getElem_of_mem member
          have inEach : index < each.length := related.length_eq.symm ▸ within
          exact inductionHypothesis (related.get inEach within) (deep _ (List.getElem_mem inEach))

end Capture

/-- What the names in a template stand for is as deep as they stand there. -/
def Captures.Suit
    (captures : Captures)
    (literals : List String)
    (standings : List Standing) : Prop :=
  ∀ standing ∈ standings, ∀ capture,
    captures.lookup standing.name = some capture →
    Form.isVariable literals standing.name ∧ capture.HasDepth Capture.IsForm standing.depth

namespace Captures

open StoreM

theorem groupItems_avoids
    (each : List Capture) :
    Avoids Fault.MissesEllipsis (groupItems each) := by
  induction each with
  | nil => exact .pure []
  | cons capture rest inductionHypothesis =>
      cases capture with
      | one value => exact .bind inductionHypothesis fun _ => .pure _
      | _ => exact .throw nofun

theorem group_avoids
    (captures : Captures) :
    Avoids Fault.MissesEllipsis captures.group := by
  unfold group
  split
  · exact groupItems_avoids _
  · exact .throw nofun

end Captures

namespace Form

open StoreM

variable
  {literals : List String}
  {captures : Captures}

theorem mem_variables_of_standing
    {item : Form}
    {standing : Standing}
    (member : standing ∈ item.standings)
    (isVariable : isVariable literals standing.name) :
    standing.name ∈ item.variables literals [] := by
  rw [mem_variables, ← names_of_standings]
  exact .inr (List.mem_map_of_mem (List.mem_filter.mpr ⟨member, isVariable⟩))

/-- In one repetition the names in an item stand for what is one ellipsis less deep. -/
theorem suit_repetition
    {item : Form}
    (suit : captures.Suit literals (item.standings.map .repeated))
    {index : Nat}
    (within :
      ∀ name ∈ item.variables literals [], ∀ each,
        captures.lookup name = some (.many each) → index < each.length) :
    (captures.repetition (item.variables literals []) index).Suit literals item.standings := by
  intro standing member capture found
  have deeper := suit _ (List.mem_map_of_mem member)
  cases foundWhole : captures.lookup standing.name with
  | none =>
      rw [Captures.lookup_repetition, foundWhole] at found
      cases found
  | some whole =>
      obtain ⟨isVariable, each, rfl, deep⟩ := deeper whole foundWhole
      have among := mem_variables_of_standing member isVariable
      have inEach := within _ among each foundWhole
      rw [Captures.lookup_repetition_of_mem _ among foundWhole inEach] at found
      cases found
      exact ⟨isVariable, deep _ (List.getElem_mem inEach)⟩

theorem fillRepeated_avoids
    {fill : Captures → StoreM Value}
    {item : Form}
    (avoids :
      ∀ captures : Captures,
        captures.Suit literals item.standings → Avoids Fault.MissesEllipsis (fill captures))
    (suit : captures.Suit literals (item.standings.map .repeated)) :
    Avoids Fault.MissesEllipsis (fillRepeated fill item literals captures) := by
  unfold fillRepeated
  cases repeated : captures.repeatedVariables (item.variables literals []) with
  | nil =>
      -- None of the names in the item stands for anything.
      have unused : captures.Suit literals item.standings := by
        intro standing member capture found
        obtain ⟨isVariable, each, rfl, _⟩ := suit _ (List.mem_map_of_mem member) capture found
        have among : (standing.name, each.toArray) ∈
            captures.repeatedVariables (item.variables literals []) :=
          List.mem_filterMap.mpr
            ⟨_, mem_variables_of_standing member isVariable, by rw [found]⟩
        rw [repeated] at among
        cases among
      exact .bind (avoids captures unused) fun first =>
        .bind captures.group_avoids fun group => .pure _
  | cons first others =>
      dsimp only
      split
      case isTrue even =>
        refine .mapM fun index member => avoids _ ?_
        rw [← repeated]
        refine suit_repetition suit fun name among each found => ?_
        have inRepeated : (name, each.toArray) ∈ first :: others :=
          repeated ▸ List.mem_filterMap.mpr ⟨name, among, by rw [found]⟩
        have size : each.length = first.2.size := by
          rcases List.mem_cons.mp inRepeated with isFirst | isOther
          · rw [← isFirst]
            rfl
          · exact of_decide_eq_true (List.all_eq_true.mp even _ isOther)
        exact size ▸ List.mem_range.mp member
      case isFalse =>
        exact .fail fun store =>
          store.telling_of item.value (motive := (¬·.MissesEllipsis)) (fun _ => nofun) nofun

theorem suit_append
    {standings others : List Standing}
    (suit : captures.Suit literals (standings ++ others)) :
    captures.Suit literals standings ∧ captures.Suit literals others :=
  List.forall_mem_append.mp suit

mutual

/-- Filling a template does not complain if the captures suit it. -/
theorem fill_avoids
    (setting : TemplateSetting)
    (template : Form)
    (captures : Captures)
    (suit : captures.Suit setting.literals template.standings) :
    Avoids Fault.MissesEllipsis (template.fill setting captures) := by
  match template with
  | .atom value => exact .pure value
  | .identifier name value =>
      unfold fill
      split
      case h_1 => exact .pure _
      case h_2 capture noForm found =>
        obtain ⟨_, form, rfl⟩ := suit ⟨name, 0, none⟩ List.mem_cons_self capture found
        exact (noForm form rfl).elim
      case h_3 => exact .view _
  | .list items tail value =>
      obtain ⟨suitItems, suitTail⟩ := suit_append suit
      exact .bind (fillItems_avoids setting items captures suitItems) fun items =>
        .bind (fill_avoids setting tail captures suitTail) fun tail => .change _
  | .vector items value =>
      exact .bind (fillItems_avoids setting items captures suit) fun items => .change _
  | .marked mark inner value =>
      have suitInner : captures.Suit setting.literals inner.standings :=
        fun standing member => suit standing.underMark (List.mem_map_of_mem member)
      exact .bind (fill_avoids setting inner captures suitInner) fun inner => .change _

theorem fillItems_avoids
    (setting : TemplateSetting)
    (items : List Form)
    (captures : Captures)
    (suit : captures.Suit setting.literals (allStandings items)) :
    Avoids Fault.MissesEllipsis (fillItems setting items captures) := by
  match items with
  | [] => exact .pure []
  | [item] =>
      unfold fillItems
      unfold allStandings at suit
      split
      case isTrue => exact captures.group_avoids
      case isFalse plain =>
        rw [if_neg plain] at suit
        exact .bind (fill_avoids setting item captures suit) fun _ => .pure _
  | item :: next :: rest =>
      unfold fillItems
      unfold allStandings at suit
      split
      case isTrue isDots =>
        rw [if_pos isDots] at suit
        exact .bind captures.group_avoids fun _ =>
          .bind (fillItems_avoids setting (next :: rest) captures suit) fun _ => .pure _
      case isFalse plain =>
        rw [if_neg plain] at suit
        split
        case isTrue isDots =>
          rw [if_pos isDots] at suit
          obtain ⟨suitItem, suitRest⟩ := suit_append suit
          have repeated := fillRepeated_avoids (fill_avoids setting item) suitItem
          exact .bind repeated fun _ =>
            .bind (fillItems_avoids setting rest captures suitRest) fun _ => .pure _
        case isFalse plainNext =>
          rw [if_neg plainNext] at suit
          obtain ⟨suitItem, suitRest⟩ := suit_append suit
          exact .bind (fill_avoids setting item captures suitItem) fun _ =>
            .bind (fillItems_avoids setting (next :: rest) captures suitRest) fun _ => .pure _

end

end Form

/-- What a name of a pattern stands for after a match with the form, by its place in the pattern. -/
def Standing.IsCaptured
    (store : Store)
    (form : Value)
    (captures : Captures)
    (standing : Standing) : Prop :=
  match standing.unmarked with
  | none =>
      ∃ capture,
        captures.lookup standing.name = some capture ∧
          capture.HasDepth (Capture.IsPartOf store form) standing.depth
  | some 0 => captures.lookup standing.name = none
  | some depth =>
      ∃ capture,
        captures.lookup standing.name = some capture ∧ capture.HasDepth (· = .many []) depth

/-- The template has the variables of the pattern, none under a mark there, as deep as it has. -/
def Form.IsUsedIn
    (literals : List String)
    (pattern template : Form) : Prop :=
  ∀ standing ∈ variablesAmong literals pattern.standings, ∀ place ∈ template.standings,
    place.name = standing.name → standing.unmarked = none ∧ place.depth = standing.depth

namespace Form

variable
  {store : Store}
  {literals : List String}
  {pattern : Form}
  {form : Value}
  {captures : Captures}

theorem exists_standing
    {name : String}
    (occurs : name ∈ pattern.occurrences literals) :
    ∃ standing ∈ variablesAmong literals pattern.standings, standing.name = name := by
  rw [← names_of_standings] at occurs
  exact List.mem_map.mp occurs

theorem isCaptured_of_matchForm
    (distinct : (pattern.occurrences literals).Nodup)
    (matched : pattern.matchForm store literals form [] = some captures)
    {standing : Standing}
    (member : standing ∈ variablesAmong literals pattern.standings) :
    standing.IsCaptured store form captures := by
  have take := isTaken pattern distinct matched
  unfold Standing.IsCaptured
  split
  case h_1 unmarked =>
    obtain ⟨capture, found, takes⟩ :=
      take.inside standing member (by simp [Standing.IsReached, unmarked])
    rw [Standing.Takes, unmarked] at takes
    exact ⟨capture, found, takes⟩
  case h_2 marked =>
    have isVariable := (List.mem_filter.mp member).2
    refine take.outside standing.name (isVariable_iff.mp isVariable).1 ?_
    intro other isOther reached sameName
    rw [← names_of_standings] at distinct
    have same := List.inj_on_of_nodup_map distinct isOther member sameName
    exact reached (same ▸ marked)
  case h_3 depth deep marked =>
    obtain ⟨capture, found, takes⟩ := take.inside standing member fun missed =>
      deep (Option.some.inj (marked.symm.trans missed))
    rw [Standing.Takes, marked] at takes
    exact ⟨capture, found, takes⟩

/-- What a match has captured suits the templates that use it so, once it has been settled. -/
theorem suit_of_matchForm
    (distinct : (pattern.occurrences literals).Nodup)
    (matched : pattern.matchForm store literals form [] = some captures)
    (before : Store)
    {template : Form}
    (used : pattern.IsUsedIn literals template)
    (noGroup :
      captures.lookup Capture.ellipsis = none ∨
        ∀ place ∈ template.standings, place.name ≠ Capture.ellipsis) :
    (captures.settle before).1.Suit literals template.standings := by
  intro place member settled found
  have agree := (captures.settle_agree before).2 place.name
  rw [Captures.Agree, found] at agree
  generalize captured : captures.lookup place.name = original at agree
  cases agree with
  | @some capture _ lifts =>
      have occurs : place.name ∈ pattern.occurrences literals := by
        by_contra noVariable
        have uncaptured : captures.lookup place.name = none := by
          by_cases isEllipsis : place.name = Capture.ellipsis
          · rw [isEllipsis]
            exact noGroup.resolve_right fun ordinary => ordinary place member isEllipsis
          · exact lookup_eq_none_of_matchForm matched noVariable isEllipsis
        rw [uncaptured] at captured
        cases captured
      obtain ⟨standing, isStanding, sameName⟩ := exists_standing occurs
      obtain ⟨unmarked, sameDepth⟩ := used standing isStanding place member sameName.symm
      have isCaptured := isCaptured_of_matchForm distinct matched isStanding
      rw [Standing.IsCaptured, unmarked] at isCaptured
      obtain ⟨own, foundOwn, deep⟩ := isCaptured
      rw [sameName, captured] at foundOwn
      cases foundOwn
      refine ⟨isVariable_of_mem_occurrences occurs, sameDepth ▸ .of_lifts ?_ ?_ lifts deep⟩
      · intro capture isPart
        cases capture with
        | many each => exact isPart.elim
        | _ => trivial
      · exact fun _ _ isSettled => isSettled.isForm

end Form

/--
After a match every variable that is found in the pattern is captured as deep as it stands there,
and a template that uses the variables as deep never has one with too few ellipses.
-/
theorem variables_are_captured_as_deep_as_they_stand
    {store : Store}
    {literals : List String}
    {pattern : Form}
    {form : Value}
    {captures : Captures}
    (distinct : (pattern.occurrences literals).Nodup)
    (matched : pattern.matchForm store literals form [] = some captures) :
    (∀ name ∈ pattern.variables literals [],
      ∃ standing ∈ pattern.standings,
        standing.name = name ∧ standing.IsCaptured store form captures) ∧
    ∀ (transformer : Transformer) (isHeld : Bool) (rule : Rule) (before : Store),
      transformer.literals = literals →
      pattern.IsUsedIn literals ((captures.settle before).2.form rule.template) →
      (captures.lookup Capture.ellipsis = none ∨
        ∀ place ∈ ((captures.settle before).2.form rule.template).standings,
          place.name ≠ Capture.ellipsis) →
      ∀ name, (transformer.fillRule isHeld rule captures before).1 ≠
        .error (.evaluation (.variableDepth name)) := by
  refine ⟨fun name member => ?_, ?_⟩
  · have occurs := ((Form.mem_variables pattern [] name).mp member).resolve_left List.not_mem_nil
    obtain ⟨standing, isStanding, sameName⟩ := Form.exists_standing occurs
    exact ⟨standing, (List.mem_filter.mp isStanding).1, sameName,
      Form.isCaptured_of_matchForm distinct matched isStanding⟩
  · rintro transformer isHeld rule before rfl used noGroup name failed
    have suit := Form.suit_of_matchForm distinct matched before used noGroup
    have avoids := Form.fill_avoids
      ⟨transformer.literals, if isHeld then some transformer.home else none,
        ((captures.settle before).2.form rule.template).binders []⟩ _ _ suit
    exact avoids (captures.settle before).2 _ failed ⟨name, rfl⟩

/-- The captures of the names and the values in `((x 1 2) (y))`. -/
def rowsCaptures : Captures :=
  [("value", .many [.many [.one (.integer 1), .one (.integer 2)], .many []]),
    ("name", .many [.one (.symbol "x"), .one (.symbol "y")])]

/-- The values are captured two ellipses deep, and the pattern is a template that can be filled. -/
theorem rows_are_captured_two_deep :
    (∃ capture,
      rowsCaptures.lookup "value" = some capture ∧
        capture.HasDepth (Capture.IsPartOf rowsStore (.pair 5)) 2) ∧
    ∀ name,
      (Transformer.fillRule ⟨"rows", [], [], default⟩ true ⟨.pair 0, .pair 0⟩ rowsCaptures
          rowsStore).1 ≠
        .error (.evaluation (.variableDepth name)) := by
  have distinct : ((rowsStore.form (.pair 0)).occurrences []).Nodup := by decide +kernel
  have matched :
      (rowsStore.form (.pair 0)).matchForm rowsStore [] (.pair 5) [] = some rowsCaptures := rfl
  have stand :
      (rowsStore.form (.pair 0)).standings = [⟨"name", 1, none⟩, ⟨"value", 2, none⟩] := rfl
  obtain ⟨captured, fills⟩ := variables_are_captured_as_deep_as_they_stand distinct matched
  refine ⟨?_, fills ⟨"rows", [], [], default⟩ true ⟨.pair 0, .pair 0⟩ rowsStore rfl ?_ (.inl rfl)⟩
  · obtain ⟨standing, member, isValue, isCaptured⟩ := captured "value" (by decide +kernel)
    rw [stand] at member
    simp only [List.mem_cons, List.not_mem_nil, or_false] at member
    rcases member with rfl | rfl
    · simp at isValue
    · exact isCaptured
  · have sameStore : (rowsCaptures.settle rowsStore).2 = rowsStore := rfl
    rw [sameStore, Form.IsUsedIn, Form.variablesAmong, stand]
    decide +kernel

/--
The pattern `((a 'x) ...)`, the form `((1 'x) (2 'x))` and the template `'((a x) ...)`, which has
both names under one ellipsis as the pattern has.
-/
def markedNameStore : Store :=
  { Store.empty with
    pairs := #[
      ⟨.pair 2, .pair 1⟩, ⟨.symbol "...", .nil⟩, ⟨.symbol "a", .pair 3⟩, ⟨.marked .quote 0, .nil⟩,
      ⟨.pair 6, .pair 5⟩, ⟨.pair 8, .nil⟩, ⟨.integer 1, .pair 7⟩, ⟨.marked .quote 1, .nil⟩,
      ⟨.integer 2, .pair 9⟩, ⟨.marked .quote 1, .nil⟩,
      ⟨.pair 12, .pair 11⟩, ⟨.symbol "...", .nil⟩, ⟨.symbol "a", .pair 13⟩, ⟨.symbol "x", .nil⟩],
    marked := #[.symbol "x", .symbol "x", .pair 10] }

/-- A variable under a mark is found in the pattern, but there is nothing to fill a template
with. -/
theorem variable_under_mark_is_no_form :
    ∃ captures : Captures,
      ((markedNameStore.form (.pair 0)).occurrences []).Nodup ∧
        (markedNameStore.form (.pair 0)).matchForm markedNameStore [] (.pair 4) [] =
            some captures ∧
          "x" ∈ (markedNameStore.form (.pair 0)).variables [] [] ∧
          (markedNameStore.form (.pair 0)).standings = [⟨"a", 1, none⟩, ⟨"x", 1, some 1⟩] ∧
          (¬∃ capture,
            captures.lookup "x" = some capture ∧
              capture.HasDepth (Capture.IsPartOf markedNameStore (.pair 4)) 1) ∧
          (markedNameStore.form (.marked .quote 2)).standings =
            [⟨"a", 1, some 0⟩, ⟨"x", 1, some 0⟩] ∧
          (Transformer.fillRule ⟨"m", [], [], default⟩ true ⟨.pair 0, .marked .quote 2⟩ captures
              markedNameStore).1 =
            .error (.evaluation (.variableDepth "x")) := by
  refine ⟨[("x", .many [.many [], .many []]), ("a", .many [.one (.integer 1), .one (.integer 2)])],
    by decide +kernel, rfl, by decide +kernel, rfl, ?_, rfl, rfl⟩
  rintro ⟨capture, found, each, same, deep⟩
  cases found
  cases same
  exact deep _ List.mem_cons_self

end SmallScheme
