import SmallScheme.Proofs.Store.Parts
import SmallScheme.Proofs.Transformer.Matching
import SmallScheme.Proofs.Transformer.Reversible

namespace SmallScheme

/-!
# Where names stand

A name stands in a form under the ellipses that follow an item around it, and perhaps under a mark.
Filling a template goes under marks and matching a pattern does not, so of a name under a mark it is
also told how many of its ellipses are outside of the mark.
-/

/-- A place where a name stands in a form. -/
structure Standing where
  name : String
  /-- The ellipses that it stands under. -/
  depth : Nat
  /-- The ellipses outside of the outermost mark, if it stands under a mark. -/
  unmarked : Option Nat
  deriving DecidableEq, Repr

namespace Standing

/-- The place in a form that is followed by an ellipsis. -/
def repeated (standing : Standing) : Standing :=
  ⟨standing.name, standing.depth + 1, standing.unmarked.map Nat.succ⟩

/-- The place in a form that is under a mark. -/
def underMark (standing : Standing) : Standing :=
  ⟨standing.name, standing.depth, some 0⟩

end Standing

namespace Form

mutual

/-- The places of the identifiers of a form, but for the ellipses that repeat an item. -/
def standings : Form → List Standing
  | .atom _ => []
  | .identifier name _ => [⟨name, 0, none⟩]
  | .list items tail _ => allStandings items ++ standings tail
  | .vector items _ => allStandings items
  | .marked _ inner _ => (standings inner).map .underMark

def allStandings : List Form → List Standing
  | [] => []
  | [item] => if item.isNamed Capture.ellipsis then [] else standings item
  | item :: next :: rest =>
      if item.isNamed Capture.ellipsis then
        allStandings (next :: rest)
      else if next.isNamed Capture.ellipsis then
        (standings item).map .repeated ++ allStandings rest
      else
        standings item ++ allStandings (next :: rest)

end

/-- The places of the variables among them. -/
def variablesAmong (literals : List String) (standings : List Standing) : List Standing :=
  standings.filter fun standing => isVariable literals standing.name

variable {literals : List String}

/-- A single standing is a variable or it is not. -/
theorem variablesAmong_singleton
    (standing : Standing) :
    variablesAmong literals [standing] =
      if isVariable literals standing.name then [standing] else [] := by
  unfold variablesAmong
  cases isVariable : isVariable literals standing.name <;> simp [isVariable]

/-- The variables among two lists of standings are those of the one before those of the other. -/
theorem variablesAmong_append
    (standings others : List Standing) :
    variablesAmong literals (standings ++ others) =
      variablesAmong literals standings ++ variablesAmong literals others :=
  List.filter_append ..

/-- A change that keeps the names keeps which standings are variables. -/
theorem variablesAmong_map
    (change : Standing → Standing)
    (sameName : ∀ standing, (change standing).name = standing.name)
    (standings : List Standing) :
    variablesAmong literals (standings.map change) =
      (variablesAmong literals standings).map change := by
  simp only [variablesAmong, List.filter_map, Function.comp_def, sameName]

/-- A change that keeps the name of each standing keeps the names of all. -/
theorem names_map
    (change : Standing → Standing)
    (sameName : ∀ standing, (change standing).name = standing.name)
    (standings : List Standing) :
    (standings.map change).map Standing.name = standings.map Standing.name := by
  simp only [List.map_map, Function.comp_def, sameName]

mutual

/-- The places of the variables are those where they occur. -/
theorem names_of_standings
    (form : Form) :
    (variablesAmong literals form.standings).map Standing.name = form.occurrences literals := by
  match form with
  | .atom value => rfl
  | .identifier name value =>
      unfold standings occurrences
      rw [variablesAmong_singleton]
      split <;> rfl
  | .list items tail value =>
      rw [standings, variablesAmong_append, List.map_append, names_of_standings tail,
        names_of_allStandings items]
      rfl
  | .vector items value => exact names_of_allStandings items
  | .marked mark inner value =>
      rw [standings, variablesAmong_map Standing.underMark fun _ => rfl,
        names_map Standing.underMark fun _ => rfl]
      exact names_of_standings inner

/-- The standings of the items have the names that occur in them, in their order. -/
theorem names_of_allStandings
    (items : List Form) :
    (variablesAmong literals (allStandings items)).map Standing.name =
      allOccurrences literals items := by
  match items with
  | [] => rfl
  | [item] =>
      unfold allStandings
      split
      case isTrue isDots =>
        simp [allOccurrences, occurrences_ellipsis isDots, variablesAmong]
      case isFalse => rw [names_of_standings item, allOccurrences, allOccurrences, List.append_nil]
  | item :: next :: rest =>
      unfold allStandings
      split
      case isTrue isDots =>
        rw [names_of_allStandings (next :: rest)]
        conv_rhs => rw [allOccurrences, occurrences_ellipsis isDots, List.nil_append]
      case isFalse =>
        split
        case isTrue isDots =>
          rw [variablesAmong_append, List.map_append,
            variablesAmong_map Standing.repeated fun _ => rfl,
            names_map Standing.repeated fun _ => rfl, names_of_standings item,
            names_of_allStandings rest, allOccurrences, allOccurrences, occurrences_ellipsis isDots,
            List.nil_append]
        case isFalse =>
          rw [variablesAmong_append, List.map_append, names_of_standings item,
            names_of_allStandings (next :: rest)]
          rfl

end

/-- The standings of each item, one item after the other, have the names that occur in them. -/
theorem names_of_each
    (items : List Form) :
    (variablesAmong literals (items.flatMap standings)).map Standing.name =
      allOccurrences literals items := by
  induction items with
  | nil => rfl
  | cons item items inductionHypothesis =>
      rw [List.flatMap_cons, variablesAmong_append, List.map_append, inductionHypothesis,
        names_of_standings]
      rfl

/-! Sequences. -/

/-- An item that no ellipsis follows stands for itself. -/
theorem allStandings_cons
    {item : Form}
    {rest : List Form}
    (plain : ¬item.isNamed Capture.ellipsis)
    (notFollowed : NoEllipsis rest.head?.toList) :
    allStandings (item :: rest) = item.standings ++ allStandings rest := by
  match rest with
  | [] =>
      unfold allStandings
      rw [if_neg plain, List.append_nil]
  | next :: rest =>
      have plainNext : ¬next.isNamed Capture.ellipsis := notFollowed next (by simp)
      rw [allStandings, if_neg plain, if_neg plainNext]

/-- Items without an ellipsis stand for themselves, before the standings of the rest. -/
theorem allStandings_append
    {items others : List Form}
    (plain : NoEllipsis items)
    (notFollowed : NoEllipsis others.head?.toList) :
    allStandings (items ++ others) = items.flatMap standings ++ allStandings others := by
  induction items with
  | nil => rfl
  | cons item items inductionHypothesis =>
      obtain ⟨plainItem, plainItems⟩ := List.forall_mem_cons.mp plain
      have notFollowedItem := NoEllipsis.head_append plainItems notFollowed
      rw [List.cons_append, allStandings_cons plainItem notFollowedItem,
        inductionHypothesis plainItems, List.flatMap_cons, List.append_assoc]

/-- Items without an ellipsis stand for themselves. -/
theorem allStandings_plain
    {items : List Form}
    (plain : NoEllipsis items) :
    allStandings items = items.flatMap standings := by
  have alone : NoEllipsis [] := fun _ member => nomatch member
  have split := allStandings_append plain alone.head
  rwa [List.append_nil, allStandings, List.append_nil] at split

/-- The item before the ellipsis is the only one that stands repeated. -/
theorem allStandings_repeating
    {before after : List Form}
    {repeated dots : Form}
    (plainBefore : NoEllipsis before)
    (plainRepeated : ¬repeated.isNamed Capture.ellipsis)
    (isDots : dots.isNamed Capture.ellipsis)
    (plainAfter : NoEllipsis after) :
    allStandings (before ++ repeated :: dots :: after) =
      before.flatMap standings ++
        (repeated.standings.map .repeated ++ after.flatMap standings) := by
  rw [allStandings_append plainBefore (noEllipsis_head_cons plainRepeated _), allStandings,
    if_neg plainRepeated, if_pos isDots, allStandings_plain plainAfter]

/-- Where a sequence has an ellipsis, it stands alone or after an item. -/
theorem first_ellipsis
    (items : List Form) :
    NoEllipsis items ∨
      (∃ dots rest, items = dots :: rest ∧ dots.isNamed Capture.ellipsis) ∨
      ∃ before repeated dots after,
        items = before ++ repeated :: dots :: after ∧ NoEllipsis before ∧
          ¬repeated.isNamed Capture.ellipsis ∧ dots.isNamed Capture.ellipsis := by
  induction items with
  | nil => exact .inl fun _ member => nomatch member
  | cons item items inductionHypothesis =>
      by_cases isDots : item.isNamed Capture.ellipsis
      · exact .inr (.inl ⟨item, items, rfl, isDots⟩)
      · rcases inductionHypothesis with plain | ⟨dots, rest, rfl, isDotsNext⟩ |
          ⟨before, repeated, dots, after, rfl, plainBefore, plainRepeated, isDotsNext⟩
        · exact .inl (List.forall_mem_cons.mpr ⟨isDots, plain⟩)
        · exact .inr (.inr ⟨[], item, dots, rest, rfl, (fun _ member => nomatch member),
            isDots, isDotsNext⟩)
        · exact .inr (.inr ⟨item :: before, repeated, dots, after, rfl,
            List.forall_mem_cons.mpr ⟨isDots, plainBefore⟩, plainRepeated, isDotsNext⟩)

end Form

/-!
## What variables capture

A variable captures a part of the matched form, or a list of what was left of one, for each
repetition of what it stands in: as many repetitions deep as there are ellipses over its place in
the pattern.  A variable under a mark meets nothing.  It captures nothing at all unless there is an
ellipsis outside of the mark, and then an empty group for each repetition.
-/

/-- What a list spells is reached from it. -/
theorem Store.Spells.leadsTo
    {store : Store}
    {value ending : Value}
    {items : List Value}
    (spells : store.Spells value items ending) :
    (∀ item ∈ items, store.LeadsTo value item) ∧ store.LeadsTo value ending := by
  induction spells with
  | nothing => exact ⟨(fun _ member => nomatch member), .refl⟩
  | @pair address head tail ending items found _ inductionHypothesis =>
      have toHead : store.HasPart (.pair address) head := .inl (by simp [contents, found])
      have toTail : store.HasPart (.pair address) tail := .inr ⟨_, found, rfl⟩
      obtain ⟨leadsItems, leadsEnding⟩ := inductionHypothesis
      refine ⟨List.forall_mem_cons.mpr ⟨.single toHead, fun item member => ?_⟩, ?_⟩
      · exact .head toTail (leadsItems item member)
      · exact .head toTail leadsEnding

namespace Capture

/-- The capture branches into repetitions as often as told, and then all its leaves are such. -/
def HasDepth (leaf : Capture → Prop) : Nat → Capture → Prop
  | 0, capture => leaf capture
  | depth + 1, capture =>
      ∃ each, capture = .many each ∧ ∀ inner ∈ each, HasDepth leaf depth inner

/-- The depth of a capture stays when more counts as a leaf. -/
theorem HasDepth.mono
    {leaf leaf' : Capture → Prop}
    (implies : ∀ capture, leaf capture → leaf' capture)
    {depth : Nat}
    {capture : Capture}
    (hasDepth : capture.HasDepth leaf depth) :
    capture.HasDepth leaf' depth := by
  induction depth generalizing capture with
  | zero => exact implies capture hasDepth
  | succ depth inductionHypothesis =>
      obtain ⟨each, rfl, deep⟩ := hasDepth
      exact ⟨each, rfl, fun inner member => inductionHypothesis (deep inner member)⟩

/-- The capture is a part of the form, or what is left of the items of one. -/
def IsPartOf (store : Store) (form : Value) : Capture → Prop
  | .one part => store.LeadsTo form part
  | .rest items tail => ∃ part, store.LeadsTo form part ∧ store.Spells part items tail
  | .many _ => False

/-- A capture out of a part is a capture out of the whole. -/
theorem IsPartOf.of_leadsTo
    {store : Store}
    {form part : Value}
    (leads : store.LeadsTo form part)
    {capture : Capture}
    (isPart : capture.IsPartOf store part) :
    capture.IsPartOf store form := by
  cases capture with
  | one value => exact leads.trans isPart
  | rest items tail =>
      obtain ⟨whole, further, spells⟩ := isPart
      exact ⟨whole, leads.trans further, spells⟩
  | many each => exact isPart

end Capture

variable
  {store : Store}
  {literals : List String}
  {form : Value}

/-- What is captured at the place by a match with the form. -/
def Standing.Takes
    (store : Store)
    (form : Value)
    (standing : Standing)
    (capture : Capture) : Prop :=
  match standing.unmarked with
  | none => capture.HasDepth (Capture.IsPartOf store form) standing.depth
  | some depth => capture.HasDepth (· = .many []) depth

/-- The places at which something is captured. -/
def Standing.IsReached (standing : Standing) : Prop :=
  standing.unmarked ≠ some 0

/-- A standing under an ellipsis is reached. -/
theorem Standing.isReached_repeated
    (standing : Standing) :
    standing.repeated.IsReached := by
  unfold IsReached repeated
  cases standing.unmarked <;> simp

/-- Under an ellipsis there is a capture for each repetition, also where nothing was captured. -/
theorem Standing.takes_repeated
    {standing : Standing}
    {each : List Capture}
    (reached : standing.IsReached → ∀ capture ∈ each, standing.Takes store form capture)
    (missed : ¬standing.IsReached → ∀ capture ∈ each, capture = .many []) :
    standing.repeated.Takes store form (.many each) := by
  unfold Takes repeated at *
  cases marked : standing.unmarked with
  | none =>
      have isReached : standing.IsReached := by simp [IsReached, marked]
      rw [marked] at reached
      exact ⟨each, rfl, reached isReached⟩
  | some depth =>
      rw [marked] at reached
      refine ⟨each, rfl, fun capture member => ?_⟩
      cases depth with
      | zero => exact missed (by simp [IsReached, marked]) capture member
      | succ depth => exact reached (by simp [IsReached, marked]) capture member

namespace Captures

/-- The places have got captures, and but for lone ellipses no other names have got any. -/
structure Take
    (store : Store)
    (form : Value)
    (standings : List Standing)
    (before after : Captures) : Prop where
  inside :
    ∀ standing ∈ standings, standing.IsReached →
      ∃ capture, after.lookup standing.name = some capture ∧ standing.Takes store form capture
  outside :
    ∀ name ≠ Capture.ellipsis,
      (∀ standing ∈ standings, standing.IsReached → standing.name ≠ name) →
      after.lookup name = before.lookup name

namespace Take

/-- A pattern without variables takes nothing. -/
theorem nothing
    (captures : Captures) :
    Take store form [] captures captures :=
  ⟨(fun _ member => nomatch member), fun _ _ _ => rfl⟩

/-- What is taken from a part is taken from the whole. -/
theorem of_leadsTo
    {part : Value}
    (leads : store.LeadsTo form part)
    {standings : List Standing}
    {before after : Captures}
    (take : Take store part standings before after) :
    Take store form standings before after where
  inside standing member reached := by
    obtain ⟨capture, found, takes⟩ := take.inside standing member reached
    refine ⟨capture, found, ?_⟩
    unfold Standing.Takes at *
    split
    case h_1 marked =>
      rw [marked] at takes
      exact takes.mono fun _ isPart => isPart.of_leadsTo leads
    case h_2 marked =>
      rw [marked] at takes
      exact takes
  outside := take.outside

/-- Only which places there are matters. -/
theorem congr
    {standings others : List Standing}
    (same : ∀ standing, standing ∈ standings ↔ standing ∈ others)
    {before after : Captures}
    (take : Take store form standings before after) :
    Take store form others before after where
  inside standing member := take.inside standing ((same standing).mpr member)
  outside name ordinary absent :=
    take.outside name ordinary fun standing member => absent standing ((same standing).mp member)

/-- Later captures do not hide earlier ones, for they are of other names. -/
theorem append
    {standings others : List Standing}
    {before between after : Captures}
    (distinct :
      ((Form.variablesAmong literals standings).map Standing.name ++
        (Form.variablesAmong literals others).map Standing.name).Nodup)
    (first : Take store form (Form.variablesAmong literals standings) before between)
    (second : Take store form (Form.variablesAmong literals others) between after) :
    Take store form (Form.variablesAmong literals (standings ++ others)) before after := by
  obtain ⟨_, _, apart⟩ := List.nodup_append.mp distinct
  rw [Form.variablesAmong_append]
  refine ⟨fun standing member reached => ?inside, fun name ordinary absent => ?outside⟩
  case inside =>
    rcases List.mem_append.mp member with earlier | later
    · obtain ⟨capture, found, takes⟩ := first.inside standing earlier reached
      have isVariable := (List.mem_filter.mp earlier).2
      have kept := second.outside standing.name (Form.isVariable_iff.mp isVariable).1
        fun other member _ same =>
          apart _ (List.mem_map_of_mem earlier) _ (List.mem_map_of_mem member) same.symm
      exact ⟨capture, kept.trans found, takes⟩
    · exact second.inside standing later reached
  case outside =>
    have keptFirst := first.outside name ordinary
      fun standing member => absent standing (List.mem_append_left _ member)
    have keptSecond := second.outside name ordinary
      fun standing member => absent standing (List.mem_append_right _ member)
    exact keptSecond.trans keptFirst

end Take

end Captures

namespace Form

/-- What a match of the pattern captures for its variables. -/
def IsTaken
    (store : Store)
    (literals : List String)
    (pattern : Form) : Prop :=
  (pattern.occurrences literals).Nodup →
    ∀ {form : Value} {captures result : Captures},
      pattern.matchForm store literals form captures = some result →
      Captures.Take store form (variablesAmong literals pattern.standings) captures result

/-- Items matched against as many forms take each from its own form. -/
theorem take_each
    {items : List Form}
    (taken : ∀ item ∈ items, item.IsTaken store literals)
    (distinct : (allOccurrences literals items).Nodup)
    {forms : List Value}
    (parts : ∀ part ∈ forms, store.LeadsTo form part)
    (size : forms.length = items.length)
    {captures result : Captures}
    (matched : matchEach store literals items forms captures = some result) :
    Captures.Take store form (variablesAmong literals (items.flatMap standings)) captures
      result := by
  induction items generalizing forms captures with
  | nil =>
      cases List.length_eq_zero_iff.mp size
      cases matched
      exact .nothing _
  | cons item items inductionHypothesis =>
      cases forms with
      | nil => cases size
      | cons part forms =>
          obtain ⟨takenItem, takenItems⟩ := List.forall_mem_cons.mp taken
          obtain ⟨leads, partsItems⟩ := List.forall_mem_cons.mp parts
          obtain ⟨distinctItem, distinctItems, _⟩ := List.nodup_append.mp distinct
          rw [matchEach_cons] at matched
          obtain ⟨between, matchedItem, matchedItems⟩ := Option.bind_eq_some_iff.mp matched
          have first := (takenItem distinctItem matchedItem).of_leadsTo leads
          have others := inductionHypothesis takenItems distinctItems partsItems
            (Nat.succ.inj size) matchedItems
          rw [List.flatMap_cons]
          exact .append (by rwa [names_of_standings, names_of_each]) first others

/-- The repetitions of an item are collected variable by variable, also of those under marks. -/
theorem take_repeatedly
    {item : Form}
    (taken : item.IsTaken store literals)
    (distinct : (item.occurrences literals).Nodup)
    {forms : List Value}
    (parts : ∀ part ∈ forms, store.LeadsTo form part)
    {repetitions : List Captures}
    (matched : matchRepeatedly store literals item forms repetitions)
    (captures : Captures) :
    Captures.Take store form (variablesAmong literals (item.standings.map .repeated)) captures
      (collectRepetitions (item.variables literals []) repetitions captures) := by
  have among {name : String} :
      name ∈ item.variables literals [] ↔
        ∃ standing ∈ variablesAmong literals item.standings, standing.name = name := by
    rw [mem_variables, or_iff_right List.not_mem_nil, ← names_of_standings, List.mem_map]
  have each :
      ∀ repetition ∈ repetitions,
        Captures.Take store form (variablesAmong literals item.standings) [] repetition := by
    intro repetition member
    obtain ⟨index, within, rfl⟩ := List.getElem_of_mem member
    have inForms : index < forms.length := matched.length_eq ▸ within
    have matchedOne := matched.get inForms within
    exact (taken distinct matchedOne).of_leadsTo (parts _ (List.getElem_mem inForms))
  rw [variablesAmong_map Standing.repeated fun _ => rfl]
  refine ⟨fun standing member _ => ?inside, fun name _ absent => ?outside⟩
  case inside =>
    obtain ⟨inner, isInner, rfl⟩ := List.mem_map.mp member
    have collected := lookup_collectRepetitions (item.variables literals []) repetitions captures
      inner.name
    rw [if_pos (among.mpr ⟨inner, isInner, rfl⟩)] at collected
    refine ⟨_, collected, ?_⟩
    refine Standing.takes_repeated (fun reached => ?_) (fun missed => ?_)
    · refine List.forall_mem_map.mpr fun repetition isRepetition => ?_
      obtain ⟨capture, found, takes⟩ := (each repetition isRepetition).inside inner isInner reached
      rwa [repetitionCapture, found]
    · refine List.forall_mem_map.mpr fun repetition isRepetition => ?_
      -- A variable of the same name elsewhere would not be distinct from this one.
      have uncaptured : repetition.lookup inner.name = none := by
        have isVariable := (List.mem_filter.mp isInner).2
        refine (each repetition isRepetition).outside inner.name (isVariable_iff.mp isVariable).1 ?_
        intro other isOther reached sameName
        rw [← names_of_standings] at distinct
        exact missed (List.inj_on_of_nodup_map distinct isOther isInner sameName ▸ reached)
      rw [repetitionCapture, uncaptured]
      rfl
  case outside =>
    rw [lookup_collectRepetitions, if_neg]
    intro member
    obtain ⟨inner, isInner, sameName⟩ := among.mp member
    exact absent _ (List.mem_map_of_mem isInner) inner.isReached_repeated sameName

/-- A sequence that begins with an ellipsis is the ellipsis alone. -/
theorem matchSequence_lone
    {dots : Form}
    {rest : List Form}
    (isDots : dots.isNamed Capture.ellipsis)
    {closed : Bool}
    {matchTail : List Value → Value → Captures → Option Captures}
    {forms : List Value}
    {ending : Value}
    {captures result : Captures}
    (matched :
      matchSequence store literals (dots :: rest) closed matchTail forms ending captures =
        some result) :
    rest = [] ∧ result = (Capture.ellipsis, .many (forms.map .one)) :: captures := by
  have index : Overlay.ellipsisIndex? (dots :: rest) = some 0 := by
    unfold Overlay.ellipsisIndex?
    rw [List.findIdx?_cons, if_pos isDots]
  unfold matchSequence Overlay.of? Overlay.repeating? at matched
  rw [index] at matched
  dsimp only at matched
  split at matched
  · rw [if_pos rfl] at matched
    split at matched
    case isTrue alone =>
      exact ⟨List.length_eq_zero_iff.mp (Nat.succ.inj alone), (Option.some.inj matched).symm⟩
    case isFalse => cases matched
  · cases matched

/-- A sequence that is matched has no second ellipsis. -/
theorem plain_after_of_matchSequence
    {before after : List Form}
    {repeated dots : Form}
    (plainBefore : NoEllipsis before)
    (plainRepeated : ¬repeated.isNamed Capture.ellipsis)
    (isDots : dots.isNamed Capture.ellipsis)
    {closed : Bool}
    {matchTail : List Value → Value → Captures → Option Captures}
    {forms : List Value}
    {ending : Value}
    {captures result : Captures}
    (matched :
      matchSequence store literals (before ++ repeated :: dots :: after) closed matchTail forms
        ending captures = some result) :
    NoEllipsis after := by
  have rest : (before ++ repeated :: dots :: after).drop (before.length + 1 + 1) = after := by
    rw [Nat.add_assoc, List.drop_append]
    simp
  unfold matchSequence Overlay.of? Overlay.repeating? at matched
  rw [ellipsisIndex?_repeating plainBefore plainRepeated isDots] at matched
  dsimp only at matched
  rw [rest, if_neg (Nat.succ_ne_zero _)] at matched
  intro item member isDotsToo
  have found : (Overlay.ellipsisIndex? after).isSome :=
    List.findIdx?_isSome.trans (List.any_eq_true.mpr ⟨item, member, isDotsToo⟩)
  rw [found, Bool.or_true, if_pos rfl, ite_self] at matched
  cases matched

/-- A sequence before a tail that is matched has no ellipsis. -/
theorem plain_of_matchSequence
    {items : List Form}
    {matchTail : List Value → Value → Captures → Option Captures}
    {forms : List Value}
    {ending : Value}
    {captures result : Captures}
    (matched :
      matchSequence store literals items false matchTail forms ending captures = some result) :
    NoEllipsis items := by
  intro item member isDots
  have found : (Overlay.ellipsisIndex? items).isSome :=
    List.findIdx?_isSome.trans (List.any_eq_true.mpr ⟨item, member, isDots⟩)
  obtain ⟨index, found⟩ := Option.isSome_iff_exists.mp found
  unfold matchSequence Overlay.of? at matched
  rw [found] at matched
  cases matched

/-- Items matched against the first forms take from those, and the tail from the rest. -/
theorem take_sequence
    {items : List Form}
    (taken : ∀ item ∈ items, item.IsTaken store literals)
    (distinct : (allOccurrences literals items).Nodup)
    {matchTail : List Value → Value → Captures → Option Captures}
    {forms : List Value}
    (parts : ∀ part ∈ forms, store.LeadsTo form part)
    {ending : Value}
    {captures result : Captures}
    (matched :
      matchSequence store literals items true matchTail forms ending captures = some result) :
    Captures.Take store form (variablesAmong literals (allStandings items)) captures result := by
  rcases first_ellipsis items with plain | ⟨dots, rest, rfl, isDots⟩ |
    ⟨before, repeated, dots, after, rfl, plainBefore, plainRepeated, isDots⟩
  · obtain ⟨size, _, matched⟩ := (matchSequence_plain_closed plain matchTail).mp matched
    rw [allStandings_plain plain]
    exact take_each taken distinct parts size matched
  · obtain ⟨rfl, rfl⟩ := matchSequence_lone isDots matched
    rw [allStandings, if_pos isDots]
    refine ⟨(fun _ member => nomatch member), fun name ordinary _ => ?_⟩
    rw [List.lookup_cons, beq_false_of_ne ordinary]
  · have plainAfter := plain_after_of_matchSequence plainBefore plainRepeated isDots matched
    obtain ⟨_, start, middle, last, first, second, repetitions, rfl, size, sizeLast,
        matchedBefore, matchedAfter, matchedRepeated, rfl⟩ :=
      (matchSequence_repeating plainBefore plainRepeated isDots plainAfter matchTail).mp matched
    rw [allOccurrences_repeating isDots] at distinct
    have reordered := (List.perm_append_comm.append_left _).nodup_iff.mp distinct
    rw [← List.append_assoc] at reordered
    obtain ⟨distinctPlain, distinctRepeated, _⟩ := List.nodup_append.mp reordered
    obtain ⟨distinctBefore, distinctAfter, _⟩ := List.nodup_append.mp distinctPlain
    have takeBefore := take_each (fun item member => taken item (by simp [member])) distinctBefore
      (fun part member => parts part (by simp [member])) size matchedBefore
    have takeAfter := take_each (fun item member => taken item (by simp [member])) distinctAfter
      (fun part member => parts part (by simp [member])) sizeLast matchedAfter
    have takeRepeated := take_repeatedly (taken repeated (by simp)) distinctRepeated
      (fun part member => parts part (by simp [member])) matchedRepeated second
    -- The items around the repeated one are matched before it.
    have takePlain := takeBefore.append (by rwa [names_of_each, names_of_each]) takeAfter
    have takeAll := takePlain.append (by
      rwa [variablesAmong_append, List.map_append, names_of_each, names_of_each,
        variablesAmong_map Standing.repeated fun _ => rfl,
        names_map Standing.repeated fun _ => rfl, names_of_standings]) takeRepeated
    refine takeAll.congr fun standing => ?_
    rw [allStandings_repeating plainBefore plainRepeated isDots plainAfter]
    simp only [variablesAmong_append, List.mem_append]
    tauto

/-- A name that is no variable takes nothing. -/
theorem take_nothing
    {name : String}
    (special : ¬isVariable literals name)
    (value : Value)
    (captures : Captures) :
    Captures.Take store form (variablesAmong literals (standings (.identifier name value)))
      captures captures := by
  rw [standings, variablesAmong_singleton, if_neg special]
  exact .nothing captures

/-- An ellipsis outside of a sequence captures as variables do, but is none. -/
theorem take_capturing
    {name : String}
    (notWildcard : name ≠ Capture.wildcard)
    (notLiteral : name ∉ literals)
    {capture : Capture}
    (isPart : capture.IsPartOf store form)
    (value : Value)
    (captures : Captures) :
    Captures.Take store form (variablesAmong literals (standings (.identifier name value)))
      captures ((name, capture) :: captures) := by
  have kept (other : String) (apart : other ≠ name) :
      ((name, capture) :: captures).lookup other = captures.lookup other := by
    rw [List.lookup_cons, beq_false_of_ne apart]
  rw [standings, variablesAmong_singleton]
  split
  case isTrue =>
    refine ⟨List.forall_mem_singleton.mpr fun _ => ?_, fun other _ absent => ?_⟩
    · exact ⟨capture, List.lookup_cons_self, isPart⟩
    · exact kept other (absent _ List.mem_cons_self (by simp [Standing.IsReached])).symm
  case isFalse special =>
    have isEllipsis : name = Capture.ellipsis := by
      by_contra ordinary
      exact special (isVariable_iff.mpr ⟨ordinary, notWildcard, notLiteral⟩)
    refine ⟨(fun _ member => nomatch member), fun other ordinary _ => ?_⟩
    exact kept other (isEllipsis ▸ ordinary)

/-- The tail of a pattern takes what its items leave of a list. -/
theorem take_remainder
    {tail : Form}
    (taken : tail.IsTaken store literals)
    (distinct : (tail.occurrences literals).Nodup)
    {part ending : Value}
    {rest : List Value}
    (leads : store.LeadsTo form part)
    (spells : store.Spells part rest ending)
    {captures result : Captures}
    (matched :
      matchRemainder (matchForm store literals tail) literals tail rest ending captures =
        some result) :
    Captures.Take store form (variablesAmong literals tail.standings) captures result := by
  unfold matchRemainder at matched
  split at matched
  · exact (taken distinct matched).of_leadsTo (leads.trans spells.leadsTo.2)
  · cases tail with
    | identifier name value =>
        dsimp only [identifier?] at matched
        split at matched
        case isTrue isWildcard =>
          cases matched
          exact take_nothing (fun isVariable => (isVariable_iff.mp isVariable).2.1 isWildcard) _ _
        case isFalse notWildcard =>
          split at matched
          case isTrue => cases matched
          case isFalse notLiteral =>
            cases matched
            have isPart : (Capture.rest rest ending).IsPartOf store form :=
              ⟨part, leads, spells⟩
            exact take_capturing notWildcard (mt List.contains_iff_mem.mpr notLiteral) isPart _ _
    | _ => cases matched

mutual

/-- Every match captures for the variables what their places in the pattern say. -/
theorem isTaken
    (pattern : Form) :
    pattern.IsTaken store literals :=
  match pattern with
  | .atom value => by
      intro _ form captures result matched
      unfold matchForm at matched
      split at matched <;> cases matched
      exact .nothing _
  | .identifier name value => by
      intro _ form captures result matched
      unfold matchForm at matched
      split at matched
      case isTrue isWildcard =>
        cases matched
        exact take_nothing (fun isVariable => (isVariable_iff.mp isVariable).2.1 isWildcard) _ _
      case isFalse notWildcard =>
        split at matched
        case isTrue isLiteral =>
          split at matched <;> cases matched
          exact take_nothing
            (fun isVariable =>
              (isVariable_iff.mp isVariable).2.2 (List.contains_iff_mem.mp isLiteral)) _ _
        case isFalse notLiteral =>
          cases matched
          have isPart : (Capture.one form).IsPartOf store form := Relation.ReflTransGen.refl
          exact take_capturing notWildcard (mt List.contains_iff_mem.mpr notLiteral) isPart _ _
  | .list items tail value => by
      intro distinct form captures result matched
      obtain ⟨distinctItems, distinctTail, _⟩ := List.nodup_append.mp distinct
      rw [matchForm_list] at matched
      obtain ⟨⟨forms, ending⟩, parts, matched⟩ := Option.bind_eq_some_iff.mp matched
      have spells := spells_of_listParts? parts
      obtain ⟨leadsForms, _⟩ := spells.leadsTo
      cases isNil : tail.isNil with
      | true =>
          rw [isNil] at matched
          obtain rfl := eq_atom_of_isNil isNil
          rw [standings, standings, List.append_nil]
          exact take_sequence (allTaken items) distinctItems leadsForms matched
      | false =>
          rw [isNil] at matched
          have plain := plain_of_matchSequence matched
          obtain ⟨start, rest, between, rfl, size, matchedItems, matchedTail⟩ :=
            (matchSequence_plain_open plain _).mp matched
          obtain ⟨middle, spellsStart, spellsRest⟩ := spells.split
          have takeItems := take_each (allTaken items) distinctItems
            (fun part member => leadsForms part (List.mem_append_left _ member)) size matchedItems
          have takeTail := take_remainder (isTaken tail) distinctTail spellsStart.leadsTo.2
            spellsRest matchedTail
          rw [standings, allStandings_plain plain]
          exact takeItems.append (by rwa [names_of_each, names_of_standings]) takeTail
  | .vector items value => by
      intro distinct form captures result matched
      cases form with
      | vector address =>
          rw [matchForm_vector] at matched
          have leads : ∀ part ∈ (store.vectorAt address).toList,
              store.LeadsTo (.vector address) part :=
            fun part member => .single (.inl member)
          exact take_sequence (allTaken items) distinct leads matched
      | _ => cases matched
  | .marked mark inner value => by
      intro _ form captures result matched
      unfold matchForm at matched
      split at matched <;> cases matched
      rw [standings, variablesAmong_map Standing.underMark fun _ => rfl]
      refine ⟨fun standing member reached => ?_, fun _ _ _ => rfl⟩
      obtain ⟨place, _, rfl⟩ := List.mem_map.mp member
      exact (reached rfl).elim

/-- Each of the items takes what it matches. -/
theorem allTaken
    (items : List Form) :
    ∀ item ∈ items, item.IsTaken store literals :=
  match items with
  | [] => fun _ member => nomatch member
  | item :: items => List.forall_mem_cons.mpr ⟨isTaken item, allTaken items⟩

end

end Form

end SmallScheme
