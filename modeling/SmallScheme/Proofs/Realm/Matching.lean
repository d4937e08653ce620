import SmallScheme.Proofs.Realm.Action
import SmallScheme.Proofs.Transformer.Overlay
import SmallScheme.Transformer.Basic

namespace SmallScheme

/-!
# Quotation and matching within a realm

What is quoted is made of the parts of a form and of fresh objects, and what a match captures are
parts of the form that is matched.  So both belong to the realm if the form does.
-/

variable
  {realm : Realm}
  {size : Sizes}
  {value : Value}
  {values : List Value}

/-! Quotation. -/

namespace Store

/-- A mark is spelled out by fresh pairs. -/
theorem makes_wrap
    {mark : Mark}
    (belongs : value.Belongs realm size) :
    Makes realm (Value.Belongs realm) size (mark.wrap value) :=
  makes_newList
    (.cons (show Value.Belongs realm size (.symbol mark.keyword) from trivial) (.cons belongs .nil))

mutual

/-- A form of the realm is quoted by fresh pairs and vectors. -/
theorem makes_quoted
    {size : Sizes}
    {form : Form}
    (belongs : form.Belongs realm size) :
    Makes realm (Value.Belongs realm) size form.quoted :=
  match form, belongs with
  | .atom _, belongs => .nothing fun _ grown => Value.Belongs.mono belongs grown
  | .identifier _ _, _ => .nothing fun _ _ => trivial
  | .list items tail whole, ⟨itemsBelong, tailBelongs, wholeBelongs⟩ => by
      have copies :=
        (makes_allQuoted itemsBelong).andThen fun later _ grown quotedItems =>
          (makes_quoted (tailBelongs.mono grown)).andThen fun last _ grownTail quotedTail =>
            makes_newListWithTail (quotedItems.mono grownTail) quotedTail
      intro store reaches
      unfold Form.quoted
      split
      · exact ⟨reaches.follows, wholeBelongs.mono reaches.grown⟩
      · exact copies store reaches
  | .vector items whole, ⟨itemsBelong, wholeBelongs⟩ => by
      have copies :=
        (makes_allQuoted itemsBelong).andThen fun _ _ _ quotedItems =>
          makes_newVector_toArray quotedItems
      intro store reaches
      unfold Form.quoted
      split
      · exact ⟨reaches.follows, wholeBelongs.mono reaches.grown⟩
      · exact copies store reaches
  | .marked _ _ _, ⟨innerBelongs, _⟩ =>
      (makes_quoted innerBelongs).andThen fun _ _ _ quotedInner => makes_wrap quotedInner

theorem makes_allQuoted
    {size : Sizes}
    {forms : List Form}
    (belong : Form.EachBelongs realm size forms) :
    Makes realm (AllBelong realm) size (Form.allQuoted forms) :=
  match forms, belong with
  | [], _ => .nothing fun _ _ => .nil
  | _ :: _, ⟨formBelongs, restBelong⟩ =>
      (makes_quoted formBelongs).andThen fun _ value grown quotedForm =>
        (makes_allQuoted (restBelong.mono grown)).map (value :: ·) fun _ _ grownRest quotedRest =>
          .cons (quotedForm.mono grownRest) quotedRest

end

/-- What is quoted holds what the value held. -/
theorem makes_quoteValue
    (belongs : value.Belongs realm size) :
    Makes realm (Value.Belongs realm) size (quoteValue value) :=
  fun store reaches =>
    makes_quoted (reaches.holds.form (belongs.mono reaches.grown)) store reaches.self

end Store

/-! Captures. -/

mutual

/-- Everything that the capture stands for belongs to the realm. -/
def Capture.Belongs (realm : Realm) (size : Sizes) : Capture → Prop
  | .one value => value.Belongs realm size
  | .rest items tail => AllBelong realm size items ∧ tail.Belongs realm size
  | .many each => Capture.EachBelongs realm size each

def Capture.EachBelongs (realm : Realm) (size : Sizes) : List Capture → Prop
  | [] => True
  | first :: others => Capture.Belongs realm size first ∧ Capture.EachBelongs realm size others

end

/-- Captures belong to the realm one by one. -/
theorem Capture.eachBelongs_iff
    {captures : List Capture} :
    Capture.EachBelongs realm size captures ↔
      ∀ capture ∈ captures, Capture.Belongs realm size capture := by
  induction captures with
  | nil => simp [Capture.EachBelongs]
  | cons capture rest inductionHypothesis => simp [Capture.EachBelongs, inductionHypothesis]

/-- Everything that the variables stand for belongs to the realm. -/
def Captures.Belong (realm : Realm) (size : Sizes) (captures : Captures) : Prop :=
  ∀ entry ∈ captures, Capture.Belongs realm size entry.2

mutual

/-- What a capture stands for belongs to a realm that has all that belonged before. -/
theorem Capture.Belongs.imp
    {other : Realm}
    {later : Sizes}
    {capture : Capture}
    (belongs : Capture.Belongs realm size capture)
    (keeps : ∀ {value : Value}, value.Belongs realm size → value.Belongs other later) :
    Capture.Belongs other later capture :=
  match capture, belongs with
  | .one _, belongs => keeps belongs
  | .rest _ _, ⟨items, tail⟩ => ⟨fun value member => keeps (items value member), keeps tail⟩
  | .many _, belongs => Capture.EachBelongs.imp belongs keeps

theorem Capture.EachBelongs.imp
    {other : Realm}
    {later : Sizes}
    {captures : List Capture}
    (belong : Capture.EachBelongs realm size captures)
    (keeps : ∀ {value : Value}, value.Belongs realm size → value.Belongs other later) :
    Capture.EachBelongs other later captures :=
  match captures, belong with
  | [], _ => trivial
  | _ :: _, ⟨first, others⟩ =>
      ⟨Capture.Belongs.imp first keeps, Capture.EachBelongs.imp others keeps⟩

end

theorem Capture.Belongs.mono
    {later : Sizes}
    {capture : Capture}
    (belongs : Capture.Belongs realm size capture)
    (grown : size ≤ later) :
    Capture.Belongs realm later capture :=
  belongs.imp (·.mono grown)

theorem Capture.EachBelongs.mono
    {later : Sizes}
    {captures : List Capture}
    (belong : Capture.EachBelongs realm size captures)
    (grown : size ≤ later) :
    Capture.EachBelongs realm later captures :=
  belong.imp (·.mono grown)

namespace Captures

variable {captures : Captures}

theorem Belong.mono
    {later : Sizes}
    (belong : captures.Belong realm size)
    (grown : size ≤ later) :
    captures.Belong realm later :=
  fun entry member => (belong entry member).mono grown

theorem Belong.nil :
    Captures.Belong realm size [] :=
  fun _ impossible => nomatch impossible

theorem Belong.cons
    {name : String}
    {capture : Capture}
    (belongs : Capture.Belongs realm size capture)
    (belong : captures.Belong realm size) :
    Captures.Belong realm size ((name, capture) :: captures) :=
  List.forall_mem_cons.mpr ⟨belongs, belong⟩

/-- What is captured under a name belongs to the realm. -/
theorem Belong.lookup
    (belong : captures.Belong realm size)
    {name : String}
    {capture : Capture}
    (found : captures.lookup name = some capture) :
    Capture.Belongs realm size capture := by
  obtain ⟨before, after, shape, _⟩ := List.lookup_eq_some_iff.mp found
  exact belong (name, capture) (by simp [shape])

end Captures

namespace Store

mutual

/-- The remainder of a list is settled as a fresh list. -/
theorem makes_settle
    {size : Sizes}
    {capture : Capture}
    (belongs : Capture.Belongs realm size capture) :
    Makes realm (Capture.Belongs realm) size (Capture.settle capture) :=
  match capture, belongs with
  | .one _, belongs => .nothing fun _ grown => Value.Belongs.mono belongs grown
  | .rest _ _, ⟨items, tail⟩ =>
      (makes_newListWithTail items tail).map Capture.one fun _ _ _ list => list
  | .many _, belongs => (makes_settleAll belongs).map Capture.many fun _ _ _ settled => settled

theorem makes_settleAll
    {size : Sizes}
    {captures : List Capture}
    (belong : Capture.EachBelongs realm size captures) :
    Makes realm (Capture.EachBelongs realm) size (Capture.settleAll captures) :=
  match captures, belong with
  | [], _ => .nothing fun _ _ => trivial
  | _ :: _, ⟨first, rest⟩ =>
      (makes_settle first).andThen fun _ capture grown settled =>
        (makes_settleAll (rest.mono grown)).map (capture :: ·) fun _ _ grownRest settledRest =>
          ⟨settled.mono grownRest, settledRest⟩

end

/-- All captures are settled within the realm. -/
theorem makes_settleCaptures
    {captures : Captures}
    (belong : captures.Belong realm size) :
    Makes realm (Captures.Belong realm) size captures.settle := by
  induction captures generalizing size with
  | nil => exact .nothing fun _ _ => .nil
  | cons entry rest inductionHypothesis =>
      obtain ⟨name, capture⟩ := entry
      obtain ⟨first, others⟩ := List.forall_mem_cons.mp belong
      exact (makes_settle first).andThen fun later settled grown isSettled =>
        (inductionHypothesis (Captures.Belong.mono others grown)).map ((name, settled) :: ·)
          fun _ _ grownRest belongRest => .cons (isSettled.mono grownRest) belongRest

end Store

/-! Matching. -/

def Assignment.Belongs (realm : Realm) (size : Sizes) : Assignment → Prop
  | .single form => form.Belongs realm size
  | .repeated forms => AllBelong realm size forms
  | .ignored => True

/-- All that the pattern is laid over belongs to the realm. -/
structure Overlay.Belongs (realm : Realm) (size : Sizes) (overlay : Overlay) : Prop where
  singles : ∀ assignment ∈ overlay.singles, assignment.Belongs realm size
  repetition : ∀ assignment ∈ overlay.repetition, assignment.Belongs realm size
  remainder :
    ∀ items ending,
      overlay.remainder = some (items, ending) →
      AllBelong realm size items ∧ ending.Belongs realm size
  group : ∀ forms, overlay.group = some forms → AllBelong realm size forms

namespace Overlay

/-- Items that are assigned one by one belong to the realm. -/
private theorem singles_belong
    (belong : AllBelong realm size values) :
    ∀ assignment ∈ values.map Assignment.single, assignment.Belongs realm size := by
  intro assignment member
  obtain ⟨value, isValue, rfl⟩ := List.mem_map.mp member
  exact belong value isValue

/-- A pattern without repetition is laid over values of the realm. -/
private theorem plain?_belongs
    {patterns : List Form}
    {closed : Bool}
    {overlay : Overlay}
    (belong : AllBelong realm size values)
    (endingBelongs : value.Belongs realm size)
    (laid : plain? patterns closed values value = some overlay) :
    overlay.Belongs realm size := by
  unfold plain? at laid
  split at laid
  · split at laid
    · cases laid
      exact ⟨singles_belong belong, nofun, nofun, nofun⟩
    · cases laid
  · split at laid
    · cases laid
    · cases laid
      refine ⟨singles_belong (belong.of_subset (List.take_subset _ _)), nofun, ?_, nofun⟩
      rintro items ending ⟨rfl, rfl⟩
      exact ⟨belong.of_subset (List.drop_subset _ _), endingBelongs⟩

/-- Repeated items are assigned a stretch of the values. -/
private theorem repeating?_belongs
    {patterns : List Form}
    {index : Nat}
    {overlay : Overlay}
    (belong : AllBelong realm size values)
    (laid : repeating? patterns index values = some overlay) :
    overlay.Belongs realm size := by
  have taken (count : Nat) : AllBelong realm size (values.take count) :=
    belong.of_subset (List.take_subset _ _)
  have dropped (count : Nat) : AllBelong realm size (values.drop count) :=
    belong.of_subset (List.drop_subset _ _)
  unfold repeating? at laid
  dsimp only at laid
  split at laid
  · split at laid
    · cases laid
      refine ⟨nofun, nofun, nofun, ?_⟩
      rintro forms ⟨rfl⟩
      exact belong
    · cases laid
  · split at laid
    · cases laid
    · cases laid
      refine ⟨fun assignment member => ?_, fun assignment member => ?_, nofun, nofun⟩
      · rcases List.mem_append.mp member with first | last
        · rcases List.mem_append.mp first with first | between
          · exact singles_belong (taken _) assignment first
          · simp only [List.mem_cons, List.not_mem_nil, or_false, or_self] at between
            subst between
            trivial
        · exact singles_belong (dropped _) assignment last
      · rcases List.mem_append.mp member with skipped | isRepeated
        · obtain rfl := List.eq_of_mem_replicate skipped
          trivial
        · obtain rfl := List.mem_singleton.mp isRepeated
          exact (dropped _).of_subset (List.take_subset _ _)

/-- However a pattern is laid over a list, it is laid over values of the realm. -/
theorem of?_belongs
    {patterns : List Form}
    {closed : Bool}
    {overlay : Overlay}
    (belong : AllBelong realm size values)
    (endingBelongs : value.Belongs realm size)
    (laid : of? patterns closed values value = some overlay) :
    overlay.Belongs realm size := by
  unfold of? at laid
  split at laid
  · exact plain?_belongs belong endingBelongs laid
  · split at laid
    · exact repeating?_belongs belong laid
    · cases laid

end Overlay

namespace Form

variable
  {store : Store}
  {literals : List String}

/-- A part of the matching goes from captures within the realm to captures within it. -/
private abbrev Preserves
    (realm : Realm)
    (size : Sizes)
    (matching : Captures → Option Captures) : Prop :=
  ∀ captures result : Captures,
    captures.Belong realm size →
    matching captures = some result →
    result.Belong realm size

/-- What is captured by the parts of an overlay belongs to the realm. -/
private theorem matchOverlay_belong
    {matchAssigned : List Assignment → Captures → Option Captures}
    {matchTail : List Value → Value → Captures → Option Captures}
    {overlay : Overlay}
    (laid : overlay.Belongs realm size)
    (assigned :
      ∀ {assignments : List Assignment},
        (∀ assignment ∈ assignments, assignment.Belongs realm size) →
        Preserves realm size (matchAssigned assignments))
    (tails :
      ∀ {items : List Value} {ending : Value},
        AllBelong realm size items →
        ending.Belongs realm size →
        Preserves realm size (matchTail items ending)) :
    Preserves realm size (matchOverlay matchAssigned matchTail overlay) := by
  intro captures result belong matched
  unfold matchOverlay at matched
  split at matched
  case h_1 forms isGroup =>
    cases matched
    refine .cons ?_ belong
    refine Capture.eachBelongs_iff.mpr fun capture member => ?_
    obtain ⟨form, isForm, rfl⟩ := List.mem_map.mp member
    exact laid.group forms isGroup form isForm
  case h_2 =>
    obtain ⟨first, matchedSingles, matched⟩ := Option.bind_eq_some_iff.mp matched
    have firstBelong := assigned laid.singles _ _ belong matchedSingles
    dsimp only at matched
    split at matched
    case h_1 => exact assigned laid.repetition _ _ firstBelong matched
    case h_2 items ending isRemainder =>
      obtain ⟨itemsBelong, endingBelongs⟩ := laid.remainder items ending isRemainder
      obtain ⟨second, matchedTail, matched⟩ := Option.bind_eq_some_iff.mp matched
      have secondBelong := tails itemsBelong endingBelongs _ _ firstBelong matchedTail
      exact assigned laid.repetition _ _ secondBelong matched

/-- What is left of a list for a pattern behind a dot belongs to the realm. -/
private theorem matchRemainder_belong
    {matching : Value → Captures → Option Captures}
    {pattern : Form}
    (matchesEnding :
      ∀ {ending : Value},
        ending.Belongs realm size →
        Preserves realm size (matching ending))
    (belong : AllBelong realm size values)
    (endingBelongs : value.Belongs realm size) :
    Preserves realm size (matchRemainder matching literals pattern values value) := by
  intro captures result capturesBelong matched
  unfold matchRemainder at matched
  split at matched
  · exact matchesEnding endingBelongs _ _ capturesBelong matched
  · split at matched
    · cases matched
    · split at matched
      · cases matched
        exact capturesBelong
      · split at matched
        · cases matched
        · cases matched
          exact .cons ⟨belong, endingBelongs⟩ capturesBelong

/-- Captures of a repetition are collected name by name. -/
private theorem collectRepetitions_belong
    {repeated : List String}
    {repetitions : List Captures}
    {captures : Captures}
    (each : ∀ repetition ∈ repetitions, Captures.Belong realm size repetition)
    (belong : captures.Belong realm size) :
    (collectRepetitions repeated repetitions captures).Belong realm size := by
  unfold collectRepetitions
  induction repeated generalizing captures with
  | nil => exact belong
  | cons name rest inductionHypothesis =>
      refine inductionHypothesis (.cons ?_ belong)
      refine Capture.eachBelongs_iff.mpr fun capture member => ?_
      obtain ⟨repetition, isRepetition, rfl⟩ := List.mem_map.mp member
      unfold repetitionCapture
      cases found : repetition.lookup name with
      | none => exact trivial
      | some inner => exact (each repetition isRepetition).lookup found

/-- What holds of every answer holds of the answers together. -/
private theorem forall_mem_of_mapM
    {First Second : Type}
    {fine : Second → Prop}
    {action : First → Option Second}
    {items : List First}
    {answers : List Second}
    (ran : items.mapM action = some answers)
    (isFine : ∀ item ∈ items, ∀ answer, action item = some answer → fine answer) :
    ∀ answer ∈ answers, fine answer := by
  have all := mapM_eq_some_iff.mp ran
  clear ran
  induction all with
  | nil => exact nofun
  | cons here _ inductionHypothesis =>
      obtain ⟨fineHere, fineRest⟩ := List.forall_mem_cons.mp isFine
      exact List.forall_mem_cons.mpr ⟨fineHere _ here, inductionHypothesis fineRest⟩

/-- Items and ending of a list of the realm belong to it. -/
private theorem listParts?_belong
    (holds : store.Holds realm size)
    {ending : Value}
    (belongs : value.Belongs realm size)
    (parts : listParts? store value = some (values, ending)) :
    AllBelong realm size values ∧ ending.Belongs realm size := by
  unfold listParts? at parts
  split at parts
  · have chained := holds.chain belongs
    rw [Option.some.inj parts] at chained
    exact chained
  · cases parts
    exact ⟨.nil, trivial⟩
  · cases parts

mutual

/-- What a match captures belongs to the realm if the matched form does. -/
theorem matchForm_belong
    (holds : store.Holds realm size)
    (pattern : Form)
    {form : Value}
    (belongs : form.Belongs realm size) :
    Preserves realm size (matchForm store literals pattern form) :=
  match pattern with
  | .identifier name _ => by
      intro captures result belong matched
      unfold matchForm at matched
      split at matched
      · cases matched
        exact belong
      · split at matched
        · split at matched <;> cases matched
          exact belong
        · cases matched
          exact .cons belongs belong
  | .list patterns tail _ => by
      intro captures result belong matched
      unfold matchForm at matched
      simp only [Option.bind_eq_bind, Option.bind_eq_some_iff] at matched
      obtain ⟨⟨forms, ending⟩, parts, overlay, laid, matched⟩ := matched
      obtain ⟨formsBelong, endingBelongs⟩ := listParts?_belong holds belongs parts
      refine matchOverlay_belong (Overlay.of?_belongs formsBelong endingBelongs laid)
        (fun assigned => matchAssigned_belong holds patterns assigned) ?_ _ _ belong matched
      exact matchRemainder_belong fun belongs => matchForm_belong holds tail belongs
  | .vector patterns _ => by
      intro captures result belong matched
      unfold matchForm at matched
      split at matched
      · simp only [Option.bind_eq_bind, Option.bind_eq_some_iff] at matched
        obtain ⟨overlay, laid, matched⟩ := matched
        have nilBelongs : Value.nil.Belongs realm size := trivial
        refine matchOverlay_belong (Overlay.of?_belongs (holds.vectorAt belongs) nilBelongs laid)
          (fun assigned => matchAssigned_belong holds patterns assigned) ?_ _ _ belong matched
        intro items ending _ _ captures result _ impossible
        cases impossible
      · cases matched
  | .atom _ => by
      intro captures result belong matched
      unfold matchForm at matched
      split at matched <;> cases matched
      exact belong
  | .marked _ _ _ => by
      intro captures result belong matched
      unfold matchForm at matched
      split at matched <;> cases matched
      exact belong

/-- Items are matched by the patterns that they are assigned to. -/
theorem matchAssigned_belong
    (holds : store.Holds realm size)
    (patterns : List Form)
    {assignments : List Assignment}
    (assigned : ∀ assignment ∈ assignments, assignment.Belongs realm size) :
    Preserves realm size (matchAssigned store literals patterns assignments) :=
  match patterns, assignments, assigned with
  | [], _, _ => by
      intro captures result belong matched
      unfold matchAssigned at matched
      cases matched
      exact belong
  | _ :: _, [], _ => by
      intro captures result belong matched
      unfold matchAssigned at matched
      cases matched
      exact belong
  | pattern :: patterns, assignment :: assignments, assigned => by
      intro captures result belong matched
      obtain ⟨first, others⟩ := List.forall_mem_cons.mp assigned
      unfold matchAssigned at matched
      split at matched
      · exact matchAssigned_belong holds patterns others _ _ belong matched
      · simp only [Option.bind_eq_bind, Option.bind_eq_some_iff] at matched
        obtain ⟨between, matchedFirst, matchedRest⟩ := matched
        have betweenBelong := matchForm_belong holds pattern first _ _ belong matchedFirst
        exact matchAssigned_belong holds patterns others _ _ betweenBelong matchedRest
      · simp only [Option.bind_eq_bind, Option.bind_eq_some_iff] at matched
        obtain ⟨repetitions, matchedAll, matchedRest⟩ := matched
        refine matchAssigned_belong holds patterns others _ _ ?_ matchedRest
        refine collectRepetitions_belong ?_ belong
        refine forall_mem_of_mapM matchedAll fun form isForm repetition matchedForm => ?_
        exact matchForm_belong holds pattern (first form isForm) _ _ .nil matchedForm

end

end Form

end SmallScheme
