import SmallScheme.Proofs.Realm.Matching

namespace SmallScheme

/-!
# Transformers within a realm

A template that belongs to the realm is filled with captures that do, so an expansion is made of
what belongs to the realm and of fresh objects.
-/

variable
  {realm : Realm}
  {size : Sizes}
  {value : Value}
  {values : List Value}

namespace Captures

variable {captures : Captures}

theorem stays_groupItems
    {each : List Capture}
    (belong : Capture.EachBelongs realm size each) :
    StoreM.Stays realm (AllBelong realm) size (groupItems each) := by
  fun_induction groupItems each with
  | case1 => exact .pure fun _ _ => .nil
  | case2 value rest inductionHypothesis =>
      obtain ⟨first, others⟩ := belong
      have firstBelongs : value.Belongs realm size := first
      refine (inductionHypothesis others).bind fun later values grown belong =>
        .pure fun last more => ?_
      exact .cons (firstBelongs.mono (le_trans grown more)) (belong.mono more)
  | case3 => exact .throw trivial

theorem stays_group
    (belong : captures.Belong realm size) :
    StoreM.Stays realm (AllBelong realm) size captures.group := by
  unfold group
  split
  case h_1 each found =>
    exact stays_groupItems (belong.lookup found)
  case h_2 => exact .throw trivial

/-- What a variable stands for in one of its repetitions belongs to the realm. -/
theorem Belong.atRepetition
    (belong : captures.Belong realm size)
    (named : List String)
    (index : Nat) :
    (captures.atRepetition (captures.repeatedVariables named) index).Belong realm size := by
  unfold Captures.atRepetition
  refine List.forall_mem_append.mpr ⟨fun entry member => ?_, belong⟩
  obtain ⟨⟨name, each⟩, isRepeated, rfl⟩ := List.mem_map.mp member
  obtain ⟨other, _, isVariable⟩ := List.mem_filterMap.mp isRepeated
  split at isVariable
  case h_1 captured found =>
    cases isVariable
    have all := Capture.eachBelongs_iff.mp (belong.lookup found)
    dsimp only
    cases present : captured.toArray[index]? with
    | none => exact trivial
    | some capture => exact all capture (by simpa using Array.mem_of_getElem? present)
  case h_2 => cases isVariable

end Captures

/-! Filling. -/

theorem StoreM.stays_mapM
    {Item Answer : Type}
    (fine : Sizes → Answer → Prop)
    (grows : ∀ {size later answer}, fine size answer → size ≤ later → fine later answer)
    {action : Item → StoreM Answer}
    {items : List Item}
    (stays : ∀ item ∈ items, ∀ later, size ≤ later → StoreM.Stays realm fine later (action item)) :
    StoreM.Stays realm (fun later answers => ∀ answer ∈ answers, fine later answer) size
      (items.mapM action) := by
  induction items generalizing size with
  | nil => exact .pure fun _ _ => nofun
  | cons item rest inductionHypothesis =>
      obtain ⟨first, others⟩ := List.forall_mem_cons.mp stays
      rw [List.mapM_cons]
      refine (first size (le_refl _)).bind fun later answer grown isFine => ?_
      have restStays :=
        inductionHypothesis fun item member last more =>
          others item member last (le_trans grown more)
      refine restStays.bind fun last answers grownRest areFine => .pure fun final more => ?_
      refine List.forall_mem_cons.mpr ⟨grows isFine (le_trans grownRest more), ?_⟩
      exact fun answer member => grows (areFine answer member) more

namespace TemplateSetting

theorem freeIdentifier_belongs
    (setting : TemplateSetting)
    {name : String}
    (belongs : value.Belongs realm size)
    (store : Store) :
    (setting.freeIdentifier name value store).Belongs realm size := by
  unfold freeIdentifier
  split
  · exact belongs
  · split
    · trivial
    · split <;> trivial

end TemplateSetting

namespace Form

variable
  {setting : TemplateSetting}
  {captures : Captures}

private theorem stays_fillRepeated
    {fill : Captures → StoreM Value}
    {item : Form}
    {literals : List String}
    (fills :
      ∀ {later captures},
        size ≤ later →
        Captures.Belong realm later captures →
        StoreM.Stays realm (Value.Belongs realm) later (fill captures))
    (belong : captures.Belong realm size) :
    StoreM.Stays realm (AllBelong realm) size (fillRepeated fill item literals captures) := by
  unfold fillRepeated
  split
  case h_1 =>
    refine (fills (le_refl _) belong).bind fun later first grown isFirst => ?_
    refine (Captures.stays_group (belong.mono grown)).bind fun last group grownGroup inGroup => ?_
    exact .pure fun final more =>
      .cons (isFirst.mono (le_trans grownGroup more)) (inGroup.mono more)
  case h_2 name each others repeated =>
    split
    · refine StoreM.stays_mapM (Value.Belongs realm) Value.Belongs.mono
        fun index _ later grown => fills grown ?_
      rw [← repeated]
      exact (belong.atRepetition _ index).mono grown
    · exact .failTelling fun _ _ => trivial

mutual

/-- A template that belongs to the realm is filled with what belongs to it. -/
theorem stays_fill
    {size : Sizes}
    {captures : Captures}
    (template : Form)
    (belongs : template.Belongs realm size)
    (belong : captures.Belong realm size) :
    StoreM.Stays realm (Value.Belongs realm) size (fill setting template captures) :=
  match template, belongs with
  | .atom _, belongs => by
      unfold fill
      exact .answer belongs
  | .identifier name value, belongs => by
      unfold fill
      split
      case h_1 captured found =>
        exact .answer (belong.lookup found)
      case h_2 => exact .throw trivial
      case h_3 =>
        refine .view fun store reaches => ?_
        exact setting.freeIdentifier_belongs (Value.Belongs.mono belongs reaches.grown) store
  | .list items tail _, ⟨itemsBelong, tailBelongs, _⟩ => by
      unfold fill
      refine (stays_fillItems items itemsBelong belong).bind fun later items grown filled => ?_
      refine (stays_fill tail (tailBelongs.mono grown) (belong.mono grown)).bind
        fun last tail grownTail filledTail => ?_
      exact .change (Store.makes_newListWithTail (filled.mono grownTail) filledTail)
  | .vector items _, ⟨itemsBelong, _⟩ => by
      unfold fill
      refine (stays_fillItems items itemsBelong belong).bind fun later items grown filled => ?_
      exact .change (Store.makes_newVector_toArray filled)
  | .marked mark inner _, ⟨innerBelongs, _⟩ => by
      unfold fill
      refine (stays_fill inner innerBelongs belong).bind fun later inner grown filled => ?_
      exact .change (Store.makes_newMarked filled)

theorem stays_fillItems
    {size : Sizes}
    {captures : Captures}
    (items : List Form)
    (itemsBelong : Form.EachBelongs realm size items)
    (belong : captures.Belong realm size) :
    StoreM.Stays realm (AllBelong realm) size (fillItems setting items captures) :=
  match items, itemsBelong with
  | [], _ => by
      unfold fillItems
      exact .pure fun _ _ => .nil
  | [item], ⟨itemBelongs, _⟩ => by
      unfold fillItems
      split
      · exact Captures.stays_group belong
      · refine (stays_fill item itemBelongs belong).bind fun later value grown filled => ?_
        exact .pure fun _ more => .cons (filled.mono more) .nil
  | item :: next :: rest, ⟨itemBelongs, othersBelong⟩ => by
      unfold fillItems
      split
      · refine (Captures.stays_group belong).bind fun later group grown inGroup => ?_
        refine (stays_fillItems (next :: rest) (Form.EachBelongs.mono othersBelong grown)
          (belong.mono grown)).bind fun last others grownOthers filled => ?_
        exact .pure fun _ more =>
          (inGroup.mono (le_trans grownOthers more)).append (filled.mono more)
      · split
        · refine (stays_fillRepeated (fun grown belong =>
            stays_fill item (itemBelongs.mono grown) belong) belong).bind
              fun later values grown filled => ?_
          refine (stays_fillItems rest (Form.EachBelongs.mono othersBelong.2 grown)
            (belong.mono grown)).bind fun last others grownOthers filledOthers => ?_
          exact .pure fun _ more =>
            (filled.mono (le_trans grownOthers more)).append (filledOthers.mono more)
        · refine (stays_fill item itemBelongs belong).bind fun later value grown filled => ?_
          refine (stays_fillItems (next :: rest) (Form.EachBelongs.mono othersBelong grown)
            (belong.mono grown)).bind fun last others grownOthers filledOthers => ?_
          exact .pure fun _ more =>
            .cons (filled.mono (le_trans grownOthers more)) (filledOthers.mono more)

end

end Form

/-! Transformers. -/

namespace Transformer

theorem stays_fillRule
    {transformer : Transformer}
    {isHeld : Bool}
    {rule : Rule}
    {captures : Captures}
    (ruleBelongs : rule.Belongs realm size)
    (belong : captures.Belong realm size) :
    StoreM.Stays realm (Value.Belongs realm) size
      (transformer.fillRule isHeld rule captures) := by
  unfold fillRule
  refine (StoreM.Stays.change (Store.makes_settleCaptures belong)).bind
    fun later captures grown belong => ?_
  have templates :
      StoreM.Stays realm (Form.Belongs realm) later
        (StoreM.view fun store => store.form rule.template) :=
    .view fun store reaches =>
      reaches.holds.form (ruleBelongs.2.mono (le_trans grown reaches.grown))
  exact templates.bind fun last template more isTemplate =>
    Form.stays_fill template isTemplate (belong.mono more)

theorem stays_expandBy
    {transformer : Transformer}
    {isHeld : Bool}
    {rules : List Rule}
    (rulesBelong : ∀ rule ∈ rules, rule.Belongs realm size)
    (belongs : value.Belongs realm size) :
    StoreM.Stays realm (Value.Belongs realm) size (transformer.expandBy isHeld value rules) := by
  induction rules generalizing size with
  | nil => exact .failTelling fun _ _ => trivial
  | cons rule rest inductionHypothesis =>
      obtain ⟨ruleBelongs, restBelong⟩ := List.forall_mem_cons.mp rulesBelong
      have matched :
          StoreM.Stays realm
            (fun later found => ∀ captures, found = some captures →
                Captures.Belong realm later captures)
            size
            (StoreM.view fun store =>
              (store.form rule.pattern).matchForm store transformer.literals value []) :=
        .view fun store reaches captures found =>
          Form.matchForm_belong reaches.holds _ (belongs.mono reaches.grown) _ _ .nil found
      refine matched.bind fun later found grown belong => ?_
      cases found with
      | some captures =>
          exact stays_fillRule (ruleBelongs.imp (·.mono grown) (·.mono grown)) (belong captures rfl)
      | none =>
          refine inductionHypothesis (fun rule member => ?_) (belongs.mono grown)
          exact (restBelong rule member).imp (·.mono grown) (·.mono grown)

private theorem stays_literalNames
    {literals : List Value} :
    StoreM.Stays realm (fun _ _ => True) size (literalNames literals) := by
  induction literals generalizing size with
  | nil => exact .pure fun _ _ => trivial
  | cons literal rest inductionHypothesis =>
      unfold literalNames
      split
      · exact .failTelling fun _ _ => trivial
      · exact inductionHypothesis.bind fun _ _ _ _ => .pure fun _ _ => trivial

private theorem stays_ruleOf
    {form : Value}
    (belongs : form.Belongs realm size) :
    StoreM.Stays realm (Rule.Belongs realm) size (ruleOf form) := by
  unfold ruleOf
  refine (Store.stays_listItems belongs).bind fun later parts grown belong => ?_
  split
  case h_1 pattern template =>
    have looked :
        StoreM.Stays realm
          (fun later found => ∀ pair, found = some pair → Pair.Belongs realm later pair) later
          (StoreM.view fun store => store.pair? pattern) :=
      .view fun store reaches pair found =>
        reaches.holds.pair? (belong.head.mono reaches.grown) found
    refine looked.bind fun last found more isPair => ?_
    cases found with
    | none => exact .failTelling fun _ _ => trivial
    | some pair =>
        refine .pure fun final most => ⟨(isPair pair rfl).2.mono most, ?_⟩
        exact belong.tail.head.mono (le_trans more most)
  case h_2 => exact .failTelling fun _ _ => trivial

theorem stays_ofOperands
    {name : String}
    {home : Scope}
    (belong : AllBelong realm size values) :
    StoreM.Stays realm (Value.Belongs realm) size (ofOperands name home values) := by
  cases values with
  | nil => exact .throw trivial
  | cons literals rules =>
      refine (Store.stays_listItems belong.head).bind fun later _ grown _ => ?_
      refine stays_literalNames.bind fun last _ more _ => ?_
      have grownRules := belong.tail.mono (le_trans grown more)
      refine (StoreM.stays_mapM (Rule.Belongs realm) ?_ fun rule member final most =>
        stays_ruleOf ?_).bind
        fun _ _ _ rulesBelong => .change (Store.makes_newTransformer rulesBelong)
      · exact fun belongs grown => belongs.imp (·.mono grown) (·.mono grown)
      · exact (grownRules rule member).mono most

end Transformer

theorem Store.stays_expandUse
    {isHeld : Bool}
    {address : Nat}
    (belongs : value.Belongs realm size) :
    StoreM.Stays realm (Value.Belongs realm) size (Store.expandUse isHeld address value) := by
  unfold Store.expandUse
  have looked :
      StoreM.Stays realm
        (fun later transformer => ∀ rule ∈ Transformer.rules transformer, rule.Belongs realm later)
        size
        (StoreM.view fun store => store.transformerAt address) :=
    .view fun store reaches => reaches.holds.transformerAt address
  exact looked.bind fun later transformer grown rulesBelong =>
    Transformer.stays_expandBy rulesBelong (belongs.mono grown)

end SmallScheme
