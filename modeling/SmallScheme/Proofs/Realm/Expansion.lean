import SmallScheme.Proofs.Realm.Filling
import SmallScheme.Proofs.Realm.Widening
import SmallScheme.Proofs.RelatedLists
import SmallScheme.Proofs.Transformer.Binders
import SmallScheme.Proofs.Transformer.Captured
import SmallScheme.Proofs.Transformer.Copy
import SmallScheme.Proofs.Transformer.Filling

namespace SmallScheme

/-!
# Expansions of closed templates

A closed template consists of constants, quoted data, identifiers that the scope of the macro binds,
and lists of such parts.  Filled, it is code made of fresh pairs, and these can be set apart.
-/

/-- The operators that quote in the store; nothing is known of any other ones. -/
def Store.quoting (store : Store) : Operators where
  quotes head :=
    ∃ (name : String) (home : Scope),
      head = .scoped name home ∧ store.lookup? home name = some (.special .quotation)
  allows _ _ := False

theorem Store.quoting_congr
    {before after : Store}
    (frames : after.frames = before.frames) :
    after.quoting = before.quoting := by
  unfold quoting
  simp only [Store.lookup?_congr frames]

/-- The filling of a template of a transformer in a store, after a match of the pattern. -/
structure Filling where
  transformer : Transformer
  store : Store
  pattern : Form
  template : Form
  captures : Captures

/-- What a use of the transformer comes down to: the first of the rules that matches is filled. -/
def Transformer.filling?
    (transformer : Transformer)
    (store : Store)
    (operands : Value) : List Rule → Option Filling
  | [] => none
  | rule :: rest =>
      match (store.form rule.pattern).matchForm store transformer.literals operands [] with
      | some captures =>
          let (settled, after) := captures.settle store
          some ⟨transformer, after, store.form rule.pattern, after.form rule.template, settled⟩
      | none => filling? transformer store operands rest

/-- What a use of the transformer at the address comes down to. -/
def Store.filling? (store : Store) (address : Nat) (operands : Value) : Option Filling :=
  let transformer := store.transformers[address]?.getD default
  transformer.filling? store operands transformer.rules

namespace Filling

/-- The name is no variable of the pattern, and no ellipsis. -/
structure Keeps (filling : Filling) (name : String) : Prop where
  noVariable : name ∉ filling.pattern.occurrences filling.transformer.literals
  ordinary : name ≠ Capture.ellipsis

/--
The identifier of the template brings along a scope that binds the name: the scope of the macro,
unless the template binds the name itself, or one that the identifier has had before.
-/
inductive Refers (filling : Filling) : Form → String → Scope → Prop
  | introduced {name : String} {value : Value} :
      (∀ (own : String) (home : Scope), value = .scoped own home → False) →
      filling.Keeps name →
      ¬filling.template.BindsInLists name →
      filling.store.isBound filling.transformer.home name →
      Refers filling (.identifier name value) name filling.transformer.home
  | brought {name own : String} {home : Scope} :
      filling.Keeps name →
      filling.store.isBound home own →
      Refers filling (.identifier name (.scoped own home)) own home

/--
The part of the template has no variables, ellipses or binders outside of quoted data.  Its lists
are quotations or apply what stands at their heads.
-/
inductive Closes (filling : Filling) : Form → Prop
  | constant {value : Value} :
      value.IsConstant →
      Closes filling (.atom value)
  | identifier {form : Form} {name : String} {home : Scope} :
      filling.Refers form name home →
      Closes filling form
  | quoted (inner : Form) (whole : Value) :
      Closes filling (.marked .quote inner whole)
  | quotation {head : Form} {data : List Form} {name : String} {home : Scope} {whole : Value} :
      filling.Refers head name home →
      filling.store.lookup? home name = some (.special .quotation) →
      Form.NoEllipsis data →
      Closes filling (.list (head :: data) (.atom .nil) whole)
  | application {head : Form} {operands : List Form} {whole : Value} :
      Closes filling head →
      (∀ (name : String) (home : Scope),
        filling.Refers head name home →
        filling.store.lookup? home name ≠ some (.special .quotation)) →
      (∀ operand ∈ operands, Closes filling operand) →
      Closes filling (.list (head :: operands) (.atom .nil) whole)

variable
  {filling : Filling}
  {form : Form}
  {name : String}
  {home : Scope}

theorem Refers.plain
    (refers : filling.Refers form name home) :
    ¬form.isNamed Capture.ellipsis := by
  cases refers with
  | introduced _ keeps _ _ => simpa [Form.isNamed, Form.identifier?] using keeps.ordinary
  | brought keeps _ => simpa [Form.isNamed, Form.identifier?] using keeps.ordinary

theorem Closes.plain
    (closes : filling.Closes form) :
    ¬form.isNamed Capture.ellipsis := by
  cases closes with
  | identifier refers => exact refers.plain
  | _ => simp [Form.isNamed, Form.identifier?]

theorem Refers.bound
    (refers : filling.Refers form name home) :
    (filling.store.lookup? home name).isSome := by
  cases refers with
  | introduced _ _ _ known => exact known
  | brought _ known => exact known

/-- How the template is filled as long as the scope of the macro is still there. -/
def setting (filling : Filling) : TemplateSetting :=
  ⟨filling.transformer.literals, some filling.transformer.home, filling.template.binders []⟩

/-- The template is being filled, with pairs set apart that are not among what is captured. -/
structure Begins
    (filling : Filling)
    (apart : Apart)
    (before : Store) : Prop where
  holds : before.HoldsAround apart filling.store
  uncaptured : ∀ {name : String}, filling.Keeps name → filling.captures.lookup name = none
  captures : filling.captures.Belong (.around apart filling.store) before.sizes

/-- The copy is code, and an identifier only if it is the one that the part of the template is. -/
structure CodedAs
    (filling : Filling)
    (form : Form)
    (apart : Apart)
    (size : Sizes)
    (copy : Value) : Prop where
  coded : Coded (.around apart filling.store) filling.store.quoting size copy
  refers :
    ∀ {name : String} {home : Scope},
      copy = .scoped name home → filling.Refers form name home

/-- Wherever the part of the template is filled, its copy is code. -/
def Fills (filling : Filling) (form : Form) : Prop :=
  ∀ (apart : Apart) (before : Store),
    filling.Begins apart before →
    form.Belongs (.around apart filling.store) before.sizes →
    StoreM.SetsApart filling.store (filling.CodedAs form) apart before
      (form.fill filling.setting filling.captures)

variable
  {apart further : Apart}
  {before between : Store}
  {size later : Sizes}
  {copy : Value}

theorem Begins.carry
    (begins : filling.Begins apart before)
    (widens : Widens before.sizes apart further)
    (grown : before.sizes ≤ between.sizes)
    (holds : between.HoldsAround further filling.store) :
    filling.Begins further between where
  holds := holds
  uncaptured := begins.uncaptured
  captures entry member := (begins.captures entry member).imp (·.carry widens grown)

theorem CodedAs.carry
    (codedAs : filling.CodedAs form apart size copy)
    (widens : Widens size apart further)
    (grown : size ≤ later) :
    filling.CodedAs form further later copy where
  coded := (codedAs.coded.widen widens).mono grown
  refers := codedAs.refers

/-- An identifier that refers to a scope is code. -/
theorem Refers.coded
    (refers : filling.Refers form name home) :
    Coded (.around apart filling.store) filling.store.quoting size (.scoped name home) := by
  obtain ⟨frame, inHome, bound⟩ := Store.isSome_lookupIn_iff.mp refers.bound
  exact .identifier inHome bound

/-- The identifier is filled as a scoped one. -/
theorem Refers.setsApart
    (refers : filling.Refers form name home)
    (begins : filling.Begins apart before) :
    StoreM.SetsApart filling.store (fun _ _ copy => copy = .scoped name home) apart before
      (form.fill filling.setting filling.captures) := by
  cases refers with
  | @introduced _ value noScoped keeps unbound known =>
      have notLocal : ¬filling.setting.locals.contains name := by
        rw [List.contains_iff_mem]
        change name ∉ filling.template.binders []
        rw [Form.mem_binders]
        exact fun binds => binds.elim List.not_mem_nil unbound
      unfold Form.fill
      rw [begins.uncaptured keeps]
      refine .view begins.holds ?_
      rw [filling.setting.freeIdentifier_congr begins.holds.frames,
        filling.setting.freeIdentifier_plain _ _ noScoped, if_neg notLocal, setting,
        TemplateSetting.boundAtHome?_eq_some known]
  | brought keeps _ =>
      unfold Form.fill
      rw [begins.uncaptured keeps]
      exact .view begins.holds rfl

/-- The items of a list are filled one after the other. -/
theorem fillItems_setsApart
    {items : List Form}
    (fills : ∀ item ∈ items, filling.Fills item)
    (plain : Form.NoEllipsis items)
    (begins : filling.Begins apart before)
    (belong : Form.EachBelongs (.around apart filling.store) before.sizes items) :
    StoreM.SetsApart filling.store
      (fun further size copies =>
        List.Forall₂ (fun item copy => filling.CodedAs item further size copy) items copies)
      apart before (Form.fillItems filling.setting items filling.captures) := by
  induction items generalizing apart before with
  | nil => exact .pure begins.holds .nil
  | cons item rest inductionHypothesis =>
      obtain ⟨fillsItem, fillsRest⟩ := List.forall_mem_cons.mp fills
      obtain ⟨plainItem, plainRest⟩ := List.forall_mem_cons.mp plain
      obtain ⟨itemBelongs, restBelong⟩ := belong
      rw [Form.fillItems_cons plainItem (Form.NoEllipsis.head plainRest)]
      refine (fillsItem apart before begins itemBelongs).bind fun widens grown holds codedAs => ?_
      have beginsRest := begins.carry widens grown holds
      have restLater := restBelong.imp (·.carry widens grown)
      refine (inductionHypothesis fillsRest plainRest beginsRest restLater).bind
        fun more grownRest holdsRest codedRest => ?_
      exact .pure holdsRest (.cons (codedAs.carry more grownRest) codedRest)

/-- The pairs of a list are set apart when its items have been filled. -/
private theorem fill_list_setsApart
    {items : List Form}
    {whole : Value}
    {fine : Apart → Sizes → List Value → Prop}
    {fineList : Apart → Sizes → Value → Prop}
    (sets :
      StoreM.SetsApart filling.store fine apart before
        (Form.fillItems filling.setting items filling.captures))
    (makes :
      ∀ {between further : Apart} {size later : Sizes} {copies : List Value}
        {copy : Value},
        fine between size copies →
        Widens size between further →
        size ≤ later →
        (Realm.around further filling.store).Spells copy copies →
        fineList further later copy) :
    StoreM.SetsApart filling.store fineList apart before
      (Form.fill filling.setting (.list items (.atom .nil) whole) filling.captures) := by
  unfold Form.fill
  refine sets.bind fun {_ between copies} _ _ holds isFine => ?_
  intro copy after filled
  cases filled
  obtain ⟨further, widens, grown, holdsAfter, spells⟩ :=
    @Store.HoldsAround.newListFrom _ _ _ copies.reverse [] .nil holds .nil
  rw [List.reverse_reverse, List.append_nil] at spells
  exact ⟨further, widens, grown, holdsAfter, makes isFine widens grown spells⟩

/-- The copy of an application is one of the copies of its parts. -/
private theorem fills_application
    {head : Form}
    {operands : List Form}
    {whole : Value}
    (applies :
      ∀ (name : String) (home : Scope),
        filling.Refers head name home →
        filling.store.lookup? home name ≠ some (.special .quotation))
    (fills : ∀ item ∈ head :: operands, filling.Fills item)
    (plain : Form.NoEllipsis (head :: operands)) :
    filling.Fills (.list (head :: operands) (.atom .nil) whole) := by
  intro apart before begins belongs
  refine fill_list_setsApart (fillItems_setsApart fills plain begins belongs.1) ?_
  intro between further size later copies copy codedAs widens grown spells
  obtain _ | ⟨headCoded, operandsCoded⟩ := codedAs
  obtain _ | ⟨isApart, spells⟩ := spells
  have headLater := headCoded.carry widens grown
  have operandsLater :=
    forall_mem_right_of_forall₂ operandsCoded fun codedAs => (codedAs.carry widens grown).coded
  refine ⟨.application (.pair isApart spells) ?_ headLater.coded operandsLater fun _ => False.elim,
    nofun⟩
  rintro ⟨name, home, rfl, quotes⟩
  exact applies name home (headCoded.refers rfl) quotes

/-- The copy of a quotation has its datum from the realm. -/
private theorem fills_quotation
    {head : Form}
    {data : List Form}
    {whole : Value}
    (refers : filling.Refers head name home)
    (quotes : filling.store.lookup? home name = some (.special .quotation))
    (plain : Form.NoEllipsis data) :
    filling.Fills (.list (head :: data) (.atom .nil) whole) := by
  intro apart before begins belongs
  have items :
      StoreM.SetsApart filling.store
        (fun further size copies =>
          ∃ data,
            copies = .scoped name home :: data ∧
              AllBelong (.around further filling.store) size data)
        apart before
        (Form.fillItems filling.setting (head :: data) filling.captures) := by
    rw [Form.fillItems_cons refers.plain (Form.NoEllipsis.head plain)]
    refine (refers.setsApart begins).bind fun {further between _} widens grown holds same => ?_
    subst same
    have beginsData := begins.carry widens grown holds
    have stays :
        StoreM.Stays (.around further filling.store) (AllBelong (.around further filling.store))
          between.sizes (Form.fillItems filling.setting data filling.captures) :=
      Form.stays_fillItems data (belongs.1.2.imp (·.carry widens grown)) beginsData.captures
    refine (StoreM.SetsApart.of_stays holds stays fun filledData =>
      (Form.fillItems_copied holds.frames filledData).1.frames).bind
        fun _ _ holdsAfter fine => .pure holdsAfter ⟨_, rfl, ?_⟩
    obtain ⟨rfl, belong⟩ := fine
    exact belong
  refine fill_list_setsApart items ?_
  rintro between further size later _ copy ⟨data, rfl, belong⟩ widens grown spells
  obtain _ | ⟨isApart, spells⟩ := spells
  refine ⟨.quotation (.pair isApart spells) ⟨name, home, rfl, quotes⟩ refers.coded ?_
    fun _ => False.elim, nofun⟩
  exact fun datum member => (belong datum member).carry widens grown

/-- What a closed part of the template is filled to is code of fresh pairs. -/
theorem Closes.fills
    (closes : filling.Closes form) :
    filling.Fills form := by
  induction closes with
  | constant isConstant =>
      intro apart before begins _
      refine .pure begins.holds ⟨.constant isConstant, ?_⟩
      rintro name home rfl
      exact isConstant.elim
  | identifier refers =>
      intro apart before begins _ copy after filled
      obtain ⟨further, widens, grown, holds, rfl⟩ := refers.setsApart begins copy after filled
      refine ⟨further, widens, grown, holds, refers.coded, ?_⟩
      rintro _ _ ⟨⟩
      exact refers
  | quoted inner whole =>
      intro apart before begins belongs copy after filled
      have stays :
          StoreM.Stays (.around apart filling.store) (Value.Belongs (.around apart filling.store))
            before.sizes
            (Form.fill filling.setting (.marked .quote inner whole) filling.captures) :=
        Form.stays_fill (.marked .quote inner whole) belongs begins.captures
      have sets :=
        StoreM.SetsApart.of_stays begins.holds stays fun filled =>
          (Form.fill_copied begins.holds.frames filled).1.frames
      obtain ⟨further, widens, grown, holds, _⟩ := sets copy after filled
      obtain ⟨address, _, rfl, _⟩ := (Form.fill_copied begins.holds.frames filled).2
      exact ⟨further, widens, grown, holds, .quoted address, nofun⟩
  | quotation refers quotes plain => exact fills_quotation refers quotes plain
  | application headCloses applies operandsClose headFills operandsFill =>
      refine fills_application applies (List.forall_mem_cons.mpr ⟨headFills, operandsFill⟩) ?_
      exact List.forall_mem_cons.mpr
        ⟨headCloses.plain, fun operand member => (operandsClose operand member).plain⟩

end Filling

/-! Uses of transformers. -/

variable
  {filling : Filling}
  {store after : Store}
  {operands expansion : Value}

namespace Transformer

variable
  {transformer : Transformer}
  {rules : List Rule}

private theorem expandBy_of_filling?
    (chosen : transformer.filling? store operands rules = some filling) :
    transformer.expandBy true operands rules store =
      filling.template.fill filling.setting filling.captures filling.store := by
  induction rules with
  | nil => cases chosen
  | cons rule rest inductionHypothesis =>
      unfold filling? at chosen
      unfold expandBy
      rw [StoreM.view_bind]
      split at chosen
      case h_1 captures matched =>
        cases chosen
        rw [matched]
        rfl
      case h_2 unmatched =>
        rw [unmatched]
        exact inductionHypothesis chosen

/-- What is to be filled belongs to the realm of all pairs that there are. -/
private theorem begins_of_filling?
    (holds : store.Holds (.present store) store.sizes)
    (rulesBelong : ∀ rule ∈ rules, rule.Belongs (.present store) store.sizes)
    (given : operands.Belongs (.present store) store.sizes)
    (chosen : transformer.filling? store operands rules = some filling) :
    filling.store.frames = store.frames ∧
      store.sizes ≤ filling.store.sizes ∧
        filling.Begins .nothing filling.store ∧
          filling.template.Belongs (.around .nothing filling.store)
            filling.store.sizes := by
  induction rules with
  | nil => cases chosen
  | cons rule rest inductionHypothesis =>
      obtain ⟨ruleBelongs, restBelong⟩ := List.forall_mem_cons.mp rulesBelong
      unfold filling? at chosen
      split at chosen
      case h_1 captures matched =>
        cases chosen
        have belong := Form.matchForm_belong holds _ given _ _ .nil matched
        obtain ⟨follows, settled⟩ := Store.makes_settleCaptures belong store ⟨le_refl _, holds⟩
        have frames := (Captures.settle_agree captures store).1.frames
        have same := Realm.around_congr frames .nothing
        refine ⟨frames, follows.grown, ⟨⟨rfl, ?_⟩, ?_, ?_⟩, ?_⟩
        · dsimp only
          rw [same]
          exact follows.holds
        · intro name keeps
          have uncaptured := Form.lookup_eq_none_of_matchForm matched keeps.noVariable
            keeps.ordinary
          exact Captures.lookup_settle_eq_none store uncaptured
        · dsimp only
          rw [same]
          exact settled
        · dsimp only
          rw [same]
          exact follows.holds.form (ruleBelongs.2.mono follows.grown)
      case h_2 => exact inductionHypothesis restBelong chosen

end Transformer

/-- Where the template of a use is closed, the expansion is code, of pairs that are set apart. -/
theorem Store.expandUse_coded
    {address : Nat}
    (holds : store.Holds (.present store) store.sizes)
    (given : operands.Belongs (.present store) store.sizes)
    (chosen : store.filling? address operands = some filling)
    (closes : filling.Closes filling.template)
    (expanded : Store.expandUse true address operands store = (.ok expansion, after)) :
    ∃ apart : Apart,
      Widens store.sizes .nothing apart ∧
        store.sizes ≤ after.sizes ∧
          after.Holds (.around apart after) after.sizes ∧
            Coded (.around apart after) after.quoting after.sizes expansion := by
  obtain ⟨frames, settled, begins, belongs⟩ :=
    Transformer.begins_of_filling? holds (holds.transformerAt address) given chosen
  unfold Store.expandUse Store.transformerAt at expanded
  rw [StoreM.view_bind, Transformer.expandBy_of_filling? chosen] at expanded
  obtain ⟨apart, widens, grown, holdsAfter, codedAs⟩ :=
    closes.fills _ _ begins belongs expansion after expanded
  have wholeWidens : Widens store.sizes .nothing apart := Widens.refl.trans widens settled
  refine ⟨apart, wholeWidens, le_trans settled grown, ?_, ?_⟩
  · rw [Realm.around_congr holdsAfter.frames]
    exact holdsAfter.holds
  · rw [Realm.around_congr holdsAfter.frames, Store.quoting_congr holdsAfter.frames]
    exact codedAs.coded

end SmallScheme
