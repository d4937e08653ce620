import SmallScheme.Transformer.Template

namespace SmallScheme

/-!
# Names that a template binds

Which names the lists of a template bind, said without the order in which they are found, and that
exactly these names are collected.  Lists inside vectors and marked forms are not looked at.
-/

namespace Form

/-- The name is one of the parameters. -/
def HasFormal (name : String) (formals : Form) : Prop :=
  formals.isNamed name ∨
    ∃ items tail value,
      formals = .list items tail value ∧
        ((∃ item ∈ items, item.isNamed name) ∨ tail.isNamed name)

/-- The binding of a block is one of the name, with or without a form for its value. -/
def BindsName (name : String) (binding : Form) : Prop :=
  binding.isNamed name ∨
    ∃ target rest tail value,
      binding = .list (target :: rest) tail value ∧ target.isNamed name

/-- One of the bindings of a block is one of the name. -/
def HasBinding (name : String) (bindings : Form) : Prop :=
  ∃ items tail value,
    bindings = .list items tail value ∧ ∃ binding ∈ items, binding.BindsName name

/-- The keywords that stand before a parameter form. -/
def procedureKeywords : List String :=
  ["lambda", "define"]

/-- The keywords of blocks with bindings. -/
def blockKeywords : List String :=
  ["let", "let*", "letrec", "letrec*"]

/-- A list of these items binds the name by its own keyword. -/
inductive BindsItself (name : String) : List Form → Prop
  | procedure {keyword : String} {head formals : Form} {rest : List Form} :
      keyword ∈ procedureKeywords →
      head.isNamed keyword →
      formals.HasFormal name →
      BindsItself name (head :: formals :: rest)
  | block {keyword : String} {head bindings : Form} {rest : List Form} :
      keyword ∈ blockKeywords →
      head.isNamed keyword →
      bindings.HasBinding name →
      BindsItself name (head :: bindings :: rest)
  | loop {keyword : String} {head target : Form} {rest : List Form} :
      keyword ∈ blockKeywords →
      head.isNamed keyword →
      target.isNamed name →
      BindsItself name (head :: target :: rest)
  | namedBlock {keyword own : String} {head target bindings : Form} {rest : List Form} :
      keyword ∈ blockKeywords →
      head.isNamed keyword →
      target.isNamed own →
      bindings.HasBinding name →
      BindsItself name (head :: target :: bindings :: rest)

/-- Some list of the template that is reached through lists alone binds the name. -/
inductive BindsInLists (name : String) : Form → Prop
  | here {items : List Form} {tail : Form} {value : Value} :
      BindsItself name items → BindsInLists name (.list items tail value)
  | item {items : List Form} {tail : Form} {value : Value} {item : Form} :
      item ∈ items → BindsInLists name item → BindsInLists name (.list items tail value)
  | tail {items : List Form} {tail : Form} {value : Value} :
      BindsInLists name tail → BindsInLists name (.list items tail value)

variable {name : String}

theorem isNamed_iff
    {form : Form} :
    form.isNamed name ↔ form.identifier? = some name :=
  decide_eq_true_iff

theorem not_hasBinding_of_isNamed
    (name : String)
    {own : String}
    {form : Form}
    (named : form.isNamed own) :
    ¬form.HasBinding name := by
  rintro ⟨_, _, _, rfl, _⟩
  cases isNamed_iff.mp named

/-! What is collected are the names found before and the names that are bound. -/

theorem mem_addBinder
    (found : List String)
    (form : Form) :
    name ∈ addBinder found form ↔ name ∈ found ∨ form.isNamed name := by
  rw [isNamed_iff]
  unfold addBinder
  split
  case h_1 own identified =>
    rw [identified]
    split
    case isTrue present =>
      rw [List.contains_iff_mem] at present
      constructor
      · exact .inl
      · rintro (member | same)
        · exact member
        · cases same
          exact present
    case isFalse => simp [eq_comm]
  case h_2 anonymous =>
    simp [anonymous]

theorem mem_foldl
    {add : List String → Form → List String}
    {adds : Form → Prop}
    (step : ∀ found form, name ∈ add found form ↔ name ∈ found ∨ adds form)
    (items : List Form)
    (found : List String) :
    name ∈ items.foldl add found ↔ name ∈ found ∨ ∃ item ∈ items, adds item := by
  induction items generalizing found with
  | nil => simp
  | cons item rest inductionHypothesis =>
      rw [List.foldl_cons, inductionHypothesis, step, or_assoc]
      simp

theorem mem_addFormals
    (found : List String)
    (formals : Form) :
    name ∈ addFormals found formals ↔ name ∈ found ∨ formals.HasFormal name := by
  unfold addFormals HasFormal
  split
  case h_1 items tail value =>
    rw [mem_addBinder, mem_foldl mem_addBinder, or_assoc]
    refine or_congr_right ⟨fun listed => .inr ⟨items, tail, value, rfl, listed⟩, ?_⟩
    rintro (same | ⟨_, _, _, same, listed⟩)
    · cases isNamed_iff.mp same
    · cases same
      exact listed
  case h_2 notList =>
    rw [mem_addBinder]
    refine or_congr_right ⟨.inl, ?_⟩
    rintro (same | ⟨_, _, _, same, _⟩)
    · exact same
    · exact (notList _ _ _ same).elim

theorem mem_addBinding
    (found : List String)
    (binding : Form) :
    name ∈ addBinding found binding ↔ name ∈ found ∨ binding.BindsName name := by
  unfold addBinding BindsName
  split
  case h_1 target rest tail value =>
    rw [mem_addBinder]
    refine or_congr_right ⟨fun same => .inr ⟨target, rest, tail, value, rfl, same⟩, ?_⟩
    rintro (same | ⟨_, _, _, _, same, named⟩)
    · cases isNamed_iff.mp same
    · cases same
      exact named
  case h_2 notList =>
    rw [mem_addBinder]
    refine or_congr_right ⟨.inl, ?_⟩
    rintro (same | ⟨_, _, _, _, same, _⟩)
    · exact same
    · exact (notList _ _ _ _ same).elim

theorem mem_addBindings
    (found : List String)
    (bindings : Form) :
    name ∈ addBindings found bindings ↔ name ∈ found ∨ bindings.HasBinding name := by
  unfold addBindings HasBinding
  split
  case h_1 items tail value =>
    rw [mem_foldl mem_addBinding]
    refine or_congr_right ⟨fun binds => ⟨items, tail, value, rfl, binds⟩, ?_⟩
    rintro ⟨_, _, _, same, binds⟩
    cases same
    exact binds
  case h_2 notList =>
    refine ⟨.inl, ?_⟩
    rintro (member | ⟨_, _, _, same, _⟩)
    · exact member
    · exact (notList _ _ _ same).elim

/-- What a list binds is told by the name of its head and its next two items. -/
theorem bindsItself_iff
    {head first : Form}
    {rest : List Form} :
    BindsItself name (head :: first :: rest) ↔
      ∃ keyword,
        head.identifier? = some keyword ∧
          (keyword ∈ procedureKeywords ∧ first.HasFormal name ∨
            keyword ∈ blockKeywords ∧
              (first.HasBinding name ∨ first.isNamed name ∨
                first.identifier?.isSome ∧
                  ∃ bindings others, rest = bindings :: others ∧ bindings.HasBinding name)) := by
  constructor
  · intro binds
    cases binds with
    | procedure isKeyword named formal =>
        exact ⟨_, isNamed_iff.mp named, .inl ⟨isKeyword, formal⟩⟩
    | block isKeyword named binding =>
        exact ⟨_, isNamed_iff.mp named, .inr ⟨isKeyword, .inl binding⟩⟩
    | loop isKeyword named target =>
        exact ⟨_, isNamed_iff.mp named, .inr ⟨isKeyword, .inr (.inl target)⟩⟩
    | namedBlock isKeyword named target binding =>
        have isSome := Option.isSome_of_eq_some (isNamed_iff.mp target)
        exact ⟨_, isNamed_iff.mp named,
          .inr ⟨isKeyword, .inr (.inr ⟨isSome, _, _, rfl, binding⟩)⟩⟩
  · rintro ⟨keyword, identified, ⟨isKeyword, formal⟩ | ⟨isKeyword, binds⟩⟩
    · exact .procedure isKeyword (isNamed_iff.mpr identified) formal
    · have named := isNamed_iff.mpr identified
      rcases binds with binding | target | ⟨isSome, bindings, others, rfl, binding⟩
      · exact .block isKeyword named binding
      · exact .loop isKeyword named target
      · obtain ⟨own, target⟩ := Option.isSome_iff_exists.mp isSome
        exact .namedBlock isKeyword named (isNamed_iff.mpr target) binding

theorem mem_addOwnBinders
    (found : List String)
    (items : List Form) :
    name ∈ addOwnBinders found items ↔ name ∈ found ∨ BindsItself name items := by
  match items with
  | [] => exact ⟨.inl, fun either => either.resolve_right nofun⟩
  | [_] => exact ⟨.inl, fun either => either.resolve_right nofun⟩
  | head :: first :: rest =>
      rw [bindsItself_iff]
      unfold addOwnBinders
      dsimp only
      split
      case h_1 identified =>
        rw [mem_addFormals, identified]
        simp [procedureKeywords, blockKeywords]
      case h_2 identified =>
        rw [mem_addFormals, identified]
        simp [procedureKeywords, blockKeywords]
      case h_3 keyword notLambda notDefine identified =>
        have notProcedure : keyword ∉ procedureKeywords := by
          simp only [procedureKeywords, List.mem_cons, List.not_mem_nil, or_false, not_or]
          exact ⟨notLambda, notDefine⟩
        simp only [identified, Option.some.injEq, exists_eq_left', notProcedure, false_and,
          false_or]
        split
        case isTrue isBlock =>
          have isBlock : keyword ∈ blockKeywords := List.contains_iff_mem.mp isBlock
          simp only [isBlock, true_and]
          split
          case h_1 own bindings others target =>
            have notBinding := not_hasBinding_of_isNamed name (isNamed_iff.mpr target)
            rw [mem_addBindings, mem_addBinder, or_assoc]
            simp [target, notBinding]
          case h_2 own target =>
            have notBinding := not_hasBinding_of_isNamed name (isNamed_iff.mpr target)
            rw [mem_addBinder]
            simp [notBinding]
          case h_3 anonymous =>
            rw [mem_addBindings]
            simp [anonymous, isNamed_iff]
        case isFalse notBlock =>
          have notBlock : keyword ∉ blockKeywords := fun isBlock =>
            notBlock (List.contains_iff_mem.mpr isBlock)
          simp [notBlock]
      case h_4 anonymous =>
        simp [anonymous]

mutual

theorem mem_binders
    (template : Form)
    (found : List String) :
    name ∈ template.binders found ↔ name ∈ found ∨ template.BindsInLists name := by
  match template with
  | .list items tail value =>
      rw [binders, mem_binders tail, mem_allBinders items, mem_addOwnBinders, or_assoc, or_assoc]
      refine or_congr_right ⟨?collected, ?bound⟩
      case collected =>
        rintro (own | ⟨item, member, binds⟩ | binds)
        · exact .here own
        · exact .item member binds
        · exact .tail binds
      case bound =>
        intro binds
        cases binds with
        | here own => exact .inl own
        | item member binds => exact .inr (.inl ⟨_, member, binds⟩)
        | tail binds => exact .inr (.inr binds)
  | .atom value => exact ⟨.inl, fun either => either.resolve_right nofun⟩
  | .identifier own value => exact ⟨.inl, fun either => either.resolve_right nofun⟩
  | .vector items value => exact ⟨.inl, fun either => either.resolve_right nofun⟩
  | .marked mark inner value => exact ⟨.inl, fun either => either.resolve_right nofun⟩

theorem mem_allBinders
    (forms : List Form)
    (found : List String) :
    name ∈ allBinders found forms ↔ name ∈ found ∨ ∃ form ∈ forms, form.BindsInLists name := by
  match forms with
  | [] => simp [allBinders]
  | form :: rest =>
      rw [allBinders, mem_allBinders rest, mem_binders form, or_assoc]
      simp

end

end Form

end SmallScheme
