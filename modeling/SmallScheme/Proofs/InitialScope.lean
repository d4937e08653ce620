import SmallScheme.Proofs.Root
import SmallScheme.Proofs.Store.Binding
import SmallScheme.Proofs.TailPosition

namespace SmallScheme

/-!
# The scope of the first program

The root of a new session binds every name of a primitive or special form to what it names.  The
library is evaluated in the root: its definitions add bindings and replace none, and the frame for
the definitions of programs is left empty.
-/

variable
  {name : String}
  {value : Value}
  {store : Store}
  {scope : Scope}

namespace Store

/-- A definition makes no frame. -/
theorem size_define
    (scope : Scope)
    (name : String)
    (value : Value)
    (store : Store) :
    (Store.define scope name value store).2.frames.size = store.frames.size := by
  unfold Store.define
  split
  · rfl
  · exact Array.size_modify

/-- A definition adds a binding for a name that had none. -/
theorem find?_define
    (added : String)
    (value : Value)
    (inside : scope.frame < store.frames.size)
    (name : String) :
    ((Store.define scope added value store).2.frameAt scope.frame).find? name =
      ((store.frameAt scope.frame).find? name).or (if name = added then some value else none) := by
  unfold Store.define
  split
  case h_1 bound =>
    by_cases same : name = added
    · simp [same, bound]
    · simp [same]
  case h_2 isNew =>
    rw [frameAt_modifyFrame _ _ inside, if_pos rfl, Frame.find?, Frame.bind, List.lookup_cons]
    by_cases same : name = added
    · rw [Frame.find?] at isNew
      simp [same, Frame.find?, isNew]
    · rw [beq_false_of_ne same, if_neg same, Option.or_none]
      rfl

end Store

/-- Scopes end at the root, which binds the name to the value. -/
structure Store.RootBinds
    (name : String)
    (value : Value)
    (store : Store) : Prop where
  rooted : store.Rooted 0 none
  binds : (store.frameAt 0).find? name = some value

namespace Store.RootBinds

instance lexical : Lexical (RootBinds name value) where
  overlooks := by
    intro before after sound frames procedures
    refine ⟨Lexical.overlooks sound.rooted frames procedures, ?_⟩
    rw [frameAt, frames]
    exact sound.binds

/-- A new scope leaves the bindings of the root. -/
theorem newChild
    (sound : store.RootBinds name value)
    (scope : Scope) :
    (store.newChild scope).2.RootBinds name value := by
  refine ⟨sound.rooted.newChild scope, ?_⟩
  have different : 0 ≠ store.frames.size := Nat.ne_of_lt sound.rooted.lt_size
  simp only [Store.newChild, Store.newFrame, frameAt, Array.getElem?_push, if_neg different]
  exact sound.binds

/-- A name that is bound already is not bound again. -/
theorem define
    (sound : store.RootBinds name value)
    (other : String)
    (added : Value) :
    (Store.define scope other added store).2.RootBinds name value := by
  refine ⟨sound.rooted.define nofun other added, ?_⟩
  unfold Store.define
  split
  case h_1 => exact sound.binds
  case h_2 isNew =>
    by_cases isRoot : scope.frame = 0
    · rw [frameAt_modifyFrame _ _ sound.rooted.lt_size, if_pos isRoot]
      rw [isRoot] at isNew
      have different : name ≠ other := by
        rintro rfl
        rw [sound.binds] at isNew
        cases isNew
      rw [Frame.find?, Frame.bind, List.lookup_cons, beq_false_of_ne different]
      exact sound.binds
    · rw [frameAt_modifyFrame_other isRoot]
      exact sound.binds

/-- An assignment leaves the bindings of the root, which cannot be assigned to. -/
theorem assign
    (sound : store.RootBinds name value)
    (ends : scope.EndsAt 0)
    (other : String)
    (assigned : Value) :
    (Store.assign scope other assigned store).2.RootBinds name value := by
  refine ⟨sound.rooted.assign ends other assigned, ?_⟩
  unfold Store.assign
  split
  case h_1 => exact sound.binds
  case h_2 holder found =>
    split
    case isTrue => exact sound.binds
    case isFalse inside =>
      have different : holder.frame ≠ 0 := fun same => inside (holder_is_root ends found same)
      rw [frameAt_modifyFrame_other different]
      exact sound.binds

/-- To copy a namespace into a scope leaves the bindings of the root. -/
theorem useNamespace
    (sound : store.RootBinds name value)
    (namespaces : String) :
    (store.useNamespace scope namespaces).RootBinds name value := by
  refine ⟨sound.rooted.modifyFrame nofun _, ?_⟩
  rw [Store.useNamespace, frameAt_modifyFrame _ _ sound.rooted.lt_size]
  split
  · split <;> exact sound.binds
  · exact sound.binds

end Store.RootBinds

/-- The law of what the root binds: it stays as it is, wherever forms are evaluated. -/
def Law.rootBinds (name : String) (value : Value) : Law where
  sound := Store.RootBinds name value
  admits scope := scope.EndsAt 0
  encloses := Scope.EndsAt 0
  lexical := inferInstance
  encloses_of_admits admits := admits
  encloses_procedure sound := sound.rooted.procedures
  admits_child ends sound := ends.extended (Nat.ne_of_gt sound.rooted.lt_size)
  keeps_child _ _ sound := sound.newChild _
  keeps_procedure ends _ sound := ⟨sound.rooted.newProcedure ends, sound.binds⟩
  keeps_name address name _ sound := ⟨sound.rooted.nameProcedure address name, sound.binds⟩
  keeps_define _ name value _ sound := sound.define name value
  keeps_assign admits name value _ sound := sound.assign admits name value
  keeps_namespace _ name _ sound := sound.useNamespace name

namespace Session

variable
  {law : Law}
  {session : Session}

/-- Whatever law admits the root, evaluating the library there respects it. -/
theorem sound_loadLibrary
    (settings : Settings)
    (admits : law.admits session.root)
    (sound : law.sound session.store) :
    law.sound (session.loadLibrary settings).store := by
  unfold loadLibrary
  generalize Library.text = source
  cases loaded : session.evaluateTextInRoot { settings with host := Host.absent } source with
  | none => exact sound
  | some outcome =>
      obtain ⟨result, after⟩ := outcome
      rcases of_withProgram loaded with rfl | ⟨forms, ending, asked⟩
      · exact sound
      · obtain ⟨ending, reaches⟩ := reaches_of_ask asked
        have granted :
            law.Grants (.evaluate (session.load (.program forms)).2.root
              (session.load (.program forms)).1) :=
          admits
        have begun : law.sound (session.load (.program forms)).2.store :=
          Store.keeps_load (.program forms) session.store sound
        exact ((Moment.Respects.serving granted begun).reaching (Host.absent_respects law)
          reaches).sound

/-- A request leaves the scope of the user in its place. -/
theorem user_of_ask
    {settings : Settings}
    {request : Request}
    {result : Except Fault Value}
    {after : Session}
    (asked : session.ask settings request = some (result, after)) :
    after.user = session.user := by
  simp only [ask] at asked
  split at asked
  · cases asked
  · cases asked
    rfl

/-- What the bare session is sound for, the prepared session is sound for. -/
theorem sound_start
    (settings : Settings)
    (admits : law.admits bare.root)
    (sound : law.sound bare.store) :
    law.sound (start settings).store := by
  unfold start
  split
  · exact sound_loadLibrary settings admits sound
  · exact sound

/-- Names are registered in the order in which they come, and none of them twice. -/
theorem find?_register
    (bindings : List (String × Value))
    (present : session.root.frame < session.store.frames.size) :
    ((session.register bindings).2.store.frameAt session.root.frame).find? name =
      ((session.store.frameAt session.root.frame).find? name).or (bindings.lookup name) := by
  induction bindings generalizing session with
  | nil => exact Option.or_none.symm
  | cons binding rest inductionHypothesis =>
      obtain ⟨root, user, store, context, depth⟩ := session
      change root.frame < store.frames.size at present
      have defined := Store.find?_define binding.1 binding.2 present name
      have presentThere :
          root.frame < (Store.define root binding.1 binding.2 store).2.frames.size := by
        rw [Store.size_define]
        exact present
      refine (@inductionHypothesis
        ⟨root, user, (Store.define root binding.1 binding.2 store).2, context, depth⟩
        presentThere).trans ?_
      refine (congrArg (·.or (rest.lookup name)) defined).trans ?_
      rw [Option.or_assoc, List.lookup_cons]
      refine congrArg (Option.or _) ?_
      by_cases same : name = binding.1
      · simp [same]
      · rw [if_neg same, beq_false_of_ne same]
        rfl

/-- Registering bindings keeps what the law keeps. -/
theorem sound_register
    (admits : law.admits session.root)
    (sound : law.sound session.store)
    (bindings : List (String × Value)) :
    law.sound (session.register bindings).2.store := by
  induction bindings generalizing session with
  | nil => exact sound
  | cons binding rest inductionHypothesis =>
      obtain ⟨root, user, store, context, depth⟩ := session
      have defined := law.keeps_define admits binding.1 binding.2 store sound
      exact @inductionHypothesis
        ⟨root, user, (Store.define root binding.1 binding.2 store).2, context, depth⟩ admits defined

/-- Registering bindings leaves the scope of the user in its place. -/
theorem user_register
    (bindings : List (String × Value))
    (session : Session) :
    (session.register bindings).2.user = session.user := by
  induction bindings generalizing session with
  | nil => rfl
  | cons binding rest inductionHypothesis => exact inductionHypothesis _

/-- A session before anything is registered. -/
private theorem bare_eq :
    ∃ store : Store,
      bare = (register initialBindings ⟨⟨0, []⟩, ⟨1, [0]⟩, ⟨store, ⟨[], [], 0⟩, 0⟩⟩).2 ∧
        store.frames = #[⟨[], []⟩, ⟨[], []⟩] ∧ store.procedures = #[] :=
  ⟨_, rfl, rfl, rfl⟩

/-- The root of a session without the library binds what is registered, and nothing else. -/
theorem find?_bare
    (name : String) :
    (bare.store.frameAt 0).find? name = initialBindings.lookup name := by
  obtain ⟨store, shape, frames, _⟩ := bare_eq
  have present : (0 : Nat) < store.frames.size := by
    rw [frames]
    decide
  have nothing : (store.frameAt 0).find? name = none := by
    rw [Store.frameAt, frames]
    rfl
  rw [shape]
  refine (find?_register initialBindings present).trans ?_
  exact congrArg (·.or (initialBindings.lookup name)) nothing

/-- The bare session binds each initial name in its root. -/
theorem bare_rootBinds
    (named : initialBindings.lookup name = some value) :
    bare.store.RootBinds name value :=
  ⟨Rooted.bare.store, (find?_bare name).trans named⟩

/-- The first scope of a user is empty and lies in the root. -/
theorem bare_userRooted :
    bare.store.Rooted 1 (some ⟨[], []⟩) := by
  obtain ⟨store, shape, frames, procedures⟩ := bare_eq
  have admits : (Law.rooted 1 (some ⟨[], []⟩)).admits ⟨0, []⟩ :=
    ⟨.single 0, fun _ => Nat.zero_ne_one⟩
  have begun : store.Rooted 1 (some ⟨[], []⟩) := by
    refine ⟨⟨_, by rw [frames]; rfl⟩, fun frame same => ?_, fun address => ?_⟩
    · cases same
      rw [frames]
      rfl
    · rw [procedures]
      exact .single 0
  rw [shape]
  exact @sound_register (Law.rooted 1 (some ⟨[], []⟩)) ⟨⟨0, []⟩, ⟨1, [0]⟩, ⟨store, ⟨[], [], 0⟩, 0⟩⟩
    admits begun initialBindings

/-- A prepared session has its user in the first scope under the root. -/
theorem user_start
    (settings : Settings) :
    (start settings).user = ⟨1, [0]⟩ := by
  have bareUser : bare.user = ⟨1, [0]⟩ := by
    unfold bare
    generalize initialBindings = bindings
    exact user_register bindings _
  unfold start
  split
  · unfold loadLibrary
    generalize Library.text = source
    cases loaded : bare.evaluateTextInRoot { settings with host := Host.absent } source with
    | none => exact bareUser
    | some outcome =>
        obtain ⟨result, after⟩ := outcome
        rcases of_withProgram loaded with rfl | ⟨forms, ending, asked⟩
        · exact bareUser
        · exact (user_of_ask asked).trans bareUser
  · exact bareUser

end Session

/--
In the scope of programs, the outer frame has what the root starts with and perhaps more, and the
inner one binds these names.
-/
structure Store.Offers
    (defined : List (String × Value))
    (store : Store) : Prop where
  root :
    ∀ {name : String} {value : Value},
      Session.initialBindings.lookup name = some value →
      (store.frameAt 0).find? name = some value
  user : ∃ namespaces, store.frames[1]? = some ⟨defined, namespaces⟩

/-- A new session offers what it starts with, and nothing is defined. -/
theorem Session.offers_start
    (settings : Settings) :
    (start settings).store.Offers [] where
  root {name value} named := by
    have admits : (Law.rootBinds name value).admits bare.root := by
      rw [Rooted.bare.place]
      exact .single 0
    exact (sound_start settings admits (bare_rootBinds named)).binds
  user := by
    have admits : (Law.rooted 1 (some ⟨[], []⟩)).admits bare.root := by
      rw [Rooted.bare.place]
      exact ⟨.single 0, fun _ => Nat.zero_ne_one⟩
    exact ⟨[], (sound_start settings admits bare_userRooted).kept _ rfl⟩

/-- From the scope, names mean these values or else what the root of a new session binds them to. -/
structure Store.Sees
    (store : Store)
    (scope : Scope)
    (bindings : List (String × Value)) : Prop where
  means :
    ∀ {name : String} {value : Value},
      (bindings ++ Session.initialBindings).lookup name = some value →
      store.lookup? scope name = some value
  within : ∀ frame ∈ scope.frames, frame < store.frames.size

namespace Store

variable
  {before after : Store}
  {bindings defined : List (String × Value)}

/-- The frames of the first store are among those of the second one, which may have more. -/
def IsDeepenedTo (before after : Store) : Prop :=
  ∀ {address : Nat} {frame : Frame},
    before.frames[address]? = some frame → after.frames[address]? = some frame

/-- A further frame deepens a store. -/
theorem isDeepenedTo_withFrame
    (store : Store)
    (frame : Frame) :
    store.IsDeepenedTo (store.withFrame frame) :=
  getElem?_push_of_some

/-- A name is looked up in the innermost frame first. -/
theorem lookupIn_cons
    (store : Store)
    (name : String)
    (frame : Nat)
    (outer : List Nat) :
    store.lookupIn name (frame :: outer) =
      ((store.frameAt frame).find? name).or (store.lookupIn name outer) := by
  rw [lookupIn]
  cases (store.frameAt frame).find? name <;> rfl

/-- A deeper store binds every name in the frames of before as before. -/
theorem lookupIn_of_isDeepenedTo
    (deepened : before.IsDeepenedTo after)
    (name : String)
    {frames : List Nat}
    (within : ∀ frame ∈ frames, frame < before.frames.size) :
    after.lookupIn name frames = before.lookupIn name frames := by
  induction frames with
  | nil => rfl
  | cons frame outer inductionHypothesis =>
      obtain ⟨inside, within⟩ := List.forall_mem_cons.mp within
      have found := Array.getElem?_eq_getElem inside
      simp only [lookupIn, frameAt, found, deepened found, inductionHypothesis within]

namespace Sees

/-- What is seen from a scope is still seen when there are more frames. -/
theorem deepened
    (sees : before.Sees scope bindings)
    (deepened : before.IsDeepenedTo after) :
    after.Sees scope bindings where
  means named := (lookupIn_of_isDeepenedTo deepened _ sees.within).trans (sees.means named)
  within frame member := by
    have found := deepened (Array.getElem?_eq_getElem (sees.within frame member))
    exact (Array.getElem?_eq_some_iff.mp found).1

/-- In a frame that is put inside a scope its bindings come first. -/
theorem inside
    {address : Nat}
    {added : List (String × Value)}
    {namespaces : List String}
    (sees : store.Sees scope bindings)
    (found : store.frames[address]? = some ⟨added, namespaces⟩) :
    store.Sees ⟨address, scope.frames⟩ (added ++ bindings) where
  means {name value} named := by
    have own : (store.frameAt address).find? name = added.lookup name := by
      rw [frameAt, found]
      rfl
    rw [List.append_assoc, List.lookup_append] at named
    rw [lookup?, Scope.frames, lookupIn_cons, own]
    cases bound : added.lookup name with
    | some found =>
        rw [bound] at named
        exact named
    | none =>
        rw [bound, Option.none_or] at named
        exact sees.means named
  within frame member := by
    rcases List.mem_cons.mp member with rfl | member
    · exact (Array.getElem?_eq_some_iff.mp found).1
    · exact sees.within frame member

/-- In a new frame its bindings come first. -/
theorem entered
    (sees : store.Sees scope bindings)
    (added : List (String × Value))
    (namespaces : List String) :
    (store.withFrame ⟨added, namespaces⟩).Sees ⟨store.frames.size, scope.frames⟩
      (added ++ bindings) :=
  (sees.deepened (store.isDeepenedTo_withFrame _)).inside Array.getElem?_push_size

end Sees

/-- What is offered is seen from the scope of the user. -/
theorem Offers.sees
    (offers : store.Offers defined) :
    store.Sees ⟨1, [0]⟩ defined := by
  obtain ⟨namespaces, user⟩ := offers.user
  have inside := (Array.getElem?_eq_some_iff.mp user).1
  constructor
  · intro name value named
    rw [List.lookup_append] at named
    have own : (store.frameAt 1).find? name = defined.lookup name := by
      rw [frameAt, user]
      rfl
    simp only [lookup?, Scope.frames, lookupIn, own]
    cases found : defined.lookup name with
    | some value =>
        rw [found] at named
        exact named
    | none =>
        rw [found, Option.none_or] at named
        simp only [offers.root named]
  · intro frame member
    simp only [Scope.frames, List.mem_cons, List.not_mem_nil, or_false] at member
    omega

/-- A definition in the scope of programs. -/
theorem Offers.bound
    (offers : before.Offers defined)
    {name : String}
    {value : Value}
    (frames : after.frames = before.frames.modify 1 (·.bind name value)) :
    after.Offers ((name, value) :: defined) where
  root {name value} named := by
    have same : after.frames[0]? = before.frames[0]? := by
      rw [frames, Array.getElem?_modify, if_neg Nat.one_ne_zero]
    rw [frameAt, same]
    exact offers.root named
  user := by
    obtain ⟨namespaces, user⟩ := offers.user
    refine ⟨namespaces, ?_⟩
    rw [frames, Array.getElem?_modify, if_pos rfl, user]
    rfl

/-- What is offered depends on the frames only. -/
theorem Offers.of_frames_eq
    (offers : before.Offers defined)
    (frames : after.frames = before.frames) :
    after.Offers defined where
  root named := by
    rw [frameAt, frames]
    exact offers.root named
  user := by
    rw [frames]
    exact offers.user

end Store

end SmallScheme
