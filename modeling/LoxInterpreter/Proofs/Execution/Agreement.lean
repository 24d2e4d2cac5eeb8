import LoxInterpreter.Proofs.Execution.Ending
import LoxInterpreter.Proofs.Execution.Frames
import LoxInterpreter.Proofs.Scope.Context

/-!
Contract: code that is bound in a context runs in an environment that has its names.

An environment models a context when it has a frame for each scope, in front of the globals, and in
each frame at least the names of the scope. Every function that can be reached from the store models
the context of its declaration, and stays so, since frames and names are never lost. Hence a reference
that is bound in the context of its code is found where its binding says.

Owns: `Store.Models`, `Store.Sound`, and `evaluate_and_execute_sound`.
Does not own: the steps within a run (`Proofs.Execution.Moment`), and sessions (`Proofs.Session`).
-/

namespace LoxInterpreter

/-- Whether an environment has a frame for each scope of a context, with at least its names, in front
of the globals. -/
inductive Store.Models (store : Store Value) : Environment → Context → Prop where
  | globals : Models store Machine.globalEnvironment []
  | scope {id : FrameId} {outer : Environment} {names : List String} {context : Context}
      (inner : id ≠ Machine.globalFrame) (made : id < store.frames.size)
      (contains : ∀ name ∈ names, (store.frame id).contains name = true)
      (behind : Models store outer context) : Models store (id :: outer) (names :: context)

/-- Whether the body of a function is bound in the context of its declaration. -/
def Closure.Sound (function : Closure) (store : Store Value) : Prop :=
  ∃ context, store.Models function.environment context ∧
    Statement.listBound ((function.parameters.map Name.text).reverse :: context) function.body

/-- Whether a value is no function, or a sound one. -/
def Value.Sound (value : Value) (store : Store Value) : Prop :=
  ∀ function, value = .closure function → function.Sound store

/-- Whether the globals were made and all variables contain sound values. -/
structure Store.Sound (store : Store Value) : Prop where
  globals_made : Machine.globalFrame < store.frames.size
  content : ∀ id name value, (store.frame id).get? name = some value → value.Sound store

/-! ## Models and sound values in larger stores -/

namespace Store

variable {store after : Store Value} {environment : Environment} {context : Context}

theorem Models.mono (models : store.Models environment context) (extends' : after.Extends store) :
    after.Models environment context := by
  induction models with
  | globals => exact .globals
  | scope inner made contains behind inductionHypothesis =>
      apply Models.scope inner
      · exact Nat.lt_of_lt_of_le made extends'.size_le
      · intro name member
        exact extends'.contains _ name (contains name member)
      · exact inductionHypothesis

/-- Outside all scopes the environment is that of the globals. -/
theorem Models.eq_globals (models : store.Models environment []) :
    environment = Machine.globalEnvironment := by
  cases models with
  | globals => rfl

/-- Where a context finds a name in a scope, the environment has it in the frame of that scope. -/
theorem Models.found (models : store.Models environment context) {name : String} {distance : Nat}
    (bound : context.binding name = .enclosing distance) :
    ∃ id, environment[distance]? = some id ∧ id ≠ Machine.globalFrame ∧
      (store.frame id).contains name = true := by
  unfold Context.binding at bound
  induction models generalizing distance with
  | globals => simp at bound
  | @scope id outer names context inner made contains behind inductionHypothesis =>
      rw [List.findIdx?_cons] at bound
      by_cases member : name ∈ names
      · have isHere : names.contains name = true := by simpa using member
        rw [if_pos isHere] at bound
        obtain rfl : 0 = distance := Binding.enclosing.inj bound
        exact ⟨id, rfl, inner, contains name member⟩
      · have isElsewhere : ¬ names.contains name = true := by simpa using member
        rw [if_neg isElsewhere] at bound
        cases further : context.findIdx? (·.contains name) with
        | none =>
            rw [further] at bound
            simp at bound
        | some distance' =>
            rw [further] at bound
            obtain rfl : distance' + 1 = distance := Binding.enclosing.inj bound
            have found := @inductionHypothesis distance' (by rw [further])
            simpa using found

/-- Where an assignment goes to a scope, the environment has a frame for it, and the name in that
frame unless it waits for its initializer. -/
theorem Models.assigned (models : store.Models environment context) {waiting : Option String}
    {name : String} {distance : Nat}
    (bound : context.assignedBinding waiting name = .enclosing distance)
    (inScope : waiting ≠ none → context ≠ []) :
    ∃ id, environment[distance]? = some id ∧ id ≠ Machine.globalFrame ∧
      ((store.frame id).contains name = true ∨ waiting = some name) := by
  unfold Context.assignedBinding at bound
  by_cases isWaiting : waiting = some name
  · rw [if_pos isWaiting] at bound
    obtain rfl : 0 = distance := Binding.enclosing.inj bound
    cases models with
    | globals => exact absurd rfl (inScope (by rw [isWaiting]; simp))
    | @scope id _ _ _ inner _ _ _ => exact ⟨id, rfl, inner, .inr isWaiting⟩
  · rw [if_neg isWaiting] at bound
    obtain ⟨id, isFrame, inner, present⟩ := models.found bound
    exact ⟨id, isFrame, inner, .inl present⟩

/-- A new frame is the frame of a new scope. -/
theorem Models.extend (models : store.Models environment context) (sound : 0 < store.frames.size) :
    (store.extend environment).2.Models (store.extend environment).1 ([] :: context) := by
  apply Models.scope
  · exact Nat.ne_of_gt sound
  · rw [size_extend]
    exact Nat.lt_succ_self _
  · simp
  · exact models.mono (extends_extend environment)

/-- A name that is defined in an environment is declared in its context. -/
theorem Models.define (models : store.Models environment context) (name : String) (value : Value) :
    (store.define environment name value).Models environment (context.declare name) := by
  cases models with
  | globals => exact .globals
  | @scope id outer names context inner made contains behind =>
      have grows : (store.write id name value).Extends store := extends_write id name value
      apply Models.scope inner
      · exact Nat.lt_of_lt_of_le made grows.size_le
      · intro other member
        rcases List.mem_cons.mp member with rfl | before
        · change ((store.write id other value).frame id).contains other = true
          rw [frame_write_self made]
          exact Table.contains_set_self _ _ _
        · exact grows.contains id other (contains other before)
      · exact behind.mono grows

/-- Among the globals alone, a name is looked up in their frame. -/
theorem lookup?_globals {name : String} :
    store.lookup? Machine.globalEnvironment name = (store.frame Machine.globalFrame).get? name := by
  unfold lookup? holder? Machine.globalEnvironment
  cases found : (store.frame Machine.globalFrame).get? name with
  | none => simp [Table.contains, found]
  | some content => simp [Table.contains, found]

end Store

theorem Closure.Sound.mono {function : Closure} {store after : Store Value}
    (sound : function.Sound store) (extends' : after.Extends store) : function.Sound after := by
  obtain ⟨context, models, bound⟩ := sound
  exact ⟨context, models.mono extends', bound⟩

theorem Value.Sound.mono {value : Value} {store after : Store Value} (sound : value.Sound store)
    (extends' : after.Extends store) : value.Sound after :=
  fun function isFunction => (sound function isFunction).mono extends'

theorem Value.sound_of_ne_closure {value : Value} (noFunction : ∀ function, value ≠ .closure function)
    (store : Store Value) : value.Sound store :=
  fun function isFunction => absurd isFunction (noFunction function)

namespace Store.Sound

variable {store : Store Value}

theorem extend (sound : store.Sound) (environment : Environment) :
    (store.extend environment).2.Sound := by
  constructor
  · rw [size_extend]
    exact Nat.lt_succ_of_lt sound.globals_made
  · intro id name value reads
    rw [frame_extend] at reads
    exact (sound.content id name value reads).mono (extends_extend environment)

/-- A function may be sound by what its own definition adds to its environment. -/
theorem write (sound : store.Sound) {id : FrameId} {name : String} {value : Value}
    (soundValue : value.Sound (store.write id name value)) : (store.write id name value).Sound := by
  constructor
  · rw [size_write]
    exact sound.globals_made
  · intro other otherName content reads
    rcases get?_write reads with rfl | before
    · exact soundValue
    · exact (sound.content other otherName content before).mono (extends_write id name value)

theorem define (sound : store.Sound) {environment : Environment} {name : String} {value : Value}
    (soundValue : value.Sound (store.define environment name value)) :
    (store.define environment name value).Sound := by
  cases environment with
  | nil => exact sound
  | cons innermost outer => exact sound.write soundValue

end Store.Sound

/-! ## Machines that go on soundly -/

/-- Whether a machine has come from another, in the same environment, with a sound and larger store. -/
structure Machine.Follows (after before : Machine) : Prop where
  environment_eq : after.environment = before.environment
  extends_store : after.store.Extends before.store
  sound : after.store.Sound

theorem Machine.Follows.refl {machine : Machine} (sound : machine.store.Sound) :
    machine.Follows machine :=
  ⟨rfl, Store.Extends.refl _, sound⟩

theorem Machine.Follows.trans {first second third : Machine} (later : third.Follows second)
    (earlier : second.Follows first) : third.Follows first :=
  ⟨later.environment_eq.trans earlier.environment_eq,
    later.extends_store.trans earlier.extends_store, later.sound⟩

/-- What a signal may be on a sound machine: no reference is followed in vain, what is returned is
sound, and a variable that is reported as undefined is missing among the globals. -/
def Signal.Sound (machine : Machine) : Signal → Prop
  | .brokenBinding _ => False
  | .returned value => value.Sound machine.store
  | .fault ⟨.undefinedVariable name, _⟩ => machine.globals.contains name = false
  | _ => True

namespace Run

variable {α β : Type} {machine : Machine}

/-- Whether an action on a sound machine leaves one that follows it, with a result of which something
holds or with a sound signal. -/
def Safe (action : Run α) (machine : Machine) (good : α → Machine → Prop) : Prop :=
  action.Ends machine (fun value after => after.Follows machine ∧ good value after)
    (fun signal after => after.Follows machine ∧ signal.Sound after)

theorem Safe.imp {action : Run α} {good good' : α → Machine → Prop} (safe : action.Safe machine good)
    (weaker : ∀ value after, after.Follows machine → good value after → good' value after) :
    action.Safe machine good' := by
  refine Ends.imp safe (fun value after ended => ?_) (fun signal after ended => ended)
  exact ⟨ended.1, weaker value after ended.1 ended.2⟩

theorem safe_pure (sound : machine.store.Sound) {value : α} {good : α → Machine → Prop}
    (holds : good value machine) : (pure value : Run α).Safe machine good :=
  ⟨Machine.Follows.refl sound, holds⟩

theorem safe_throw (sound : machine.store.Sound) {signal : Signal} (soundSignal : signal.Sound machine)
    {good : α → Machine → Prop} : (throw signal : Run α).Safe machine good :=
  ⟨Machine.Follows.refl sound, soundSignal⟩

theorem safe_get (sound : machine.store.Sound) :
    (get : Run Machine).Safe machine (fun value after => value = machine ∧ after = machine) :=
  ⟨Machine.Follows.refl sound, rfl, rfl⟩

theorem Safe.bind {first : Run α} {next : α → Run β} {between : α → Machine → Prop}
    {good : β → Machine → Prop} (safe : first.Safe machine between)
    (safeNext : ∀ value after, after.Follows machine → between value after →
      (next value).Safe after good) : (first >>= next).Safe machine good := by
  unfold Safe
  rw [ends_bind_iff]
  refine Ends.imp safe (fun value after ended => ?_) (fun signal after ended => ended)
  have rest := safeNext value after ended.1 ended.2
  refine Ends.imp rest (fun result final ended' => ?_) (fun signal final ended' => ?_)
  · exact ⟨ended'.1.trans ended.1, ended'.2⟩
  · exact ⟨ended'.1.trans ended.1, ended'.2⟩

/-- A change of anything but store and environment. -/
theorem safe_modify (change : Machine → Machine) (sound : machine.store.Sound)
    (sameStore : (change machine).store = machine.store)
    (sameEnvironment : (change machine).environment = machine.environment)
    {good : Unit → Machine → Prop} (holds : good () (change machine)) :
    (modify change : Run Unit).Safe machine good := by
  refine ⟨⟨sameEnvironment, ?_, ?_⟩, holds⟩
  · rw [sameStore]
    exact Store.Extends.refl _
  · rwa [sameStore]

theorem safe_tell (event : TraceEvent) (sound : machine.store.Sound) :
    (tell event).Safe machine (fun _ _ => True) := by
  exact safe_modify (·.tell event) sound (machine.store_tell event) (machine.environment_tell event)
    trivial

theorem safe_fault {cause : RuntimeError.Cause} {token : Token} (sound : machine.store.Sound)
    (known : ∀ name, cause ≠ .undefinedVariable name) {good : α → Machine → Prop} :
    (fault cause token : Run α).Safe machine good := by
  apply safe_throw sound
  cases cause with
  | undefinedVariable name => exact absurd rfl (known name)
  | _ => trivial

theorem safe_ofOutcome {outcome : Outcome} {token : Token} (sound : machine.store.Sound)
    (known : ∀ name, outcome ≠ .error (.undefinedVariable name))
    (plain : ∀ function, outcome ≠ .ok (.closure function)) :
    (ofOutcome outcome token).Safe machine (fun value after => value.Sound after.store) := by
  cases outcome with
  | ok value =>
      apply safe_pure sound
      apply Value.sound_of_ne_closure
      intro function same
      exact plain function (by rw [same])
  | error cause =>
      apply safe_fault sound
      intro name same
      exact known name (by rw [same])

theorem safe_readVariable {context : Context} {name : Name} {binding : Binding}
    (sound : machine.store.Sound) (models : machine.store.Models machine.environment context)
    (bound : binding = context.binding name.text) :
    (readVariable name binding).Safe machine (fun value after => value.Sound after.store) := by
  unfold readVariable
  apply Safe.bind (safe_get sound)
  rintro _ after _ ⟨rfl, rfl⟩
  cases binding with
  | global =>
      have isGlobal : Store.lookup? after.store Machine.globalEnvironment name.text =
          after.globals.get? name.text := Store.lookup?_globals
      simp only [isGlobal]
      cases found : after.globals.get? name.text with
      | some value => exact safe_pure sound (sound.content _ _ _ found)
      | none =>
          apply safe_throw sound
          simp [Signal.Sound, Table.contains, found]
  | enclosing distance =>
      obtain ⟨id, isFrame, _, present⟩ := models.found bound.symm
      obtain ⟨value, found⟩ := Table.contains_iff.mp present
      have reads : Store.readAt after.store after.environment distance name.text = .ok value := by
        unfold Store.readAt
        rw [isFrame]
        simp only [found]
      simp only [reads]
      exact safe_pure sound (sound.content _ _ _ found)

theorem safe_write {id : FrameId} {name : String} {value : Value} (sound : machine.store.Sound)
    (soundValue : value.Sound machine.store) :
    (write id name value).Safe machine (fun _ _ => True) :=
  ⟨⟨rfl, Store.extends_write id name value,
    sound.write (soundValue.mono (Store.extends_write id name value))⟩, trivial⟩

theorem safe_writeVariable {context : Context} {waiting : Option String} {name : Name}
    {binding : Binding} {value : Value} (sound : machine.store.Sound)
    (models : machine.store.Models machine.environment context)
    (bound : binding = context.assignedBinding waiting name.text)
    (inScope : waiting ≠ none → context ≠ []) (soundValue : value.Sound machine.store) :
    (writeVariable name binding value).Safe machine (fun _ _ => True) := by
  unfold writeVariable
  cases binding with
  | global =>
      apply Safe.bind (safe_get sound)
      rintro _ after _ ⟨rfl, rfl⟩
      cases present : after.globals.contains name.text with
      | true =>
          have isGlobal : after.store.holder? Machine.globalEnvironment name.text =
              some Machine.globalFrame := by
            simpa [Store.holder?, Machine.globalEnvironment, Machine.globals] using present
          simp only [isGlobal]
          exact safe_write sound soundValue
      | false =>
          have isMissing : after.store.holder? Machine.globalEnvironment name.text = none := by
            simpa [Store.holder?, Machine.globalEnvironment, Machine.globals] using present
          simp only [isMissing]
          apply safe_throw sound
          exact present
  | enclosing distance =>
      apply Safe.bind (safe_get sound)
      rintro _ after _ ⟨rfl, rfl⟩
      obtain ⟨id, isFrame, _⟩ := models.assigned bound.symm inScope
      simp only [isFrame]
      exact safe_write sound soundValue

theorem safe_define {context : Context} (name : String) {value : Value} (sound : machine.store.Sound)
    (models : machine.store.Models machine.environment context)
    (soundValue : value.Sound (machine.store.define machine.environment name value)) :
    (define name value).Safe machine
      (fun _ after => after.store.Models after.environment (context.declare name)) :=
  ⟨⟨rfl, Store.extends_define machine.environment name value, sound.define soundValue⟩,
    models.define name value⟩

theorem safe_extend {context : Context} (environment : Environment) (sound : machine.store.Sound)
    (models : machine.store.Models environment context) :
    (extend environment).Safe machine (fun extended after =>
      after.store.Models extended ([] :: context)) :=
  ⟨⟨rfl, Store.extends_extend environment, sound.extend environment⟩,
    models.extend sound.globals_made⟩

/-- Parameters and arguments that are as many give an environment for the body of a function. -/
theorem safe_defineParameters {context : Context} {innermost : List String} {names : List Name}
    {values : List Value} (environment : Environment) (sameNumber : names.length = values.length)
    (sound : machine.store.Sound) (models : machine.store.Models environment (innermost :: context))
    (soundValues : ∀ value ∈ values, value.Sound machine.store) :
    (defineParameters environment names values).Safe machine (fun _ after =>
      after.store.Models environment (((names.map Name.text).reverse ++ innermost) :: context)) := by
  induction names generalizing values machine innermost with
  | nil =>
      unfold defineParameters
      apply safe_pure sound
      exact models
  | cons name rest inductionHypothesis =>
      cases values with
      | nil => simp at sameNumber
      | cons value others =>
          unfold defineParameters
          have soundValue := soundValues value List.mem_cons_self
          have defined : (defineIn environment name.text value).Safe machine (fun _ after =>
              after.store.Models environment ((name.text :: innermost) :: context)) :=
            ⟨⟨rfl, Store.extends_define environment name.text value,
              sound.define (soundValue.mono (Store.extends_define _ _ _))⟩,
              models.define name.text value⟩
          apply Safe.bind defined
          intro _ after follows modelsAfter
          have soundOthers : ∀ value ∈ others, value.Sound after.store := by
            intro other member
            exact (soundValues other (List.mem_cons_of_mem _ member)).mono follows.extends_store
          have behind := inductionHypothesis (by simpa using sameNumber) follows.sound modelsAfter
            soundOthers
          simpa using behind

/-- An action in an environment of its own is as safe as it is there. -/
theorem Safe.withEnvironment {environment : Environment} {action : Run α} {good : α → Machine → Prop}
    {good' : α → Machine → Prop}
    (safe : action.Safe { machine with environment := environment } good)
    (keeps : ∀ value after, good value after →
      good' value { after with environment := machine.environment }) :
    (withEnvironment environment action).Safe machine good' := by
  unfold Safe
  rw [ends_withEnvironment_iff]
  refine Ends.imp safe (fun value after ended => ?_) (fun signal after ended => ?_)
  · exact ⟨⟨rfl, ended.1.extends_store, ended.1.sound⟩, keeps value after ended.2⟩
  · exact ⟨⟨rfl, ended.1.extends_store, ended.1.sound⟩, ended.2⟩

theorem Safe.catchReturn {body : Run Unit} (safe : body.Safe machine (fun _ _ => True)) :
    (catchReturn body).Safe machine (fun value after => value.Sound after.store) := by
  unfold Safe
  rw [ends_catchReturn_iff]
  refine Ends.imp safe (fun value after ended => ?_) (fun signal after ended => ?_)
  · exact ⟨ended.1, Value.sound_of_ne_closure (by simp) _⟩
  · cases signal with
    | returned value => exact ended
    | _ => exact ended

theorem safe_checkArity {expected given : Nat} {token : Token} (sound : machine.store.Sound) :
    (checkArity expected given token).Safe machine (fun _ _ => expected = given) := by
  unfold checkArity
  by_cases same : expected = given
  · rw [if_pos same]
    exact safe_pure sound same
  · rw [if_neg same]
    apply safe_fault sound
    simp

/-- A call is safe if running the body is, in every environment for it. -/
theorem safe_callClosure {function : Closure} {arguments : List Value} {body : Run Unit}
    (sound : machine.store.Sound) (soundFunction : function.Sound machine.store)
    (soundArguments : ∀ value ∈ arguments, value.Sound machine.store)
    (sameNumber : function.arity = arguments.length)
    (safeBody : ∀ (context : Context) (inside : Machine), inside.store.Sound →
      inside.store.Models inside.environment
        ((function.parameters.map Name.text).reverse :: context) →
      Statement.listBound ((function.parameters.map Name.text).reverse :: context) function.body →
      body.Safe inside (fun _ _ => True)) :
    (callClosure function arguments body).Safe machine (fun value after => value.Sound after.store) := by
  obtain ⟨context, models, bound⟩ := soundFunction
  unfold callClosure
  apply Safe.bind (safe_extend function.environment sound models)
  intro environment extended follows modelsExtended
  have soundThere : ∀ value ∈ arguments, value.Sound extended.store := by
    intro value member
    exact (soundArguments value member).mono follows.extends_store
  apply Safe.bind (safe_defineParameters environment sameNumber follows.sound modelsExtended soundThere)
  intro _ entered followsExtended modelsEntered
  rw [List.append_nil] at modelsEntered
  apply Safe.catchReturn
  apply Safe.withEnvironment
  · exact safeBody context { entered with environment := environment } followsExtended.sound
      modelsEntered bound
  · intro _ _ _
    trivial

theorem safe_inBlock {context : Context} {statements : Run Unit} (sound : machine.store.Sound)
    (models : machine.store.Models machine.environment context)
    (safe : ∀ inside : Machine, inside.store.Sound →
      inside.store.Models inside.environment ([] :: context) →
      statements.Safe inside (fun _ _ => True)) :
    (inBlock statements).Safe machine (fun _ _ => True) := by
  unfold inBlock
  apply Safe.bind (safe_get sound)
  rintro _ after _ ⟨rfl, rfl⟩
  apply Safe.bind (safe_extend after.environment sound models)
  intro environment extended follows modelsExtended
  apply Safe.withEnvironment
  · exact safe { extended with environment := environment } follows.sound modelsExtended
  · intro _ _ _
    trivial

theorem safe_defineFunction {context : Context} {name : Name} {parameters : List Name}
    {body : List (Statement Binding)} (sound : machine.store.Sound)
    (models : machine.store.Models machine.environment context)
    (bound : Statement.listBound
      ((parameters.map Name.text).reverse :: context.declare name.text) body) :
    (defineFunction name parameters body).Safe machine
      (fun _ after => after.store.Models after.environment (context.declare name.text)) := by
  unfold defineFunction
  have fresh : newIdentity.Safe machine
      (fun _ after => after.store.Models after.environment context) :=
    ⟨⟨rfl, Store.Extends.refl _, sound⟩, models⟩
  apply Safe.bind fresh
  intro identity counted follows modelsCounted
  apply Safe.bind (safe_get follows.sound)
  rintro _ after _ ⟨rfl, rfl⟩
  have soundFunction : (Value.closure
      ⟨identity, name.text, parameters, body, after.environment⟩).Sound
      (after.store.define after.environment name.text
        (.closure ⟨identity, name.text, parameters, body, after.environment⟩)) := by
    intro function isFunction
    obtain rfl := Value.closure.inj isFunction
    exact ⟨context.declare name.text, modelsCounted.define name.text _, bound⟩
  apply Safe.bind (safe_define name.text follows.sound modelsCounted soundFunction)
  intro _ defined followsDefined modelsDefined
  apply Safe.imp (safe_tell _ followsDefined.sound)
  intro _ told followsTold _
  rw [followsTold.environment_eq]
  exact modelsDefined.mono followsTold.extends_store

end Run

/-! ## Evaluation -/

theorem UnaryOperator.apply_plain (operator : UnaryOperator) (operand : Value) :
    (∀ name, operator.apply operand ≠ .error (.undefinedVariable name)) ∧
      ∀ function, operator.apply operand ≠ .ok (.closure function) := by
  cases operator <;> cases operand <;> simp [UnaryOperator.apply]

theorem BinaryOperator.apply_plain (operator : BinaryOperator) (left right : Value) :
    (∀ name, operator.apply left right ≠ .error (.undefinedVariable name)) ∧
      ∀ function, operator.apply left right ≠ .ok (.closure function) := by
  cases operator <;> cases left <;> cases right <;>
    simp [BinaryOperator.apply, Value.plus, Value.arithmetic]

/-- Whether expressions are evaluated soundly with some fuel, wherever they are bound. -/
def EvaluatesSoundly (fuel : Nat) : Prop :=
  ∀ (calls : Nat) (expression : Expression Binding) (context : Context) (waiting : Option String)
    (machine : Machine), machine.store.Sound → machine.store.Models machine.environment context →
    (waiting ≠ none → context ≠ []) → expression.Bound context waiting →
    (evaluate fuel calls expression).Safe machine (fun value after => value.Sound after.store)

/-- Whether statements are executed soundly with some fuel, wherever they are bound. -/
def ExecutesSoundly (fuel : Nat) : Prop :=
  ∀ (calls : Nat) (statement : Statement Binding) (context : Context) (machine : Machine),
    machine.store.Sound → machine.store.Models machine.environment context → statement.Bound context →
    (execute fuel calls statement).Safe machine
      (fun _ after => after.store.Models after.environment (statement.contextBehind context))

open Run

theorem Machine.Follows.models {after before : Machine} (follows : after.Follows before)
    {context : Context} (models : before.store.Models before.environment context) :
    after.store.Models after.environment context := by
  rw [follows.environment_eq]
  exact models.mono follows.extends_store

section Items

variable {fuel calls : Nat} {context : Context} {waiting : Option String} {machine : Machine}

/-- Arguments are evaluated soundly if expressions are. -/
theorem collect_sound (sound : EvaluatesSoundly fuel) {arguments : List (Expression Binding)}
    (soundStore : machine.store.Sound)
    (models : machine.store.Models machine.environment context)
    (inScope : waiting ≠ none → context ≠ [])
    (bound : Expression.listBound context waiting arguments) :
    (collect (evaluate fuel calls) arguments).Safe machine
      (fun values after => ∀ value ∈ values, value.Sound after.store) := by
  induction arguments generalizing machine with
  | nil =>
      apply safe_pure soundStore
      simp
  | cons first rest inductionHypothesis =>
      apply Safe.bind (sound calls first context waiting machine soundStore models inScope bound.1)
      intro value after follows soundValue
      apply Safe.bind (inductionHypothesis follows.sound (follows.models models) bound.2)
      intro values final followsAfter soundValues
      apply safe_pure followsAfter.sound
      intro other member
      rcases List.mem_cons.mp member with rfl | later
      · exact soundValue.mono followsAfter.extends_store
      · exact soundValues other later

/-- Statements one after another are executed soundly if each of them is. -/
theorem each_sound (sound : ExecutesSoundly fuel) {statements : List (Statement Binding)}
    (soundStore : machine.store.Sound)
    (models : machine.store.Models machine.environment context)
    (bound : Statement.listBound context statements) :
    (each (execute fuel calls) statements).Safe machine (fun _ after =>
      after.store.Models after.environment (Statement.listContextBehind context statements)) := by
  induction statements generalizing machine context with
  | nil => exact safe_pure soundStore models
  | cons first rest inductionHypothesis =>
      apply Safe.bind (sound calls first context machine soundStore models bound.1)
      intro _ after follows modelsAfter
      exact inductionHypothesis follows.sound modelsAfter bound.2

theorem each_sound_of_bound (sound : ExecutesSoundly fuel) {statements : List (Statement Binding)}
    (soundStore : machine.store.Sound)
    (models : machine.store.Models machine.environment context)
    (bound : Statement.listBound context statements) :
    (each (execute fuel calls) statements).Safe machine (fun _ _ => True) :=
  (each_sound sound soundStore models bound).imp fun _ _ _ _ => trivial

/-- A call is evaluated soundly if callee, arguments and bodies are. -/
theorem call_sound (sound : EvaluatesSoundly fuel) (soundBody : ExecutesSoundly fuel)
    {callee : Expression Binding} {arguments : List (Expression Binding)} {line : Nat}
    (soundStore : machine.store.Sound)
    (models : machine.store.Models machine.environment context)
    (inScope : waiting ≠ none → context ≠ [])
    (bound : (Expression.call callee arguments line).Bound context waiting) :
    (evaluate (fuel + 1) calls (.call callee arguments line)).Safe machine
      (fun value after => value.Sound after.store) := by
  rw [evaluate]
  apply Safe.bind (sound calls callee context waiting machine soundStore models inScope bound.1)
  intro function called follows soundCallee
  apply Safe.bind (collect_sound sound follows.sound (follows.models models) inScope bound.2)
  intro values ready followsCalled soundValues
  have soundFunction : function.Sound ready.store := soundCallee.mono followsCalled.extends_store
  cases function with
  | closure function =>
      apply Safe.bind (safe_checkArity followsCalled.sound)
      intro _ checked followsReady sameNumber
      apply Safe.bind (safe_tell _ followsReady.sound)
      intro _ told followsChecked _
      have later := followsChecked.trans followsReady
      cases calls with
      | zero =>
          apply safe_throw followsChecked.sound
          trivial
      | succ calls =>
          apply safe_callClosure followsChecked.sound ((soundFunction function rfl).mono later.extends_store)
          · intro value member
            exact (soundValues value member).mono later.extends_store
          · exact sameNumber
          · intro inner inside soundInside modelsInside boundBody
            exact each_sound_of_bound soundBody soundInside modelsInside boundBody
  | native function =>
      apply Safe.bind (safe_checkArity followsCalled.sound)
      intro _ checked followsReady _
      apply Safe.bind (safe_tell _ followsReady.sound)
      intro _ told followsChecked _
      cases function with
      | clock =>
          have reads : readClock.Safe told (fun _ _ => True) :=
            ⟨⟨rfl, Store.Extends.refl _, followsChecked.sound⟩, trivial⟩
          apply Safe.bind reads
          intro reading after followsTold _
          exact safe_pure followsTold.sound (Value.sound_of_ne_closure (by simp) _)
  | _ =>
      apply safe_fault followsCalled.sound
      simp

/-- A declaration is executed soundly if its initializer is evaluated so. -/
theorem declaration_sound (sound : EvaluatesSoundly fuel) {name : Name}
    {initializer : Option (Expression Binding)} (soundStore : machine.store.Sound)
    (models : machine.store.Models machine.environment context)
    (bound : (Statement.declaration name initializer).Bound context) :
    (execute (fuel + 1) calls (.declaration name initializer)).Safe machine
      (fun _ after => after.store.Models after.environment (context.declare name.text)) := by
  have told {defined : Machine} (soundDefined : defined.store.Sound) (value : Value)
      (modelsDefined : defined.store.Models defined.environment (context.declare name.text)) :
      (tell (.declared name.text value)).Safe defined
        (fun _ after => after.store.Models after.environment (context.declare name.text)) :=
    (safe_tell _ soundDefined).imp fun _ _ follows _ => follows.models modelsDefined
  cases initializer with
  | none =>
      rw [execute]
      apply Safe.bind (safe_define name.text soundStore models (Value.sound_of_ne_closure (by simp) _))
      intro _ defined follows modelsDefined
      exact told follows.sound .nil modelsDefined
  | some initializer =>
      rw [execute]
      have inScope : context.waitingFor name.text ≠ none → context ≠ [] := by
        intro waits
        cases context with
        | nil => exact absurd rfl waits
        | cons innermost outer => simp
      apply Safe.bind (sound calls initializer context (context.waitingFor name.text) machine
        soundStore models inScope (bound.2 initializer rfl))
      intro value after follows soundValue
      apply Safe.bind (safe_define name.text follows.sound (follows.models models)
        (soundValue.mono (Store.extends_define _ _ _)))
      intro _ defined followsAfter modelsDefined
      exact told followsAfter.sound value modelsDefined

/-- A branch or a loop body, which declares nothing, is executed soundly in the context around it. -/
theorem branch_sound (soundBody : ExecutesSoundly fuel) {branch : Statement Binding}
    (soundStore : machine.store.Sound) (models : machine.store.Models machine.environment context)
    (bound : branch.isDeclaration = false ∧ branch.Bound context) :
    (execute fuel calls branch).Safe machine
      (fun _ after => after.store.Models after.environment context) := by
  have executes := soundBody calls branch context machine soundStore models bound.2
  rwa [Statement.contextBehind_of_plain bound.1] at executes

/-- A choice is executed soundly if its condition is evaluated and its branches are executed so. -/
theorem conditional_sound (sound : EvaluatesSoundly fuel) (soundBody : ExecutesSoundly fuel)
    {condition : Expression Binding} {thenBranch : Statement Binding}
    {elseBranch : Option (Statement Binding)} (soundStore : machine.store.Sound)
    (models : machine.store.Models machine.environment context)
    (bound : (Statement.conditional condition thenBranch elseBranch).Bound context) :
    (execute (fuel + 1) calls (.conditional condition thenBranch elseBranch)).Safe machine
      (fun _ after => after.store.Models after.environment context) := by
  rw [execute_conditional]
  have boundCondition : condition.Bound context none := by
    cases elseBranch <;> exact bound.1
  apply Safe.bind (sound calls condition context none machine soundStore models
    (fun some => absurd rfl some) boundCondition)
  intro value after follows _
  apply Safe.bind (safe_tell _ follows.sound)
  intro _ told followsAfter _
  have modelsTold := followsAfter.models (follows.models models)
  by_cases holds : value.isTruthy = true
  · rw [if_pos holds]
    have boundThen : thenBranch.isDeclaration = false ∧ thenBranch.Bound context := by
      cases elseBranch with
      | none => exact bound.2
      | some elseBranch => exact bound.2.1
    exact branch_sound soundBody followsAfter.sound modelsTold boundThen
  · rw [if_neg holds]
    cases elseBranch with
    | none => exact safe_pure followsAfter.sound modelsTold
    | some elseBranch => exact branch_sound soundBody followsAfter.sound modelsTold bound.2.2

/-- A loop is executed soundly if its condition is evaluated and its body is executed so, and so is the
loop behind one turn of it. -/
theorem loop_sound (sound : EvaluatesSoundly fuel) (soundBody : ExecutesSoundly fuel)
    {condition : Expression Binding} {body : Statement Binding} (soundStore : machine.store.Sound)
    (models : machine.store.Models machine.environment context)
    (bound : (Statement.loop condition body).Bound context) :
    (execute (fuel + 1) calls (.loop condition body)).Safe machine
      (fun _ after => after.store.Models after.environment context) := by
  rw [execute]
  apply Safe.bind (sound calls condition context none machine soundStore models
    (fun some => absurd rfl some) bound.1)
  intro value after follows _
  by_cases holds : value.isTruthy = true
  · rw [if_pos holds]
    apply Safe.bind (branch_sound soundBody follows.sound (follows.models models) bound.2)
    intro _ again followsAfter modelsAgain
    exact soundBody calls (.loop condition body) context again followsAfter.sound modelsAgain bound
  · rw [if_neg holds]
    exact safe_pure follows.sound (follows.models models)

end Items

theorem evaluate_sound_succ {fuel : Nat} (sound : EvaluatesSoundly fuel)
    (soundBody : ExecutesSoundly fuel) : EvaluatesSoundly (fuel + 1) := by
  intro calls expression context waiting machine soundStore models inScope bound
  cases expression with
  | constant value =>
      rw [evaluate]
      apply safe_pure soundStore
      apply Value.sound_of_ne_closure
      intro function
      cases value <;> simp [Constant.value]
  | grouping inner =>
      rw [evaluate]
      exact sound calls inner context waiting machine soundStore models inScope bound
  | «variable» name binding =>
      rw [evaluate]
      exact safe_readVariable soundStore models bound
  | assignment name binding value =>
      rw [evaluate]
      apply Safe.bind (sound calls value context waiting machine soundStore models inScope bound.1)
      intro result after follows soundResult
      apply Safe.bind (safe_writeVariable follows.sound (follows.models models) bound.2 inScope soundResult)
      intro _ written followsAfter _
      exact safe_pure followsAfter.sound (soundResult.mono followsAfter.extends_store)
  | unary operator line operand =>
      rw [evaluate]
      apply Safe.bind (sound calls operand context waiting machine soundStore models inScope bound)
      intro value after follows _
      have plain := operator.apply_plain value
      exact safe_ofOutcome follows.sound plain.1 plain.2
  | binary operator line left right =>
      rw [evaluate]
      apply Safe.bind (sound calls left context waiting machine soundStore models inScope bound.1)
      intro leftValue between follows _
      apply Safe.bind (sound calls right context waiting between follows.sound (follows.models models)
        inScope bound.2)
      intro rightValue after followsBetween _
      have plain := operator.apply_plain leftValue rightValue
      exact safe_ofOutcome followsBetween.sound plain.1 plain.2
  | logical operator line left right =>
      rw [evaluate]
      apply Safe.bind (sound calls left context waiting machine soundStore models inScope bound.1)
      intro leftValue between follows soundLeft
      by_cases decided : operator.isDecidedBy leftValue = true
      · rw [if_pos decided]
        exact safe_pure follows.sound soundLeft
      · rw [if_neg decided]
        exact sound calls right context waiting between follows.sound (follows.models models) inScope
          bound.2
  | call callee arguments line => exact call_sound sound soundBody soundStore models inScope bound

theorem execute_sound_succ {fuel : Nat} (sound : EvaluatesSoundly fuel)
    (soundBody : ExecutesSoundly fuel) : ExecutesSoundly (fuel + 1) := by
  intro calls statement context machine soundStore models bound
  have evaluates (value : Expression Binding) (boundValue : value.Bound context none) :=
    sound calls value context none machine soundStore models (fun some => absurd rfl some) boundValue
  cases statement with
  | expression value =>
      rw [execute]
      apply Safe.bind (evaluates value bound)
      intro result after follows _
      exact safe_pure follows.sound (follows.models models)
  | print value =>
      rw [execute]
      apply Safe.bind (evaluates value bound)
      intro result after follows _
      exact safe_modify _ follows.sound rfl rfl (follows.models models)
  | declaration name initializer => exact declaration_sound sound soundStore models bound
  | function name parameters body =>
      rw [execute]
      exact safe_defineFunction soundStore models bound.2.2
  | block items =>
      rw [execute]
      apply Safe.imp (safe_inBlock soundStore models fun inside soundInside modelsInside =>
        each_sound_of_bound soundBody soundInside modelsInside bound)
      intro _ after follows _
      exact follows.models models
  | conditional condition thenBranch elseBranch =>
      exact conditional_sound sound soundBody soundStore models bound
  | loop condition body => exact loop_sound sound soundBody soundStore models bound
  | returning line value =>
      cases value with
      | none =>
          rw [execute]
          apply safe_throw soundStore
          exact Value.sound_of_ne_closure (by simp) _
      | some value =>
          rw [execute]
          apply Safe.bind (evaluates value (bound value rfl))
          intro result after follows soundResult
          apply safe_throw follows.sound
          exact soundResult

/-- Expressions and statements that are bound run soundly, with any fuel. -/
theorem evaluate_and_execute_sound (fuel : Nat) : EvaluatesSoundly fuel ∧ ExecutesSoundly fuel := by
  induction fuel with
  | zero =>
      constructor
      · intro calls expression context waiting machine soundStore models inScope bound
        rw [evaluate]
        apply safe_throw soundStore
        trivial
      · intro calls statement context machine soundStore models bound
        rw [execute]
        apply safe_throw soundStore
        trivial
  | succ fuel inductionHypothesis =>
      have ⟨sound, soundBody⟩ := inductionHypothesis
      exact ⟨evaluate_sound_succ sound soundBody, execute_sound_succ sound soundBody⟩

end LoxInterpreter
