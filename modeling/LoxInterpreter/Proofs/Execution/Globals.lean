import LoxInterpreter.Proofs.Execution.Agreement
import LoxInterpreter.Proofs.Scope.Knowledge

/-!
Contract: which code can define a global.

A variable is defined in the innermost frame of an environment, and a distance leads to the frame of a
scope, while an assignment to a global finds the name it changes. So the only code that adds a name to
the globals is a declaration outside all scopes.

Owns: `Run.AddsNoGlobal`, and which globals a run of bound statements can add.
Does not own: what a resolver knows of the globals (`Proofs.Scope.Knowledge`).
-/

namespace LoxInterpreter

theorem Table.contains_of_set {Content : Type} {table : Table Content} {name other : String}
    {content : Content} (present : (table.set name content).contains other = true) :
    other = name ∨ table.contains other = true := by
  by_cases same : other = name
  · exact .inl same
  · unfold contains at present ⊢
    rw [get?_set_of_ne table same] at present
    exact .inr present

namespace Machine

/-- Whether a machine has no global that another one does not have. -/
def HasNoNewGlobal (after before : Machine) : Prop :=
  ∀ name, after.globals.contains name = true → before.globals.contains name = true

theorem HasNoNewGlobal.of_store_eq {after before : Machine} (same : after.store = before.store) :
    after.HasNoNewGlobal before := by
  intro name present
  unfold globals at present ⊢
  rwa [same] at present

theorem HasNoNewGlobal.trans {first second third : Machine} (later : third.HasNoNewGlobal second)
    (earlier : second.HasNoNewGlobal first) : third.HasNoNewGlobal first :=
  fun name present => earlier name (later name present)

end Machine

namespace Run

variable {α β : Type} {machine : Machine}

/-- Whether an action adds no name to the globals, however it ends. -/
def AddsNoGlobal (action : Run α) (machine : Machine) : Prop :=
  action.Ends machine (fun _ after => after.HasNoNewGlobal machine)
    (fun _ after => after.HasNoNewGlobal machine)

/-! ## Laws -/

theorem addsNoGlobal_pure (value : α) : (pure value : Run α).AddsNoGlobal machine :=
  Machine.HasNoNewGlobal.of_store_eq rfl

theorem addsNoGlobal_throw (signal : Signal) : (throw signal : Run α).AddsNoGlobal machine :=
  Machine.HasNoNewGlobal.of_store_eq rfl

theorem addsNoGlobal_get : (get : Run Machine).AddsNoGlobal machine :=
  Machine.HasNoNewGlobal.of_store_eq rfl

/-- A change of anything but the store. -/
theorem addsNoGlobal_modify (change : Machine → Machine)
    (same : (change machine).store = machine.store) :
    (modify change : Run Unit).AddsNoGlobal machine :=
  Machine.HasNoNewGlobal.of_store_eq same

theorem addsNoGlobal_tell (event : TraceEvent) : (tell event).AddsNoGlobal machine :=
  addsNoGlobal_modify (·.tell event) (machine.store_tell event)

theorem AddsNoGlobal.bind {first : Run α} {next : α → Run β} (adds : first.AddsNoGlobal machine)
    (rest : ∀ value after, first machine = .ok value after → (next value).AddsNoGlobal after) :
    (first >>= next).AddsNoGlobal machine := by
  unfold AddsNoGlobal
  rw [ends_bind_iff]
  unfold AddsNoGlobal Ends at adds
  unfold Ends
  cases ending : first machine with
  | error signal after =>
      rw [ending] at adds
      exact adds
  | ok value after =>
      rw [ending] at adds
      exact Ends.imp (rest value after ending) (fun _ _ last => last.trans adds)
        (fun _ _ last => last.trans adds)

/-- What goes on behind a safe action adds no global if it adds none wherever the action can have ended. -/
theorem AddsNoGlobal.behind {first : Run α} {next : α → Run β} {between : α → Machine → Prop}
    (adds : first.AddsNoGlobal machine) (safe : first.Safe machine between)
    (rest : ∀ value after, after.Follows machine → between value after →
      (next value).AddsNoGlobal after) :
    (first >>= next).AddsNoGlobal machine := by
  apply adds.bind
  intro value after ends
  obtain ⟨follows, holds⟩ := safe.of_ok ends
  exact rest value after follows holds

theorem AddsNoGlobal.withEnvironment {environment : Environment} {action : Run α}
    (adds : action.AddsNoGlobal { machine with environment := environment }) :
    (withEnvironment environment action).AddsNoGlobal machine := by
  unfold AddsNoGlobal
  rw [ends_withEnvironment_iff]
  exact adds

theorem AddsNoGlobal.catchReturn {body : Run Unit} (adds : body.AddsNoGlobal machine) :
    (catchReturn body).AddsNoGlobal machine := by
  unfold AddsNoGlobal
  rw [ends_catchReturn_iff]
  refine Ends.imp adds (fun _ _ last => last) (fun signal _ last => ?_)
  cases signal <;> exact last

theorem addsNoGlobal_fault (cause : RuntimeError.Cause) (token : Token) :
    (fault cause token : Run α).AddsNoGlobal machine :=
  addsNoGlobal_throw _

theorem addsNoGlobal_ofOutcome (outcome : Outcome) (token : Token) :
    (ofOutcome outcome token).AddsNoGlobal machine := by
  cases outcome with
  | ok value => exact addsNoGlobal_pure value
  | error cause => exact addsNoGlobal_fault cause token

theorem addsNoGlobal_checkArity (expected given : Nat) (token : Token) :
    (checkArity expected given token).AddsNoGlobal machine := by
  unfold checkArity
  split
  · exact addsNoGlobal_pure ()
  · exact addsNoGlobal_fault _ _

theorem addsNoGlobal_readVariable (name : Name) (binding : Binding) :
    (readVariable name binding).AddsNoGlobal machine := by
  apply addsNoGlobal_get.bind
  intro seen after _
  cases binding with
  | global =>
      dsimp only
      split
      · exact addsNoGlobal_pure _
      · exact addsNoGlobal_fault _ _
  | enclosing distance =>
      dsimp only
      split
      · exact addsNoGlobal_pure _
      · exact addsNoGlobal_throw _

/-- A write to a frame of a scope. -/
theorem addsNoGlobal_write {id : FrameId} (inner : id ≠ Machine.globalFrame) (name : String)
    (value : Value) : (write id name value).AddsNoGlobal machine := by
  intro other present
  unfold Machine.globals at present ⊢
  rwa [Store.frame_write_of_ne (Ne.symm inner)] at present

/-- A write to a global that there is already. -/
theorem addsNoGlobal_write_global {name : String} (known : machine.globals.contains name = true)
    (value : Value) : (write Machine.globalFrame name value).AddsNoGlobal machine := by
  intro other present
  unfold Machine.globals at present
  by_cases made : Machine.globalFrame < machine.store.frames.size
  · rw [Store.frame_write_self made] at present
    rcases Table.contains_of_set present with rfl | before
    · exact known
    · exact before
  · rw [Store.frame_write_of_le (Nat.not_lt.mp made)] at present
    exact present

theorem addsNoGlobal_writeVariable {context : Context} {waiting : Option String} {name : Name}
    {binding : Binding} {value : Value}
    (models : machine.store.Models machine.environment context)
    (bound : binding = context.assignedBinding waiting name.text)
    (inScope : waiting ≠ none → context ≠ []) :
    (writeVariable name binding value).AddsNoGlobal machine := by
  unfold writeVariable
  cases binding with
  | global =>
      apply addsNoGlobal_get.bind
      rintro _ _ ⟨rfl, rfl⟩
      cases present : machine.globals.contains name.text with
      | true =>
          have isGlobal : machine.store.holder? Machine.globalEnvironment name.text =
              some Machine.globalFrame := by
            simpa [Store.holder?, Machine.globalEnvironment, Machine.globals] using present
          rw [isGlobal]
          exact addsNoGlobal_write_global present value
      | false =>
          have isMissing : machine.store.holder? Machine.globalEnvironment name.text = none := by
            simpa [Store.holder?, Machine.globalEnvironment, Machine.globals] using present
          rw [isMissing]
          exact addsNoGlobal_fault _ _
  | enclosing distance =>
      obtain ⟨id, isFrame, inner, _⟩ := models.assigned bound.symm inScope
      apply addsNoGlobal_get.bind
      rintro _ _ ⟨rfl, rfl⟩
      rw [isFrame]
      exact addsNoGlobal_write inner name.text value

/-- A definition in an environment that begins with the frame of a scope. -/
theorem addsNoGlobal_defineIn {environment : Environment} {innermost : List String} {context : Context}
    (models : machine.store.Models environment (innermost :: context)) (name : String) (value : Value) :
    (defineIn environment name value).AddsNoGlobal machine := by
  cases models with
  | scope inner _ _ _ => exact addsNoGlobal_write inner name value

theorem addsNoGlobal_define {innermost : List String} {context : Context}
    (models : machine.store.Models machine.environment (innermost :: context)) (name : String)
    (value : Value) : (define name value).AddsNoGlobal machine :=
  addsNoGlobal_defineIn models name value

theorem addsNoGlobal_extend (environment : Environment) : (extend environment).AddsNoGlobal machine := by
  intro name present
  have same : (machine.store.extend environment).2.frame Machine.globalFrame =
      machine.store.frame Machine.globalFrame := Store.frame_extend environment Machine.globalFrame
  change ((machine.store.extend environment).2.frame Machine.globalFrame).contains name = true at present
  rwa [same] at present

theorem addsNoGlobal_defineParameters {environment : Environment} {innermost : List String}
    {context : Context} {names : List Name} {values : List Value} (sound : machine.store.Sound)
    (models : machine.store.Models environment (innermost :: context))
    (soundValues : ∀ value ∈ values, value.Sound machine.store) :
    (defineParameters environment names values).AddsNoGlobal machine := by
  induction names generalizing values machine innermost with
  | nil => exact addsNoGlobal_pure ()
  | cons name rest inductionHypothesis =>
      cases values with
      | nil => exact addsNoGlobal_pure ()
      | cons value others =>
          have soundValue := soundValues value List.mem_cons_self
          have defined : (defineIn environment name.text value).Safe machine (fun _ after =>
              after.store.Models environment ((name.text :: innermost) :: context)) :=
            ⟨⟨rfl, Store.extends_define environment name.text value,
              sound.define (soundValue.mono (Store.extends_define _ _ _))⟩,
              models.define name.text value⟩
          apply (addsNoGlobal_defineIn models name.text value).behind defined
          intro _ after follows modelsAfter
          apply inductionHypothesis follows.sound modelsAfter
          intro other member
          exact (soundValues other (List.mem_cons_of_mem _ member)).mono follows.extends_store

end Run

/-! ## Evaluation -/

/-- Whether expressions add no global with some fuel, wherever they are bound. -/
def EvaluatesAddingNoGlobal (fuel : Nat) : Prop :=
  ∀ (calls : Nat) (expression : Expression Binding) (context : Context) (waiting : Option String)
    (machine : Machine), machine.store.Sound → machine.store.Models machine.environment context →
    (waiting ≠ none → context ≠ []) → expression.Bound context waiting →
    (evaluate fuel calls expression).AddsNoGlobal machine

/-- Whether statements add no global with some fuel, wherever they are bound, unless they declare a
name outside all scopes. -/
def ExecutesAddingNoGlobal (fuel : Nat) : Prop :=
  ∀ (calls : Nat) (statement : Statement Binding) (context : Context) (machine : Machine),
    machine.store.Sound → machine.store.Models machine.environment context → statement.Bound context →
    (context = [] → statement.isDeclaration = false) →
    (execute fuel calls statement).AddsNoGlobal machine

open Run

section Items

variable {fuel calls : Nat} {context : Context} {waiting : Option String} {machine : Machine}

theorem EvaluatesAddingNoGlobal.bind {β : Type} (adds : EvaluatesAddingNoGlobal fuel)
    {expression : Expression Binding} {next : Value → Run β} (soundStore : machine.store.Sound)
    (models : machine.store.Models machine.environment context)
    (inScope : waiting ≠ none → context ≠ []) (bound : expression.Bound context waiting)
    (rest : ∀ value after, after.Follows machine → value.Sound after.store →
      (next value).AddsNoGlobal after) :
    (evaluate fuel calls expression >>= next).AddsNoGlobal machine := by
  have safe := (evaluate_and_execute_sound fuel).1 calls expression context waiting machine soundStore
    models inScope bound
  exact (adds calls expression context waiting machine soundStore models inScope bound).behind safe rest

theorem collect_addsNoGlobal (adds : EvaluatesAddingNoGlobal fuel)
    {arguments : List (Expression Binding)} (soundStore : machine.store.Sound)
    (models : machine.store.Models machine.environment context)
    (inScope : waiting ≠ none → context ≠ [])
    (bound : Expression.listBound context waiting arguments) :
    (collect (evaluate fuel calls) arguments).AddsNoGlobal machine := by
  induction arguments generalizing machine with
  | nil => exact addsNoGlobal_pure []
  | cons first rest inductionHypothesis =>
      apply adds.bind soundStore models inScope bound.1
      intro value after follows _
      apply (inductionHypothesis follows.sound (follows.models models) bound.2).bind
      intro values final _
      exact addsNoGlobal_pure _

/-- Statements inside a scope add no global. -/
theorem each_addsNoGlobal (adds : ExecutesAddingNoGlobal fuel) {innermost : List String}
    {statements : List (Statement Binding)} (soundStore : machine.store.Sound)
    (models : machine.store.Models machine.environment (innermost :: context))
    (bound : Statement.listBound (innermost :: context) statements) :
    (each (execute fuel calls) statements).AddsNoGlobal machine := by
  have sound := (evaluate_and_execute_sound fuel).2
  induction statements generalizing machine innermost with
  | nil => exact addsNoGlobal_pure ()
  | cons first rest inductionHypothesis =>
      apply (adds calls first _ machine soundStore models bound.1 (by simp)).behind
        (sound calls first _ machine soundStore models bound.1)
      intro _ after follows modelsAfter
      obtain ⟨names, isBehind⟩ : ∃ names, first.contextBehind (innermost :: context) = names :: context := by
        cases first <;> exact ⟨_, rfl⟩
      have boundRest := bound.2
      rw [isBehind] at modelsAfter boundRest
      exact inductionHypothesis follows.sound modelsAfter boundRest

theorem callClosure_addsNoGlobal (adds : ExecutesAddingNoGlobal fuel) {function : Closure}
    {arguments : List Value} (soundStore : machine.store.Sound)
    (soundFunction : function.Sound machine.store)
    (soundArguments : ∀ value ∈ arguments, value.Sound machine.store)
    (sameNumber : function.arity = arguments.length) :
    (callClosure function arguments (each (execute fuel calls) function.body)).AddsNoGlobal machine := by
  obtain ⟨inner, models, bound⟩ := soundFunction
  unfold callClosure
  apply (addsNoGlobal_extend _).behind (safe_extend function.environment soundStore models)
  intro environment extended follows modelsExtended
  have soundExtended : ∀ value ∈ arguments, value.Sound extended.store := fun value member =>
    (soundArguments value member).mono follows.extends_store
  apply (addsNoGlobal_defineParameters follows.sound modelsExtended soundExtended).behind
    (safe_defineParameters environment sameNumber follows.sound modelsExtended soundExtended)
  intro _ entered followsExtended modelsEntered
  rw [List.append_nil] at modelsEntered
  apply AddsNoGlobal.catchReturn
  apply AddsNoGlobal.withEnvironment
  exact each_addsNoGlobal adds followsExtended.sound modelsEntered bound

theorem call_addsNoGlobal (adds : EvaluatesAddingNoGlobal fuel)
    (addsBody : ExecutesAddingNoGlobal fuel) {callee : Expression Binding}
    {arguments : List (Expression Binding)} {line : Nat} (soundStore : machine.store.Sound)
    (models : machine.store.Models machine.environment context)
    (inScope : waiting ≠ none → context ≠ [])
    (bound : (Expression.call callee arguments line).Bound context waiting) :
    (evaluate (fuel + 1) calls (.call callee arguments line)).AddsNoGlobal machine := by
  have sound := (evaluate_and_execute_sound fuel).1
  rw [evaluate]
  apply adds.bind soundStore models inScope bound.1
  intro value called follows soundCallee
  apply (collect_addsNoGlobal adds follows.sound (follows.models models) inScope bound.2).behind
    (collect_sound sound follows.sound (follows.models models) inScope bound.2)
  intro values ready followsCalled soundValues
  cases value with
  | closure function =>
      apply (addsNoGlobal_checkArity _ _ _).behind (safe_checkArity followsCalled.sound)
      intro _ checked followsReady sameNumber
      apply (addsNoGlobal_tell _).behind (safe_tell _ followsReady.sound)
      intro _ told followsChecked _
      have later := followsChecked.trans followsReady
      cases calls with
      | zero => exact addsNoGlobal_throw _
      | succ calls =>
          apply callClosure_addsNoGlobal addsBody followsChecked.sound _ _ sameNumber
          · exact (soundCallee function rfl).mono (later.trans followsCalled).extends_store
          · exact fun value member => (soundValues value member).mono later.extends_store
  | native function =>
      apply (addsNoGlobal_checkArity _ _ _).bind
      intro _ checked _
      apply (addsNoGlobal_tell _).bind
      intro _ told _
      cases function with
      | clock => exact Machine.HasNoNewGlobal.of_store_eq rfl
  | nil | boolean | number | string => exact addsNoGlobal_fault _ _

/-- A declaration in a scope adds no global if its initializer adds none. -/
theorem declaration_addsNoGlobal (adds : EvaluatesAddingNoGlobal fuel) {innermost : List String}
    {name : Name} {initializer : Option (Expression Binding)} (soundStore : machine.store.Sound)
    (models : machine.store.Models machine.environment (innermost :: context))
    (bound : (Statement.declaration name initializer).Bound (innermost :: context)) :
    (execute (fuel + 1) calls (.declaration name initializer)).AddsNoGlobal machine := by
  cases initializer with
  | none =>
      rw [execute]
      apply (addsNoGlobal_define models name.text .nil).bind
      intro _ _ _
      exact addsNoGlobal_tell _
  | some initializer =>
      rw [execute]
      have inScope : Context.waitingFor (innermost :: context) name.text ≠ none →
          innermost :: context ≠ [] := by simp
      apply adds.bind soundStore models inScope (bound.2 initializer rfl)
      intro value after follows _
      apply (addsNoGlobal_define (follows.models models) name.text value).bind
      intro _ _ _
      exact addsNoGlobal_tell _

/-- A declaration of a function in a scope adds no global. -/
theorem defineFunction_addsNoGlobal {innermost : List String} {name : Name} {parameters : List Name}
    {body : List (Statement Binding)}
    (models : machine.store.Models machine.environment (innermost :: context)) :
    (defineFunction name parameters body).AddsNoGlobal machine := by
  have fresh : newIdentity.AddsNoGlobal machine := Machine.HasNoNewGlobal.of_store_eq rfl
  apply fresh.bind
  intro identity counted counts
  have modelsCounted : counted.store.Models counted.environment (innermost :: context) := by
    cases counts
    exact models
  apply addsNoGlobal_get.bind
  intro seen _ gets
  cases gets
  apply (addsNoGlobal_define modelsCounted name.text _).bind
  intro _ _ _
  exact addsNoGlobal_tell _

/-- A block adds no global if the statements in it add none. -/
theorem block_addsNoGlobal (addsBody : ExecutesAddingNoGlobal fuel) {items : List (Statement Binding)}
    (soundStore : machine.store.Sound) (models : machine.store.Models machine.environment context)
    (bound : (Statement.block items).Bound context) :
    (inBlock (each (execute fuel calls) items)).AddsNoGlobal machine := by
  apply addsNoGlobal_get.bind
  rintro _ _ ⟨rfl, rfl⟩
  apply (addsNoGlobal_extend _).behind (safe_extend machine.environment soundStore models)
  intro environment extended follows modelsExtended
  apply AddsNoGlobal.withEnvironment
  exact each_addsNoGlobal addsBody follows.sound modelsExtended bound

/-- A choice adds no global if neither its condition nor its branches add one. -/
theorem conditional_addsNoGlobal (adds : EvaluatesAddingNoGlobal fuel)
    (addsBody : ExecutesAddingNoGlobal fuel) {condition : Expression Binding}
    {thenBranch : Statement Binding} {elseBranch : Option (Statement Binding)}
    (soundStore : machine.store.Sound) (models : machine.store.Models machine.environment context)
    (bound : (Statement.conditional condition thenBranch elseBranch).Bound context) :
    (execute (fuel + 1) calls (.conditional condition thenBranch elseBranch)).AddsNoGlobal machine := by
  rw [execute_conditional]
  have boundCondition : condition.Bound context none := by
    cases elseBranch <;> exact bound.1
  apply adds.bind soundStore models (fun some => absurd rfl some) boundCondition
  intro value after follows _
  apply (addsNoGlobal_tell _).behind (safe_tell _ follows.sound)
  intro _ told followsAfter _
  have modelsTold := followsAfter.models (follows.models models)
  cases elseBranch with
  | none =>
      split
      · exact addsBody calls thenBranch context told followsAfter.sound modelsTold bound.2.2
          fun _ => bound.2.1
      · exact addsNoGlobal_pure ()
  | some elseBranch =>
      split
      · exact addsBody calls thenBranch context told followsAfter.sound modelsTold bound.2.1.2
          fun _ => bound.2.1.1
      · exact addsBody calls elseBranch context told followsAfter.sound modelsTold bound.2.2.2
          fun _ => bound.2.2.1

/-- A loop adds no global if neither its condition nor its body adds one. -/
theorem loop_addsNoGlobal (adds : EvaluatesAddingNoGlobal fuel)
    (addsBody : ExecutesAddingNoGlobal fuel) {condition : Expression Binding}
    {body : Statement Binding} (soundStore : machine.store.Sound)
    (models : machine.store.Models machine.environment context)
    (bound : (Statement.loop condition body).Bound context) :
    (execute (fuel + 1) calls (.loop condition body)).AddsNoGlobal machine := by
  rw [execute]
  apply adds.bind soundStore models (fun some => absurd rfl some) bound.1
  intro value after follows _
  have modelsAfter := follows.models models
  split
  · apply (addsBody calls body context after follows.sound modelsAfter bound.2.2 fun _ => bound.2.1).behind
      (branch_sound (evaluate_and_execute_sound fuel).2 follows.sound modelsAfter bound.2)
    intro _ again followsAfter modelsAgain
    exact addsBody calls (.loop condition body) context again followsAfter.sound modelsAgain bound
      fun _ => rfl
  · exact addsNoGlobal_pure ()

end Items

theorem evaluate_addsNoGlobal_succ {fuel : Nat} (adds : EvaluatesAddingNoGlobal fuel)
    (addsBody : ExecutesAddingNoGlobal fuel) : EvaluatesAddingNoGlobal (fuel + 1) := by
  intro calls expression context waiting machine soundStore models inScope bound
  cases expression with
  | constant value => exact addsNoGlobal_pure _
  | grouping inner => exact adds calls inner context waiting machine soundStore models inScope bound
  | «variable» name binding => exact addsNoGlobal_readVariable name binding
  | assignment name binding value =>
      rw [evaluate]
      apply adds.bind soundStore models inScope bound.1
      intro result after follows _
      apply (addsNoGlobal_writeVariable (follows.models models) bound.2 inScope).bind
      intro _ _ _
      exact addsNoGlobal_pure result
  | unary operator line operand =>
      rw [evaluate]
      have boundOperand : operand.Bound context waiting := bound
      apply adds.bind soundStore models inScope boundOperand
      intro value _ _ _
      exact addsNoGlobal_ofOutcome _ _
  | binary operator line left right =>
      rw [evaluate]
      apply adds.bind soundStore models inScope bound.1
      intro leftValue between follows _
      apply adds.bind follows.sound (follows.models models) inScope bound.2
      intro rightValue _ _ _
      exact addsNoGlobal_ofOutcome _ _
  | logical operator line left right =>
      rw [evaluate]
      apply adds.bind soundStore models inScope bound.1
      intro leftValue between follows _
      split
      · exact addsNoGlobal_pure leftValue
      · exact adds calls right context waiting between follows.sound (follows.models models) inScope
          bound.2
  | call callee arguments line => exact call_addsNoGlobal adds addsBody soundStore models inScope bound

theorem execute_addsNoGlobal_succ {fuel : Nat} (adds : EvaluatesAddingNoGlobal fuel)
    (addsBody : ExecutesAddingNoGlobal fuel) : ExecutesAddingNoGlobal (fuel + 1) := by
  intro calls statement context machine soundStore models bound place
  have nowhere : (none : Option String) ≠ none → context ≠ [] := fun some => absurd rfl some
  cases statement with
  | expression value =>
      rw [execute]
      apply adds.bind soundStore models nowhere bound
      intro _ _ _ _
      exact addsNoGlobal_pure ()
  | print value =>
      rw [execute]
      apply adds.bind soundStore models nowhere bound
      intro _ _ _ _
      exact addsNoGlobal_modify _ rfl
  | declaration name initializer =>
      cases context with
      | nil => cases place rfl
      | cons innermost outer => exact declaration_addsNoGlobal adds soundStore models bound
  | function name parameters body =>
      cases context with
      | nil => cases place rfl
      | cons innermost outer => exact defineFunction_addsNoGlobal models
  | block items => exact block_addsNoGlobal addsBody soundStore models bound
  | conditional condition thenBranch elseBranch =>
      exact conditional_addsNoGlobal adds addsBody soundStore models bound
  | loop condition body => exact loop_addsNoGlobal adds addsBody soundStore models bound
  | returning line value =>
      cases value with
      | none => exact addsNoGlobal_throw _
      | some value =>
          rw [execute]
          apply adds.bind soundStore models nowhere (bound value rfl)
          intro _ _ _ _
          exact addsNoGlobal_throw _

/-- Expressions and statements that are bound add no global, with any fuel; a declaration outside all
scopes apart. -/
theorem evaluate_and_execute_addNoGlobal (fuel : Nat) :
    EvaluatesAddingNoGlobal fuel ∧ ExecutesAddingNoGlobal fuel := by
  induction fuel with
  | zero =>
      constructor
      · intro calls expression context waiting machine _ _ _ _
        exact addsNoGlobal_throw _
      · intro calls statement context machine _ _ _ _
        exact addsNoGlobal_throw _
  | succ fuel inductionHypothesis =>
      obtain ⟨adds, addsBody⟩ := inductionHypothesis
      exact ⟨evaluate_addsNoGlobal_succ adds addsBody, execute_addsNoGlobal_succ adds addsBody⟩

/-! ## Programs -/

section Programs

variable {fuel calls : Nat} {machine after : Machine} {name : String}

/-- What is defined outside all scopes is a global of that name, and no other. -/
theorem globals_of_defined (atGlobals : machine.environment = Machine.globalEnvironment)
    {defined : String} {value : Value} {event : TraceEvent}
    (ends : (do define defined value; tell event) machine = .ok () after)
    (present : after.globals.contains name = true) :
    machine.globals.contains name = true ∨ defined = name := by
  obtain ⟨_, _, ⟨rfl, rfl⟩, ⟨rfl, rfl⟩⟩ := bind_eq_ok_iff.mp ends
  unfold Machine.globals at present
  rw [Machine.store_tell] at present
  dsimp only at present
  rw [atGlobals] at present
  change ((machine.store.write Machine.globalFrame defined value).frame Machine.globalFrame).contains
    name = true at present
  by_cases made : Machine.globalFrame < machine.store.frames.size
  · rw [Store.frame_write_self made] at present
    exact (Table.contains_of_set present).symm.imp_right Eq.symm
  · rw [Store.frame_write_of_le (Nat.not_lt.mp made)] at present
    exact .inl present

/-- Outside all scopes a statement adds at most the global that it declares. -/
theorem globals_of_executed {statement : Statement Binding} (soundStore : machine.store.Sound)
    (models : machine.store.Models machine.environment []) (bound : statement.Bound [])
    (ends : execute fuel calls statement machine = .ok () after)
    (present : after.globals.contains name = true) :
    machine.globals.contains name = true ∨ statement.declaredName? = some name := by
  have plainCase (plain : statement.isDeclaration = false) :
      machine.globals.contains name = true ∨ statement.declaredName? = some name :=
    .inl (((evaluate_and_execute_addNoGlobal fuel).2 calls statement [] machine soundStore models bound
      fun _ => plain).of_ok ends name present)
  have atGlobals : machine.environment = Machine.globalEnvironment := models.eq_globals
  cases fuel with
  | zero => cases ends
  | succ fuel =>
      cases statement with
      | declaration declared initializer =>
          cases initializer with
          | none =>
              rw [execute] at ends
              exact (globals_of_defined atGlobals ends present).imp_right (congrArg some)
          | some initializer =>
              rw [execute] at ends
              obtain ⟨value, between, evaluates, defines⟩ := bind_eq_ok_iff.mp ends
              have nowhere : Context.waitingFor [] declared.text ≠ none → ([] : Context) ≠ [] :=
                fun waits => absurd rfl waits
              have boundInitializer := bound.2 initializer rfl
              obtain ⟨follows, _⟩ := ((evaluate_and_execute_sound fuel).1 calls initializer [] _ machine
                soundStore models nowhere boundInitializer).of_ok evaluates
              have adds := ((evaluate_and_execute_addNoGlobal fuel).1 calls initializer [] _ machine
                soundStore models nowhere boundInitializer).of_ok evaluates
              rcases globals_of_defined (follows.environment_eq.trans atGlobals) defines present
                with before | same
              · exact .inl (adds name before)
              · exact .inr (congrArg some same)
      | function declared parameters body =>
          rw [execute] at ends
          obtain ⟨identity, counted, counts, rest⟩ := bind_eq_ok_iff.mp ends
          obtain ⟨seen, _, gets, defines⟩ := bind_eq_ok_iff.mp rest
          cases counts
          cases gets
          have there : ({ machine with functionCount := machine.functionCount + 1 } : Machine).environment =
              Machine.globalEnvironment := atGlobals
          exact (globals_of_defined there defines present).imp_right (congrArg some)
      | expression | print | block | conditional | loop | returning => exact plainCase rfl

/-- Statements outside all scopes add at most the globals that they declare. -/
theorem globals_of_each {statements : List (Statement Binding)} (soundStore : machine.store.Sound)
    (models : machine.store.Models machine.environment [])
    (bound : Statement.listBound [] statements)
    (ends : each (execute fuel calls) statements machine = .ok () after)
    (present : after.globals.contains name = true) :
    machine.globals.contains name = true ∨ name ∈ Statement.declaredNames statements := by
  induction statements generalizing machine with
  | nil =>
      cases ends
      exact .inl present
  | cons first rest inductionHypothesis =>
      obtain ⟨_, between, one, others⟩ := bind_eq_ok_iff.mp ends
      obtain ⟨follows, _⟩ := ((evaluate_and_execute_sound fuel).2 calls first [] machine soundStore models
        bound.1).of_ok one
      have boundRest := bound.2
      have stays : first.contextBehind [] = [] := by cases first <;> rfl
      rw [stays] at boundRest
      unfold Statement.declaredNames
      rw [List.mem_filterMap]
      rcases inductionHypothesis follows.sound (follows.models models) boundRest others with there | later
      · rcases globals_of_executed soundStore models bound.1 one there with before | declares
        · exact .inl before
        · exact .inr ⟨first, List.mem_cons_self, declares⟩
      · obtain ⟨statement, member, declares⟩ := List.mem_filterMap.mp later
        exact .inr ⟨statement, List.mem_cons_of_mem first member, declares⟩

end Programs

end LoxInterpreter
