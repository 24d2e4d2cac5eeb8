import Mathlib.Data.List.Forall2
import LoxInterpreter.Proofs.Execution.Ending
import LoxInterpreter.Proofs.Lexical.Memory

/-!
Contract: programs with resolved references do what names alone mean.

Two runs go on side by side, on machines that are alike in some layout. They end in the same way: with
related values or with the same signal, and on machines that are alike in a layout that grew. The laws
of this relation follow the ways in which actions are put together; evaluation is then compared form by
form, by induction on the fuel, which both evaluators use up alike.

Owns: `Layout.Simulates`, and `evaluate_and_execute_simulate`.
Does not own: whole programs (`Proofs.Lexical.Refinement`).
-/

namespace LoxInterpreter.Lexical

variable {α β γ δ : Type} {layout : Layout} {current : Option FrameId}
  {machine : LoxInterpreter.Machine} {other : Machine}

/-- Whether a machine has come from another in the same environment, while a layout grew. -/
structure Continues (current : Option FrameId) (layout : Layout) (machine : LoxInterpreter.Machine)
    (layout' : Layout) (after : LoxInterpreter.Machine) : Prop where
  environment_eq : after.environment = machine.environment
  size_le : machine.store.frames.size ≤ after.store.frames.size
  grows : layout.Grows layout' machine.store.frames.size current

/-- Whether two runs end early in the same way. -/
inductive Layout.SameSignal (layout : Layout) : LoxInterpreter.Signal → Signal → Prop where
  | returned {value : LoxInterpreter.Value} {value' : Value} (related : layout.Related value value') :
      SameSignal layout (.returned value) (.returned value')
  | fault (error : RuntimeError) : SameSignal layout (.fault error) (.fault error)
  | stackOverflow : SameSignal layout .stackOverflow .stackOverflow
  | outOfFuel : SameSignal layout .outOfFuel .outOfFuel

/-- Whether two runs end in the same way, on machines that are alike again. -/
inductive Layout.SameEnd (layout : Layout) (current : Option FrameId) (machine : LoxInterpreter.Machine)
    (good : Layout → LoxInterpreter.Machine → α → β → Prop) :
    EStateM.Result LoxInterpreter.Signal LoxInterpreter.Machine α →
      EStateM.Result Signal Machine β → Prop where
  | ok {layout' : Layout} {value : α} {value' : β} {after : LoxInterpreter.Machine} {after' : Machine}
      (continues : Continues current layout machine layout' after)
      (relates : layout'.Relates after after') (holds : good layout' after value value') :
      SameEnd layout current machine good (.ok value after) (.ok value' after')
  | error {layout' : Layout} {signal : LoxInterpreter.Signal} {signal' : Signal}
      {after : LoxInterpreter.Machine} {after' : Machine}
      (continues : Continues current layout machine layout' after)
      (relates : layout'.Relates after after') (same : layout'.SameSignal signal signal') :
      SameEnd layout current machine good (.error signal after) (.error signal' after')

/-- Whether two actions end in the same way when they start on two machines. -/
def Layout.Simulates (layout : Layout) (current : Option FrameId) (machine : LoxInterpreter.Machine)
    (other : Machine) (action : LoxInterpreter.Run α) (action' : Run β)
    (good : Layout → LoxInterpreter.Machine → α → β → Prop) : Prop :=
  layout.SameEnd current machine good (action machine) (action' other)

/-! ## Laws -/

theorem Continues.refl (current : Option FrameId) (layout : Layout) (machine : LoxInterpreter.Machine) :
    Continues current layout machine layout machine :=
  ⟨rfl, Nat.le_refl _, .refl layout _ current⟩

theorem Continues.trans {layout' layout'' : Layout} {between after : LoxInterpreter.Machine}
    (first : Continues current layout machine layout' between)
    (second : Continues current layout' between layout'' after) :
    Continues current layout machine layout'' after :=
  ⟨second.environment_eq.trans first.environment_eq, Nat.le_trans first.size_le second.size_le,
    first.grows.trans second.grows first.size_le⟩

/-- Telling an event changes nothing that matters here. -/
theorem Continues.tell {layout' : Layout} {after : LoxInterpreter.Machine}
    (continues : Continues current layout machine layout' after) (event : TraceEvent) :
    Continues current layout machine layout' (after.tell event) :=
  ⟨(after.environment_tell event).trans continues.environment_eq,
    (after.store_tell event).symm ▸ continues.size_le, continues.grows⟩

/-- Places still match on a machine that goes on. -/
theorem Continues.found {layout' : Layout} {after : LoxInterpreter.Machine} {context : Context}
    {scope : Scope} (continues : Continues current layout machine layout' after)
    (found : layout.Matches context machine.environment scope) :
    layout'.Matches context after.environment scope := by
  rw [continues.environment_eq]
  exact found.mono continues.grows.isPrefix

/-- Code stands where it stood when the slots of its frame are the same. -/
theorem Continues.stands {layout' : Layout} {after : LoxInterpreter.Machine} {context : Context}
    {scope : Scope} (continues : Continues none layout machine layout' after)
    (stands : layout.Stands machine.store.frames.size context machine.environment scope) :
    layout'.Stands after.store.frames.size context after.environment scope := by
  rw [continues.environment_eq]
  exact stands.mono continues.grows continues.size_le

namespace Layout

variable {good : Layout → LoxInterpreter.Machine → α → β → Prop}

/-- How a run ends may be seen from a machine before its start. -/
theorem SameEnd.rebase {base : LoxInterpreter.Machine} {layout₀ : Layout} {current₀ : Option FrameId}
    {result : EStateM.Result LoxInterpreter.Signal LoxInterpreter.Machine α}
    {result' : EStateM.Result Signal Machine β}
    (ends : layout.SameEnd current machine good result result')
    (earlier : ∀ layout' after, Continues current layout machine layout' after →
      Continues current₀ layout₀ base layout' after) :
    layout₀.SameEnd current₀ base good result result' := by
  cases ends with
  | ok continues relates holds => exact .ok (earlier _ _ continues) relates holds
  | error continues relates same => exact .error (earlier _ _ continues) relates same

namespace Simulates

theorem weaken {action : LoxInterpreter.Run α} {action' : Run β}
    (simulates : layout.Simulates none machine other action action' good) (current : Option FrameId) :
    layout.Simulates current machine other action action' good := by
  apply SameEnd.rebase simulates
  intro layout' after continues
  exact ⟨continues.environment_eq, continues.size_le, continues.grows.weaken current⟩

theorem imp {action : LoxInterpreter.Run α} {action' : Run β}
    {good' : Layout → LoxInterpreter.Machine → α → β → Prop}
    (simulates : layout.Simulates current machine other action action' good)
    (weaker : ∀ layout' after value value', Continues current layout machine layout' after →
      good layout' after value value' → good' layout' after value value') :
    layout.Simulates current machine other action action' good' := by
  unfold Simulates at simulates ⊢
  generalize action machine = result, action' other = result' at simulates ⊢
  cases simulates with
  | ok continues relates holds => exact .ok continues relates (weaker _ _ _ _ continues holds)
  | error continues relates same => exact .error continues relates same

theorem of_pure (relates : layout.Relates machine other) {value : α} {value' : β}
    (holds : good layout machine value value') :
    layout.Simulates current machine other (pure value) (pure value') good :=
  .ok (.refl current layout machine) relates holds

theorem of_throw (relates : layout.Relates machine other) {signal : LoxInterpreter.Signal}
    {signal' : Signal} (same : layout.SameSignal signal signal') :
    layout.Simulates current machine other (throw signal) (throw signal') good :=
  .error (.refl current layout machine) relates same

theorem bind {first : LoxInterpreter.Run α} {first' : Run β} {next : α → LoxInterpreter.Run γ}
    {next' : β → Run δ} {goodNext : Layout → LoxInterpreter.Machine → γ → δ → Prop}
    (simulates : layout.Simulates current machine other first first' good)
    (rest : ∀ layout' after after' value value', Continues current layout machine layout' after →
      layout'.Relates after after' → good layout' after value value' →
      layout'.Simulates current after after' (next value) (next' value') goodNext) :
    layout.Simulates current machine other (first >>= next) (first' >>= next') goodNext := by
  unfold Simulates at simulates ⊢
  rw [Run.bind_apply, Run.bind_apply]
  generalize first machine = result, first' other = result' at simulates ⊢
  cases simulates with
  | ok continues relates holds =>
      apply SameEnd.rebase (rest _ _ _ _ _ continues relates holds)
      intro layout'' final continues'
      exact continues.trans continues'
  | error continues relates same => exact .error continues relates same

/-- What follows an action that adds slots in new frames alone may add slots to the current one. -/
theorem bind_quiet {first : LoxInterpreter.Run α} {first' : Run β} {next : α → LoxInterpreter.Run γ}
    {next' : β → Run δ} {goodNext : Layout → LoxInterpreter.Machine → γ → δ → Prop}
    (simulates : layout.Simulates none machine other first first' good)
    (rest : ∀ layout' after after' value value', Continues none layout machine layout' after →
      layout'.Relates after after' → good layout' after value value' →
      layout'.Simulates current after after' (next value) (next' value') goodNext) :
    layout.Simulates current machine other (first >>= next) (first' >>= next') goodNext := by
  have noted : layout.Simulates none machine other first first' (fun layout' after value value' =>
      Continues none layout machine layout' after ∧ good layout' after value value') :=
    simulates.imp fun _ _ _ _ continues holds => ⟨continues, holds⟩
  apply (noted.weaken current).bind
  intro layout' after after' value value' _ relates both
  exact rest layout' after after' value value' both.1 relates both.2

/-- A step of the first run alone, which leaves a machine that is alike still. -/
theorem left {first : LoxInterpreter.Run γ} {next : γ → LoxInterpreter.Run α} {action' : Run β}
    {value : γ} {after : LoxInterpreter.Machine} (steps : first machine = .ok value after)
    (rest : layout.SameEnd current machine good (next value after) (action' other)) :
    layout.Simulates current machine other (first >>= next) action' good := by
  unfold Simulates
  rw [Run.bind_apply, steps]
  exact rest

/-- Both runs look at their machines. -/
theorem get_bind {next : LoxInterpreter.Machine → LoxInterpreter.Run α} {next' : Machine → Run β}
    (rest : layout.Simulates current machine other (next machine) (next' other) good) :
    layout.Simulates current machine other (get >>= next) (get >>= next') good :=
  rest

/-- The first run looks at its machine. -/
theorem get_bind_left {next : LoxInterpreter.Machine → LoxInterpreter.Run α} {action' : Run β}
    (rest : layout.Simulates current machine other (next machine) action' good) :
    layout.Simulates current machine other (get >>= next) action' good :=
  rest

/-- The first run tells an event before it goes on. -/
theorem tell_bind {event : TraceEvent} {next : Unit → LoxInterpreter.Run α} {action' : Run β}
    (rest : layout.Simulates current (machine.tell event) other (next ()) action' good) :
    layout.Simulates current machine other (LoxInterpreter.Run.tell event >>= next) action' good := by
  apply left (show LoxInterpreter.Run.tell event machine = .ok () (machine.tell event) from rfl)
  apply SameEnd.rebase rest
  intro layout' after continues
  have sameStore := machine.store_tell event
  exact ⟨continues.environment_eq.trans (machine.environment_tell event),
    sameStore ▸ continues.size_le, sameStore ▸ continues.grows⟩

/-- The second run goes on by giving another result. -/
theorem map_right {action : LoxInterpreter.Run α} {action' : Run β} {change : β → γ}
    {good' : Layout → LoxInterpreter.Machine → α → γ → Prop}
    (simulates : layout.Simulates current machine other action action' good)
    (weaker : ∀ layout' after value value', Continues current layout machine layout' after →
      good layout' after value value' → good' layout' after value (change value')) :
    layout.Simulates current machine other action (action' >>= fun value' => pure (change value'))
      good' := by
  unfold Simulates at simulates ⊢
  rw [Run.bind_apply]
  generalize action machine = result, action' other = result' at simulates ⊢
  cases simulates with
  | ok continues relates holds => exact .ok continues relates (weaker _ _ _ _ continues holds)
  | error continues relates same => exact .error continues relates same

theorem withEnvironment {environment : Environment} {action : LoxInterpreter.Run α} {action' : Run β}
    (simulates : layout.Simulates current { machine with environment := environment } other action
      action' (fun _ _ _ _ => True)) :
    layout.Simulates current machine other (LoxInterpreter.Run.withEnvironment environment action)
      action' (fun _ _ _ _ => True) := by
  unfold Simulates at simulates ⊢
  unfold LoxInterpreter.Run.withEnvironment
  generalize action { machine with environment := environment } = result, action' other = result'
    at simulates ⊢
  cases simulates with
  | ok continues relates holds =>
      exact .ok ⟨rfl, continues.size_le, continues.grows⟩ { relates with } trivial
  | error continues relates same =>
      exact .error ⟨rfl, continues.size_le, continues.grows⟩ { relates with } same

theorem catchReturn {body : LoxInterpreter.Run Unit} {body' : Run Scope}
    {good : Layout → LoxInterpreter.Machine → Unit → Scope → Prop}
    (simulates : layout.Simulates current machine other body body' good) :
    layout.Simulates current machine other (LoxInterpreter.Run.catchReturn body)
      (Run.catchReturn body') (fun layout' _ => layout'.Related) := by
  unfold Simulates at simulates ⊢
  unfold LoxInterpreter.Run.catchReturn Run.catchReturn
  generalize body machine = result, body' other = result' at simulates ⊢
  cases simulates with
  | ok continues relates holds => exact .ok continues relates .nil
  | error continues relates same =>
      cases same with
      | returned related => exact .ok continues relates related
      | fault error => exact .error continues relates (.fault error)
      | stackOverflow => exact .error continues relates .stackOverflow
      | outOfFuel => exact .error continues relates .outOfFuel

end Simulates

/-! ## Primitive actions -/

variable {context : Context} {environment : Environment} {scope : Scope}

theorem Relates.tell (relates : layout.Relates machine other) (event : TraceEvent) :
    layout.Relates (machine.tell event) other := by
  unfold LoxInterpreter.Machine.tell
  split
  · exact { relates with }
  · exact relates

/-- The first run makes a frame, and what it adds to it adds no slot to a frame that was there. -/
theorem Simulates.extend_bind {next : Environment → LoxInterpreter.Run α} {action' : Run β}
    (rest : layout.Simulates (some machine.store.frames.size)
      { machine with store := (machine.store.extend environment).2 } other
      (next (machine.store.frames.size :: environment)) action' good) :
    layout.Simulates current machine other (LoxInterpreter.Run.extend environment >>= next) action'
      good := by
  have steps : LoxInterpreter.Run.extend environment machine =
      .ok (machine.store.frames.size :: environment)
        { machine with store := (machine.store.extend environment).2 } := rfl
  apply Simulates.left steps
  apply SameEnd.rebase rest
  intro layout' after continues
  have more : machine.store.frames.size ≤ (machine.store.extend environment).2.frames.size := by
    rw [Store.size_extend]
    exact Nat.le_succ _
  exact ⟨continues.environment_eq, Nat.le_trans more continues.size_le,
    continues.grows.inside more (Nat.le_refl _) current⟩

/-- An event is told at the end of the first run. -/
theorem Simulates.behind_tell {action : LoxInterpreter.Run α} {action' : Run β} {event : TraceEvent}
    {good' : Layout → LoxInterpreter.Machine → Unit → β → Prop}
    (simulates : layout.Simulates current machine other action action' good)
    (weaker : ∀ layout' after value value', good layout' after value value' →
      good' layout' (after.tell event) () value') :
    layout.Simulates current machine other (action >>= fun _ => LoxInterpreter.Run.tell event) action'
      good' := by
  unfold Simulates at simulates ⊢
  rw [Run.bind_apply]
  generalize action machine = result, action' other = result' at simulates ⊢
  cases simulates with
  | error continues relates same => exact .error continues relates same
  | @ok _ value value' after after' continues relates holds =>
      exact .ok (continues.tell event) (relates.tell event) (weaker _ _ _ _ holds)

theorem fault_simulates (relates : layout.Relates machine other) (cause : RuntimeError.Cause)
    (token : Token) :
    layout.Simulates current machine other (LoxInterpreter.Run.fault cause token)
      (Run.fault cause token) good :=
  .of_throw relates (.fault _)

theorem ofOutcome_simulates (relates : layout.Relates machine other) {outcome : Outcome}
    {outcome' : Outcome Unit Scope} (same : SameOutcome outcome outcome') (token : Token) :
    layout.Simulates current machine other (LoxInterpreter.Run.ofOutcome outcome token)
      (Run.ofOutcome outcome' token) (fun layout' _ => layout'.Related) := by
  cases same with
  | ok same => exact .of_pure relates (same.imp fun _ _ impossible => impossible.elim)
  | error cause => exact fault_simulates relates cause token

theorem checkArity_simulates (relates : layout.Relates machine other) (expected given : Nat)
    (token : Token) :
    layout.Simulates current machine other (LoxInterpreter.Run.checkArity expected given token)
      (Run.checkArity expected given token) (fun _ _ _ _ => expected = given) := by
  unfold LoxInterpreter.Run.checkArity Run.checkArity
  by_cases same : expected = given
  · rw [if_pos same, if_pos same]
    exact .of_pure relates same
  · rw [if_neg same, if_neg same]
    exact fault_simulates relates _ token

theorem callNative_simulates (relates : layout.Relates machine other) (function : Native) :
    layout.Simulates current machine other (LoxInterpreter.Run.callNative function)
      (Run.callNative function) (fun layout' _ => layout'.Related) := by
  cases function with
  | clock =>
      have sameReading : other.clock other.clockReadings = machine.clock machine.clockReadings := by
        rw [relates.clock, relates.clockReadings]
      have relatesAfter : layout.Relates
          { machine with clockReadings := machine.clockReadings + 1 }
          { other with clockReadings := other.clockReadings + 1 } :=
        { relates with clockReadings := by rw [relates.clockReadings] }
      have continues : Continues current layout machine layout
          { machine with clockReadings := machine.clockReadings + 1 } :=
        ⟨rfl, Nat.le_refl _, .refl _ _ _⟩
      apply SameEnd.ok continues relatesAfter
      rw [sameReading]
      exact .number _

theorem print_simulates (relates : layout.Relates machine other) (text : String) :
    layout.Simulates current machine other (LoxInterpreter.Run.print text) (Run.print text)
      (fun _ _ _ _ => True) := by
  have relatesAfter : layout.Relates
      { machine with output := machine.output ++ text ++ "\n" }
      { other with output := other.output ++ text ++ "\n" } :=
    { relates with output := by rw [relates.output] }
  have continues : Continues current layout machine layout
      { machine with output := machine.output ++ text ++ "\n" } :=
    ⟨rfl, Nat.le_refl _, .refl _ _ _⟩
  exact .ok continues relatesAfter trivial

theorem newIdentity_simulates (relates : layout.Relates machine other) :
    layout.Simulates current machine other LoxInterpreter.Run.newIdentity Run.newIdentity
      (fun _ _ identity identity' => identity' = identity) := by
  have relatesAfter : layout.Relates
      { machine with functionCount := machine.functionCount + 1 }
      { other with functionCount := other.functionCount + 1 } :=
    { relates with functionCount := by rw [relates.functionCount] }
  have continues : Continues current layout machine layout
      { machine with functionCount := machine.functionCount + 1 } :=
    ⟨rfl, Nat.le_refl _, .refl _ _ _⟩
  exact .ok continues relatesAfter relates.functionCount

/-- A variable is read where its binding and where its name says. -/
theorem readVariable_simulates (relates : layout.Relates machine other)
    (found : layout.Matches context machine.environment scope) {name : Name} {binding : Binding}
    (bound : binding = context.binding name.text) :
    layout.Simulates current machine other (LoxInterpreter.Run.readVariable name binding)
      (Run.readVariable scope name) (fun layout' _ => layout'.Related) := by
  unfold LoxInterpreter.Run.readVariable Run.readVariable
  apply Simulates.get_bind
  cases binding with
  | enclosing distance =>
      have ⟨location, id, isLocation, isFrame, isSlot⟩ := found.enclosing bound.symm
      have ⟨value, isContent, related⟩ := relates.content location id name.text isSlot
      have reads : machine.store.readAt machine.environment distance name.text = .ok value := by
        unfold Store.readAt
        rw [isFrame]
        simp only [isContent]
      simp only [reads, isLocation]
      exact .of_pure relates related
  | global =>
      simp only [Store.lookup?_globals, found.global bound.symm]
      have same := relates.globals name.text
      unfold LoxInterpreter.Machine.globals at same
      generalize (machine.store.frame Machine.globalFrame).get? name.text = value?,
        other.globals.get? name.text = value'? at same ⊢
      cases same with
      | none => exact fault_simulates relates _ _
      | some related => exact .of_pure relates related

/-- A variable is changed where its binding and where its name says. -/
theorem writeVariable_simulates (relates : layout.Relates machine other)
    (found : layout.Matches context machine.environment scope) {name : Name} {binding : Binding}
    (bound : binding = context.binding name.text) {value : LoxInterpreter.Value} {value' : Value}
    (related : layout.Related value value') :
    layout.Simulates current machine other (LoxInterpreter.Run.writeVariable name binding value)
      (Run.writeVariable scope name value') (fun _ _ _ _ => True) := by
  unfold LoxInterpreter.Run.writeVariable Run.writeVariable
  cases binding with
  | enclosing distance =>
      have ⟨location, id, isLocation, isFrame, isSlot⟩ := found.enclosing bound.symm
      apply Simulates.get_bind
      simp only [isLocation, isFrame]
      apply SameEnd.ok _ (relates.write isSlot related) trivial
      exact ⟨rfl, by simp, .refl _ _ _⟩
  | global =>
      apply Simulates.get_bind
      simp only [found.global bound.symm]
      have same := relates.globals name.text
      have isHolder : machine.store.holder? Machine.globalEnvironment name.text =
          if other.globals.contains name.text then some Machine.globalFrame else none := by
        unfold LoxInterpreter.Machine.globals at same
        unfold Store.holder? Machine.globalEnvironment Table.contains
        generalize other.globals.get? name.text = value'? at same ⊢
        cases found : (machine.store.frame Machine.globalFrame).get? name.text with
        | none =>
            rw [found] at same
            cases same
            simp [found]
        | some value =>
            rw [found] at same
            cases same
            simp [found]
      rw [isHolder]
      by_cases present : other.globals.contains name.text = true
      · simp only [present, if_true]
        apply SameEnd.ok _ (relates.writeGlobal name.text related) trivial
        exact ⟨rfl, by simp, .refl _ _ _⟩
      · simp only [present]
        exact fault_simulates relates _ _

/-- A variable is declared where it is not yet: among the globals, in a slot that the frame of the
scope does not have, or in a slot of its own. -/
theorem declare_simulates (relates : layout.Relates machine other)
    (stands : layout.Stands machine.store.frames.size context environment scope) {name : String}
    (fresh : context.Fresh name) {value : LoxInterpreter.Value} {content : Scope → Value}
    (related : ∀ (layout' : Layout) (behind : Scope), layout <+: layout' →
      layout'.Matches (context.declare name) environment behind →
      layout'.Related value (content behind)) :
    layout.Simulates environment.head? machine other
      (LoxInterpreter.Run.defineIn environment name value) (Run.declare scope name content)
      (fun layout' after _ behind =>
        layout'.Stands after.store.frames.size (context.declare name) environment behind) := by
  cases stands with
  | outside =>
      have relatedHere := related layout .outside (List.prefix_refl _) .outside
      apply SameEnd.ok _ (relates.writeGlobal name relatedHere) .outside
      exact ⟨rfl, by simp, .refl _ _ _⟩
  | @within id enclosing names outer reachable inner made found slots =>
      have unused : (id, name) ∉ layout := fun member => fresh ((slots name).mp member)
      have foundBehind := found.declare name
      rw [← relates.used] at foundBehind
      have relatedThere := related _ _ (List.prefix_append layout [(id, name)]) foundBehind
      apply SameEnd.ok _ (relates.define inner made unused relatedThere)
      · apply Stands.within inner _ foundBehind
        · intro other
          rw [List.mem_append, slots other, List.mem_singleton, List.mem_cons, Prod.mk.injEq]
          constructor
          · intro either
            exact either.symm.imp_left And.right
          · intro either
            exact either.symm.imp_right fun same => ⟨rfl, same⟩
        · rw [show _ = machine.store.frames.size from Store.size_write id name value]
          exact made
      · exact ⟨rfl, by simp, .append (.inr rfl)⟩

/-- What code declares is declared in its own environment, and told. -/
theorem define_simulates (relates : layout.Relates machine other)
    (stands : layout.Stands machine.store.frames.size context machine.environment scope) {name : String}
    (fresh : context.Fresh name) {value : LoxInterpreter.Value} {content : Scope → Value}
    (related : ∀ (layout' : Layout) (behind : Scope), layout <+: layout' →
      layout'.Matches (context.declare name) machine.environment behind →
      layout'.Related value (content behind)) (event : TraceEvent) :
    layout.Simulates machine.environment.head? machine other
      (do
        LoxInterpreter.Run.define name value
        LoxInterpreter.Run.tell event)
      (Run.declare scope name content) (fun layout' after _ behind =>
        layout'.Stands after.store.frames.size (context.declare name) machine.environment behind) := by
  have defines : layout.Simulates machine.environment.head? machine other
      (LoxInterpreter.Run.define name value) (Run.declare scope name content) _ :=
    declare_simulates relates stands fresh related
  apply defines.behind_tell
  intro layout' after _ behind standsBehind
  rw [LoxInterpreter.Machine.store_tell]
  exact standsBehind

/-- Parameters are declared one after another, each with its argument. -/
theorem declareParameters_simulates {innermost : List String} {names : List Name}
    {values : List LoxInterpreter.Value} {values' : List Value}
    (relates : layout.Relates machine other)
    (stands : layout.Stands machine.store.frames.size (innermost :: context) environment scope)
    (distinct : (names.map Name.text).Nodup) (fresh : ∀ name ∈ names.map Name.text, name ∉ innermost)
    (related : List.Forall₂ layout.Related values values') (sameNumber : names.length = values.length) :
    layout.Simulates environment.head? machine other
      (LoxInterpreter.Run.defineParameters environment names values)
      (Run.declareParameters scope names values') (fun layout' after _ inside =>
        layout'.Stands after.store.frames.size
          (((names.map Name.text).reverse ++ innermost) :: context) environment inside) := by
  induction names generalizing layout machine other scope innermost values values' with
  | nil => exact .of_pure relates stands
  | cons name rest inductionHypothesis =>
      cases related with
      | nil => simp at sameNumber
      | @cons value value' others others' relatedFirst relatedOthers =>
          rw [List.map_cons, List.nodup_cons] at distinct
          have isFresh : name.text ∉ innermost := fresh name.text (by simp)
          unfold LoxInterpreter.Run.defineParameters Run.declareParameters
          apply Simulates.bind (declare_simulates relates stands isFresh
            fun layout' behind continues _ => relatedFirst.mono continues)
          intro layout' after after' _ behind continues relates' standsBehind
          have freshRest : ∀ other ∈ rest.map Name.text, other ∉ name.text :: innermost := by
            intro other member
            rw [List.mem_cons, not_or]
            refine ⟨fun same => distinct.1 (same ▸ member), ?_⟩
            exact fresh other (by simp [List.mem_map.mp member])
          have relatedRest : List.Forall₂ layout'.Related others others' :=
            relatedOthers.imp fun _ _ related => related.mono continues.grows.isPrefix
          have behindAll := inductionHypothesis relates' standsBehind distinct.2 freshRest relatedRest
            (by simpa using sameNumber)
          simpa using behindAll

end Layout

end LoxInterpreter.Lexical
