import LoxInterpreter.Proofs.Execution.Calls
import LoxInterpreter.Proofs.Scope.Declarative
import LoxInterpreter.Proofs.Scope.OwnInitializer
import LoxInterpreter.Proofs.Session.Globals
import LoxInterpreter.Proofs.Session.Rejection
import LoxInterpreter.Proofs.Session.References

/-!
Contract: what the name of a local variable means while its initializer is evaluated.

A read of the name reads a variable outside the innermost frame, and is refused before anything runs
where there is none. An assignment to it goes to the innermost frame, to the variable that is being
declared. The declaration then overwrites that variable, so that what was assigned is lost.

Owns: `Moment.PartOf`, `Moment.Sound.own_references`, and `own_initializer`.
Does not own: the bindings of programs that are not run (`Proofs.Scope.OwnInitializer`).
-/

namespace LoxInterpreter

/-- The references in what a run evaluates. -/
def Task.references : Task → List (Reference Binding)
  | .evaluate expression => expression.references
  | .evaluateAll expressions => Expression.listReferences expressions
  | .execute _ | .executeAll _ => []

/-- The reference that a task follows by itself. -/
def Task.followed? : Task → Option (Reference Binding)
  | .evaluate (.variable name binding) => some ⟨false, name, binding⟩
  | .evaluate (.assignment name binding _) => some ⟨true, name, binding⟩
  | _ => none

theorem Task.mem_references_of_followed {task : Task} {reference : Reference Binding}
    (follows : task.followed? = some reference) : reference ∈ task.references := by
  unfold Task.followed? at follows
  split at follows
  · cases follows
    exact List.mem_singleton.mpr rfl
  · cases follows
    exact List.mem_cons_self
  · cases follows

/-- What is defined in an environment is read in its innermost frame. -/
theorem Store.Models.readAt_define {store : Store Value} {environment : Environment}
    {context : Context} (models : store.Models environment context) (sound : store.Sound)
    (name : String) (content : Value) :
    (store.define environment name content).readAt environment 0 name = .ok content := by
  cases models with
  | globals =>
      unfold Store.readAt Store.define Machine.globalEnvironment
      simp [Store.frame_write_self sound.globals_made]
  | scope inner made contains behind =>
      unfold Store.readAt Store.define
      simp [Store.frame_write_self made]

namespace Moment

/-! ## Evaluating the parts of an expression -/

/-- Whether a moment evaluates no more than another, in the same environment. -/
structure PartOf (part whole : Moment) : Prop where
  evaluates : ¬ part.task.IsExecution
  environment : part.machine.environment = whole.machine.environment
  references : part.task.references ⊆ whole.task.references

theorem PartOf.trans {part middle whole : Moment} (inner : part.PartOf middle)
    (outer : middle.PartOf whole) : part.PartOf whole :=
  ⟨inner.evaluates, inner.environment.trans outer.environment,
    fun _ member => outer.references (inner.references member)⟩

section Parts

variable {fuel calls : Nat} {initializing : Option String} {machine : Machine} {next : Moment}

theorem partOf_expression {smaller : Nat} {part : Expression Binding} {whole : Task}
    {after : Machine} (same : after.environment = machine.environment)
    (references : part.references ⊆ whole.references) :
    PartOf ⟨smaller, calls, .evaluate part, initializing, after⟩
      ⟨fuel, calls, whole, initializing, machine⟩ :=
  ⟨id, same, references⟩

/-- From an expression a run turns to its parts, or to the body of a function. -/
theorem Stays.partOf_expression {expression : Expression Binding}
    (stays : Stays ⟨fuel + 1, calls, .evaluate expression, initializing, machine⟩ next) :
    next.PartOf ⟨fuel + 1, calls, .evaluate expression, initializing, machine⟩ := by
  have ⟨turns, elsewhere⟩ := stays
  cases expression with
  | constant | «variable» => exact turns.elim
  | grouping inner =>
      obtain rfl := turns
      exact Moment.partOf_expression rfl (List.Subset.refl _)
  | assignment name binding value =>
      obtain rfl := turns
      exact Moment.partOf_expression rfl (List.subset_cons_self _ _)
  | unary operator line operand =>
      obtain rfl := turns
      exact Moment.partOf_expression rfl (List.Subset.refl _)
  | binary operator line left right =>
      rcases turns with rfl | ⟨value, after, ends, rfl⟩
      · exact Moment.partOf_expression rfl (List.subset_append_left _ _)
      · have restored := (evaluate_restores fuel calls left machine).of_ok ends
        exact Moment.partOf_expression restored (List.subset_append_right _ _)
  | logical operator line left right =>
      rcases turns with rfl | ⟨value, after, ends, _, rfl⟩
      · exact Moment.partOf_expression rfl (List.subset_append_left _ _)
      · have restored := (evaluate_restores fuel calls left machine).of_ok ends
        exact Moment.partOf_expression restored (List.subset_append_right _ _)
  | call callee arguments line =>
      rcases turns with rfl | ⟨value, called, ends, rfl | entered⟩
      · exact Moment.partOf_expression rfl (List.subset_append_left _ _)
      · have restored := (evaluate_restores fuel calls callee machine).of_ok ends
        exact ⟨id, restored, List.subset_append_right _ _⟩
      · refine (elsewhere ⟨.inr ⟨value, called, ends, .inr entered⟩, ⟨_, rfl⟩, ?_⟩).elim
        obtain ⟨_, _, _, _, _, _, _, _, _, _, _, rfl⟩ := entered
        exact ⟨_, rfl⟩

/-- From several expressions a run turns to one of them, or to fewer. -/
theorem partOf_expressions {expressions : List (Expression Binding)}
    (turns : Turns ⟨fuel, calls, .evaluateAll expressions, initializing, machine⟩ next) :
    next.PartOf ⟨fuel, calls, .evaluateAll expressions, initializing, machine⟩ := by
  cases expressions with
  | nil => cases fuel <;> exact turns.elim
  | cons first rest =>
      have either : next = ⟨fuel, calls, .evaluate first, initializing, machine⟩ ∨
          ∃ value after, evaluate fuel calls first machine = .ok value after ∧
            next = ⟨fuel, calls, .evaluateAll rest, initializing, after⟩ := by
        cases fuel <;> exact turns
      rcases either with rfl | ⟨value, after, ends, rfl⟩
      · exact partOf_expression rfl (List.subset_append_left _ _)
      · have restored := (evaluate_restores fuel calls first machine).of_ok ends
        exact ⟨id, restored, List.subset_append_right _ _⟩

end Parts

theorem Stays.partOf {moment next : Moment} (stays : moment.Stays next)
    (evaluates : ¬ moment.task.IsExecution) : next.PartOf moment := by
  obtain ⟨fuel, calls, task, initializing, machine⟩ := moment
  cases task with
  | execute | executeAll => exact (evaluates trivial).elim
  | evaluateAll expressions => exact partOf_expressions stays.1
  | evaluate expression =>
      cases fuel with
      | zero => exact stays.1.elim
      | succ fuel => exact stays.partOf_expression

/-- What is evaluated inside the evaluation of an expression, outside the bodies that are entered from
there, is part of it. -/
theorem Within.partOf {moment part : Moment} (within' : moment.Within part)
    (evaluates : ¬ moment.task.IsExecution) : part.PartOf moment := by
  induction within' with
  | refl => exact ⟨evaluates, rfl, List.Subset.refl _⟩
  | tail _ stays inductionHypothesis =>
      exact (stays.partOf inductionHypothesis.evaluates).trans inductionHypothesis

/-! ## Evaluating an initializer -/

variable {fuel calls : Nat} {name : Name} {initializer : Expression Binding}
  {outside : Option String} {machine : Machine}

/-- In the initializer of a local variable all reads of its name mean one variable outside the innermost
frame, and all assignments to it the variable itself. -/
theorem Sound.own_references
    (sound : Sound ⟨fuel + 1, calls, .execute (.declaration name (some initializer)), outside, machine⟩)
    (inner : machine.isAtGlobals = false) :
    ∃ further, further ≠ .enclosing 0 ∧ ∀ reference ∈ initializer.references,
      reference.name.text = name.text →
        reference.known = if reference.isAssignment then .enclosing 0 else further := by
  obtain ⟨_, context, models, fresh, bound⟩ := sound
  have waits : some name.text = context.waitingFor name.text := by
    rw [← initializing_eq models, inner]
    rfl
  have inScope : context ≠ [] := by
    intro isTop
    rw [isTop] at waits
    cases waits
  have boundWaiting : initializer.Bound context (some name.text) := waits ▸ bound initializer rfl
  refine ⟨context.bindingOutside name.text, context.bindingOutside_ne_innermost name.text, ?_⟩
  intro reference member own
  exact Expression.own_references fresh inScope boundWaiting member own

/-- When a declaration of a local variable ends, the variable has the value of the initializer, whatever
was assigned to it before. -/
theorem Sound.declared_value
    (sound : Sound ⟨fuel + 1, calls, .execute (.declaration name (some initializer)), outside, machine⟩)
    {after : Machine}
    (ends : execute (fuel + 1) calls (.declaration name (some initializer)) machine = .ok () after) :
    ∃ value evaluated, evaluate fuel calls initializer machine = .ok value evaluated ∧
      after.store.readAt machine.environment 0 name.text = .ok value := by
  obtain ⟨soundStore, context, models, fresh, bound⟩ := sound
  rw [execute] at ends
  obtain ⟨value, evaluated, result, rest⟩ := Run.bind_eq_ok_iff.mp ends
  obtain ⟨_, defined, defines, told⟩ := Run.bind_eq_ok_iff.mp rest
  cases defines
  cases told
  refine ⟨value, evaluated, result, ?_⟩
  have restored := (evaluate_restores fuel calls initializer machine).of_ok result
  have inScope : (context.waitingFor name.text) ≠ none → context ≠ [] := by
    intro waits isTop
    rw [isTop] at waits
    exact waits rfl
  have follows := (evaluated_follows soundStore models inScope (bound initializer rfl) result).1
  rw [Machine.store_tell]
  show (evaluated.store.define evaluated.environment name.text value).readAt machine.environment 0
    name.text = .ok value
  rw [← restored]
  exact (follows.models models).readAt_define follows.sound name.text value

end Moment

/-! ## Refusal -/

/-- Between two programs a resolver is as it should be in front of a program. -/
theorem Resolver.Settled.describes {resolver : Resolver} (settled : resolver.Settled) :
    Place.top.Describes resolver.globals.names resolver := by
  refine ⟨settled.outside ▸ .nil, settled.inFunction, fun name => ?_⟩
  have listed : name ∈ resolver.globals.names ↔ resolver.globals.contains name = true :=
    Table.mem_names_iff
  have ready := settled.ready name
  unfold Table.contains at listed
  simp only [listed]
  cases found : resolver.globals.get? name with
  | none => simp [Place.top]
  | some isReady =>
      cases isReady with
      | true => simp
      | false => exact absurd found ready

/-- Between two programs a resolver refuses what has a mistake. -/
theorem Resolver.Settled.refuses_mistaken {resolver : Resolver} (settled : resolver.Settled)
    {program : List (Statement Unit)} (normal : Statement.listNormal program)
    {occurrence : Occurrence Unit} (member : occurrence ∈ Statement.listOccurrences .top program)
    (mistaken : occurrence.Mistaken resolver.globals.names) :
    ∃ mistake between, resolver.resolve program = (.error mistake, between) := by
  have isMistake : occurrence.mistake? resolver.globals.names = some occurrence.blame :=
    if_pos mistaken
  have isFound : ((Statement.listOccurrences .top program).findSome?
      (·.mistake? resolver.globals.names)).isSome = true :=
    List.findSome?_isSome_iff.mpr ⟨occurrence, member, by rw [isMistake]; rfl⟩
  have ⟨mistake, found⟩ := Option.isSome_iff_exists.mp isFound
  have meets := Resolving.meets_statements program normal settled.describes rfl
  unfold Resolving.Meets at meets
  rw [found] at meets
  cases ends : (Resolving.statements program).outcome resolver with
  | mk result between =>
      rw [ends] at meets
      cases meets
      exact ⟨mistake, between.recovered, resolve_eq_error_iff.mpr ⟨between, ends, rfl⟩⟩

namespace Session

/-! ## Sessions -/

/-- What the name of a local variable means in its own initializer. A program in which it is read there,
and means nothing further out, is refused. Otherwise each read means the nearest variable of that name
outside the innermost scope, and each assignment the variable that is being declared. So whenever a run
evaluates the initializer, its reads follow one binding further out, its assignments go to the innermost
frame, and when the declaration ends the value of the initializer stands there instead. -/
theorem own_initializer {session : Session} (reachable : session.Reachable) {source : Source}
    {program : List (Statement Unit)} (reads : source.read = .ok program) :
    (∀ occurrence ∈ Statement.listOccurrences .top program, ∀ reference,
      occurrence.RefersToOwn reference → reference.isAssignment = false →
      occurrence.place.UnknownOutside session.resolver.globals.names reference.name.text →
        session.Rejects source) ∧
    ∀ resolved resolver, session.resolver.resolve program = (.ok resolved, resolver) →
      (∀ occurrence ∈ Statement.listOccurrences .top resolved, ∀ reference,
        occurrence.RefersToOwn reference →
          reference.known = if reference.isAssignment then .enclosing 0
            else occurrence.place.scopes.bindingOutside reference.name.text) ∧
      ∀ fuel calls name initializer outside machine,
        Relation.ReflTransGen Moment.Turns (session.start source program resolver resolved)
          ⟨fuel + 1, calls, .execute (.declaration name (some initializer)), outside, machine⟩ →
        machine.isAtGlobals = false →
          (∃ further, further ≠ .enclosing 0 ∧ ∀ moment,
            Moment.Within ⟨fuel, calls, .evaluate initializer, some name.text, machine⟩ moment →
              moment.machine.environment = machine.environment ∧
              ∀ reference, moment.task.followed? = some reference →
                reference.name.text = name.text →
                  reference.known = if reference.isAssignment then .enclosing 0 else further) ∧
          ∀ after,
            execute (fuel + 1) calls (.declaration name (some initializer)) machine = .ok () after →
              ∃ value evaluated, evaluate fuel calls initializer machine = .ok value evaluated ∧
                after.store.readAt machine.environment 0 name.text = .ok value := by
  have sound := reachable.sound
  have normal := normal_of_read reads
  constructor
  · intro occurrence member reference own isRead unknown
    have initializing : occurrence.place.initializing = some reference.name.text :=
      Place.initializing_of_waiting own.2
    have mistaken : occurrence.Mistaken session.resolver.globals.names := by
      unfold Occurrence.Mistaken
      rw [own.1]
      exact ⟨isRead, initializing, unknown⟩
    have ⟨mistake, resolver, resolves⟩ := reachable.settled.refuses_mistaken normal member mistaken
    exact rejects_of_unresolved reads resolves
  · intro resolved resolver resolves
    have ⟨bound, _⟩ := Resolver.resolve_bound sound.outside normal resolves
    constructor
    · intro occurrence member reference own
      have isBound := Statement.listOccurrences_bound resolved rfl bound occurrence member
      have isFresh := Statement.listOccurrences_waitFresh resolved rfl bound occurrence member
      exact Occurrence.known_of_refersToOwn own isBound isFresh
    · intro fuel calls name initializer outside machine reached inner
      have soundThere := (sound.start source program resolver bound).reaches reached
      have ⟨further, isFurther, meaning⟩ := soundThere.own_references inner
      constructor
      · refine ⟨further, isFurther, fun moment within' => ?_⟩
        have part := within'.partOf id
        refine ⟨part.environment, fun reference follows own => ?_⟩
        have member := part.references (Task.mem_references_of_followed follows)
        exact meaning reference member own
      · intro after ends
        exact soundThere.declared_value ends

/-- A local variable that is read in its own initializer, inside a call: the read means the global. -/
theorem own_initializer_read_in_call :
    ∃ program resolved resolver,
      (Source.text "{ var clock = clock(clock); }").read = .ok program ∧
      (initial 9 0 fun _ => 0).resolver.resolve program = (.ok resolved, resolver) ∧
      ∀ occurrence ∈ Statement.listOccurrences .top resolved, ∀ reference,
        occurrence.RefersToOwn reference →
          reference.known = if reference.isAssignment then .enclosing 0
            else occurrence.place.scopes.bindingOutside reference.name.text := by
  have reads : (Source.text "{ var clock = clock(clock); }").read = .ok
      [.block [.declaration ⟨"clock", 1⟩
        (some (.call (.variable ⟨"clock", 1⟩ ()) [.variable ⟨"clock", 1⟩ ()] 1))]] := by decide +kernel
  have resolves : (initial 9 0 fun _ => 0).resolver.resolve
      [.block [.declaration ⟨"clock", 1⟩
        (some (.call (.variable ⟨"clock", 1⟩ ()) [.variable ⟨"clock", 1⟩ ()] 1))]] =
      (.ok [.block [.declaration ⟨"clock", 1⟩
        (some (.call (.variable ⟨"clock", 1⟩ .global) [.variable ⟨"clock", 1⟩ .global] 1))]],
        ⟨[], .ofNames true ["clock"], false, #[.global, .global]⟩) := rfl
  exact ⟨_, _, _, reads, resolves,
    ((own_initializer (.initial 9 0 _ _) reads).2 _ _ resolves).1⟩

/-- An assignment to a local variable in its own initializer is bound to the variable itself, though there
is a variable of that name further out, which keeps its value. -/
theorem own_initializer_assigned :
    ∃ program resolved resolver,
      (Source.text "var a = true; { var a = (a = false); } print a;").read = .ok program ∧
      (initial 9 0 fun _ => 0).resolver.resolve program = (.ok resolved, resolver) ∧
      (∃ occurrence ∈ Statement.listOccurrences .top resolved, ∃ reference,
        occurrence.RefersToOwn reference ∧ reference.known = .enclosing 0 ∧
          occurrence.place.scopes.bindingOutside reference.name.text = .global) ∧
      ((initial 9 0 fun _ => 0).run
        (.text "var a = true; { var a = (a = false); } print a;")).1 = ⟨"true\n", []⟩ := by
  have reads : (Source.text "var a = true; { var a = (a = false); } print a;").read = .ok
      [.declaration ⟨"a", 1⟩ (some (.constant (.boolean true))),
        .block [.declaration ⟨"a", 1⟩
          (some (.grouping (.assignment ⟨"a", 1⟩ () (.constant (.boolean false)))))],
        .print (.variable ⟨"a", 1⟩ ())] := by decide +kernel
  have resolves : (initial 9 0 fun _ => 0).resolver.resolve
      [.declaration ⟨"a", 1⟩ (some (.constant (.boolean true))),
        .block [.declaration ⟨"a", 1⟩
          (some (.grouping (.assignment ⟨"a", 1⟩ () (.constant (.boolean false)))))],
        .print (.variable ⟨"a", 1⟩ ())] =
      (.ok [.declaration ⟨"a", 1⟩ (some (.constant (.boolean true))),
        .block [.declaration ⟨"a", 1⟩
          (some (.grouping (.assignment ⟨"a", 1⟩ (.enclosing 0) (.constant (.boolean false)))))],
        .print (.variable ⟨"a", 1⟩ .global)],
        ⟨[], .ofNames true ["clock", "a"], false, #[.enclosing 0, .global]⟩) := rfl
  refine ⟨_, _, _, reads, resolves, ?_, by decide +kernel⟩
  refine ⟨⟨⟨[[]], ["a"], false, some "a"⟩, .refers ⟨true, ⟨"a", 1⟩, .enclosing 0⟩⟩, ?_, _,
    ⟨rfl, rfl⟩, rfl, rfl⟩
  simp [Statement.listOccurrences, Statement.occurrences, Statement.placeBehind, Place.top,
    Place.declare, Place.enterBlock, Place.inInitializer, Place.references,
    Expression.optionalReferences, Expression.references]

end Session

end LoxInterpreter
