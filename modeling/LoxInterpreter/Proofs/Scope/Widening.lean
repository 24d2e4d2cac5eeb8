import LoxInterpreter.Proofs.Scope.Hereditary
import LoxInterpreter.Proofs.Scope.Knowledge

/-!
Contract: a walk where more globals are known.

Globals are asked for in three places: where one is declared, where one is read, and where a local variable
is read in its own initializer. At each of them knowing more gives the same answer, or one where there was
none. So the walk comes through wherever it came through before, in the same way; and where it met a
mistake it decides what it decided up to there.

Owns: `Resolver.decisions`, `Resolver.Widened`, `Resolving.Steady`, and that all walks are steady.
Does not own: what is known behind several programs (`Proofs.Scope.History`).
-/

namespace LoxInterpreter

namespace Resolver

/-- What is decided for the references of a program, in the order of decision, up to its mistake if it has
one. -/
def decisions (resolver : Resolver) (program : List (Statement Unit)) : List Binding :=
  (resolver.resolve program).2.decided.toList.drop resolver.decided.toList.length

/-- Whether a resolver is another one with more globals known. Each has decided something in front of the
program, and since then both have decided the same. -/
structure Widened (front front' : List Binding) (narrow wide : Resolver) : Prop where
  scopes : narrow.scopes = wide.scopes
  inFunction : narrow.inFunction = wide.inFunction
  knows : ∀ name, narrow.Knows name → wide.Knows name
  waits : ∀ name, wide.globals.get? name = some false → narrow.globals.get? name = some false
  decided : ∃ made, narrow.decided.toList = front ++ made ∧ wide.decided.toList = front' ++ made

namespace Widened

variable {front front' : List Binding} {narrow wide : Resolver}

/-- What can be read can be read where more is known, with the same binding. -/
theorem readBinding?_eq_some (widened : Widened front front' narrow wide) {name : String}
    {binding : Binding} (readable : narrow.readBinding? name = some binding) :
    wide.readBinding? name = some binding := by
  unfold readBinding? at readable ⊢
  rw [← widened.scopes]
  revert readable
  cases narrow.scopes with
  | nil =>
      dsimp only
      by_cases waits : narrow.globals.get? name = some false
      · rw [if_pos waits]
        intro readable
        cases readable
      · rw [if_neg waits, if_neg fun waiting => waits (widened.waits name waiting)]
        exact id
  | cons innermost outer =>
      dsimp only
      split
      · cases distance? outer name with
        | some distance => exact id
        | none =>
            intro readable
            have ⟨known, isGlobal⟩ := Option.ite_none_right_eq_some.mp readable
            exact Option.ite_none_right_eq_some.mpr ⟨widened.knows name known, isGlobal⟩
      · exact id

theorem decide (widened : Widened front front' narrow wide) (binding : Binding) :
    Widened front front' (narrow.decide binding) (wide.decide binding) := by
  have ⟨made, decided, decided'⟩ := widened.decided
  refine ⟨widened.scopes, widened.inFunction, widened.knows, widened.waits, made ++ [binding], ?_, ?_⟩
  · simp [Resolver.decide, decided]
  · simp [Resolver.decide, decided']

theorem setScopes (widened : Widened front front' narrow wide) (scopes : List Scope) :
    Widened front front' { narrow with scopes := scopes } { wide with scopes := scopes } :=
  ⟨rfl, widened.inFunction, widened.knows, widened.waits, widened.decided⟩

theorem setInFunction (widened : Widened front front' narrow wide) (inFunction : Bool) :
    Widened front front' { narrow with inFunction := inFunction }
      { wide with inFunction := inFunction } :=
  ⟨widened.scopes, rfl, widened.knows, widened.waits, widened.decided⟩

theorem enterScope (widened : Widened front front' narrow wide) :
    Widened front front' narrow.enterScope wide.enterScope := by
  unfold Resolver.enterScope
  rw [widened.scopes]
  exact widened.setScopes _

theorem leaveScope (widened : Widened front front' narrow wide) :
    Widened front front' narrow.leaveScope wide.leaveScope := by
  unfold Resolver.leaveScope
  rw [widened.scopes]
  exact widened.setScopes _

/-- A global that waits for its initializer is not known, so it may be known where more is. -/
theorem setWaiting (widened : Widened front front' narrow wide) (name : String) :
    Widened front front' { narrow with globals := narrow.globals.set name false } wide := by
  refine ⟨widened.scopes, widened.inFunction, fun other => ?_, fun other => ?_, widened.decided⟩
  · unfold Knows
    rw [Table.get?_set]
    split
    · exact nofun
    · exact widened.knows other
  · dsimp only
    rw [Table.get?_set]
    split
    · exact fun _ => rfl
    · exact widened.waits other

theorem setGlobal (widened : Widened front front' narrow wide) (name : String) (ready : Bool) :
    Widened front front' { narrow with globals := narrow.globals.set name ready }
      { wide with globals := wide.globals.set name ready } := by
  refine ⟨widened.scopes, widened.inFunction, fun other => ?_, fun other => ?_, widened.decided⟩
  · unfold Knows
    rw [Table.get?_set, Table.get?_set]
    split
    · exact id
    · exact widened.knows other
  · dsimp only
    rw [Table.get?_set, Table.get?_set]
    split
    · exact id
    · exact widened.waits other

theorem define (widened : Widened front front' narrow wide) (name : String) :
    Widened front front' (narrow.define name) (wide.define name) := by
  cases scopes : narrow.scopes with
  | nil =>
      rw [define_outside_eq scopes, define_outside_eq (widened.scopes ▸ scopes)]
      exact widened.setGlobal name true
  | cons innermost outer =>
      rw [define_inside_eq scopes, define_inside_eq (widened.scopes ▸ scopes)]
      exact widened.setScopes _

/-- A name that can be declared can be declared where more is known. -/
theorem declare?_eq_some (widened : Widened front front' narrow wide) {name : String}
    {declared : Resolver} (declares : narrow.declare? name = some declared) :
    ∃ declared', wide.declare? name = some declared' ∧ Widened front front' declared declared' := by
  cases scopes : narrow.scopes with
  | nil =>
      rw [declare?_outside_eq scopes] at declares
      rw [declare?_outside_eq (widened.scopes ▸ scopes)]
      by_cases known : wide.globals.get? name = some true
      · rw [if_pos known]
        split at declares
        · cases declares
          exact ⟨wide, rfl, widened⟩
        · cases declares
          exact ⟨wide, rfl, widened.setWaiting name⟩
      · have unknown : ¬ narrow.globals.get? name = some true := fun knownBefore =>
          known (widened.knows name knownBefore)
        rw [if_neg unknown] at declares
        cases declares
        rw [if_neg known]
        exact ⟨_, rfl, widened.setGlobal name false⟩
  | cons innermost outer =>
      rw [declare?_inside_eq scopes] at declares
      rw [declare?_inside_eq (widened.scopes ▸ scopes)]
      have ⟨fresh, isDeclared⟩ := Option.ite_none_left_eq_some.mp declares
      cases isDeclared
      exact ⟨_, if_neg fresh, widened.setScopes _⟩

end Widened

end Resolver

namespace Resolving

variable {α β : Type} {front front' : List Binding} {narrow wide : Resolver}

/-- Whether the second of two ends of a walk comes as far as the first. It gives what the first gives; and
where the first met a mistake, what was decided there is decided. -/
def ComesAsFar (front front' : List Binding) (first second : Except ScopeError α × Resolver) : Prop :=
  match first with
  | (.ok value, after) => ∃ after', second = (.ok value, after') ∧ Resolver.Widened front front' after after'
  | (.error _, after) => ∃ made, after.decided.toList = front ++ made ∧
      front' ++ made <+: second.2.decided.toList

theorem ComesAsFar.decided {first second : Except ScopeError α × Resolver}
    (asFar : ComesAsFar front front' first second) :
    ∃ made, first.2.decided.toList = front ++ made ∧ front' ++ made <+: second.2.decided.toList := by
  obtain ⟨result, after⟩ := first
  cases result with
  | ok value =>
      have ⟨after', ends, widened⟩ := asFar
      have ⟨made, decided, decided'⟩ := widened.decided
      rw [ends]
      exact ⟨made, decided, decided' ▸ List.prefix_rfl⟩
  | error mistake => exact asFar

/-- Whether a walk adds to what was decided, and comes as far where more globals are known. -/
structure Steady (walk : Resolving α) : Prop where
  adds : Leaves (fun before after => before.decided.toList <+: after.decided.toList) walk
  comesAsFar : ∀ {front front' narrow wide}, Resolver.Widened front front' narrow wide →
    ComesAsFar front front' (walk.outcome narrow) (walk.outcome wide)

/-! ## Laws -/

theorem declare?_decided {resolver declared : Resolver} {name : String}
    (declares : resolver.declare? name = some declared) : declared.decided = resolver.decided := by
  unfold Resolver.declare? at declares
  split at declares <;> split at declares <;> cases declares <;> rfl

theorem adds_steps :
    StatementSteps fun before after => before.decided.toList <+: after.decided.toList where
  refl _ := List.prefix_rfl
  trans := List.IsPrefix.trans
  decide resolver binding := ⟨[binding], by simp [Resolver.decide]⟩
  declare declares := declare?_decided declares ▸ List.prefix_rfl
  define resolver name := by
    unfold Resolver.define
    split <;> exact List.prefix_rfl
  setScopes _ _ := List.prefix_rfl
  setInFunction _ _ := List.prefix_rfl

/-- A walk that meets a mistake at once has decided what was decided in front of it. -/
theorem comesAsFar_of_stop {first second : Except ScopeError α × Resolver} {mistake : ScopeError}
    (widened : Resolver.Widened front front' narrow wide) (stops : first = (.error mistake, narrow))
    (adds : wide.decided.toList <+: second.2.decided.toList) : ComesAsFar front front' first second := by
  have ⟨made, decided, decided'⟩ := widened.decided
  rw [stops]
  exact ⟨made, decided, decided' ▸ adds⟩

theorem steady_pure (value : α) : (pure value : Resolving α).Steady where
  adds := adds_steps.leaves_pure value
  comesAsFar widened := ⟨_, rfl, widened⟩

theorem steady_stop (cause : ScopeError.Cause) (token : Token) :
    (stop cause token : Resolving α).Steady where
  adds := adds_steps.leaves_stop cause token
  comesAsFar widened := comesAsFar_of_stop widened rfl List.prefix_rfl

theorem steady_modify {change : Resolver → Resolver}
    (adds : ∀ before, before.decided.toList <+: (change before).decided.toList)
    (keeps : ∀ {front front' narrow wide}, Resolver.Widened front front' narrow wide →
      Resolver.Widened front front' (change narrow) (change wide)) :
    (modify change : Resolving Unit).Steady where
  adds := adds
  comesAsFar widened := ⟨_, rfl, keeps widened⟩

theorem Steady.bind {first : Resolving α} {next : α → Resolving β} (steady : first.Steady)
    (rest : ∀ value, (next value).Steady) : (first >>= next).Steady := by
  -- Whatever the first walk decides stays decided behind the second.
  have adds before : (first.outcome before).2.decided.toList <+:
      ((first >>= next).outcome before).2.decided.toList := by
    rw [outcome_bind]
    cases first.outcome before with
    | mk result between =>
        cases result with
        | ok value => exact (rest value).adds between
        | error mistake => exact List.prefix_rfl
  refine ⟨adds_steps.leaves_bind steady.adds fun value => (rest value).adds, ?_⟩
  intro front front' narrow wide widened
  have asFar := steady.comesAsFar widened
  have addsWide := adds wide
  unfold ComesAsFar
  rw [outcome_bind first next narrow]
  revert asFar
  cases first.outcome narrow with
  | mk result between =>
      cases result with
      | ok value =>
          intro ⟨between', ends, stillWidened⟩
          rw [outcome_bind, ends]
          exact (rest value).comesAsFar stillWidened
      | error mistake =>
          intro ⟨made, decided, decided'⟩
          exact ⟨made, decided, decided'.trans addsWide⟩

theorem steady_get_bind {next : Resolver → Resolving β} (rest : ∀ seen, (next seen).Steady)
    (keeps : ∀ {front front' narrow wide}, Resolver.Widened front front' narrow wide →
      ComesAsFar front front' ((next narrow).outcome narrow) ((next wide).outcome wide)) :
    (get >>= next).Steady where
  adds := leaves_get_bind fun seen => (rest seen).adds
  comesAsFar widened := by
    rw [outcome_get_bind, outcome_get_bind]
    exact keeps widened

theorem steady_decide (binding : Binding) : (decide binding).Steady := by
  apply (steady_modify (fun before => adds_steps.decide before binding) fun widened =>
    widened.decide binding).bind
  exact fun _ => steady_pure binding

theorem steady_readReference (name : Name) : (readReference name).Steady := by
  refine ⟨adds_steps.leaves_readReference name, fun {front front' narrow wide} widened => ?_⟩
  cases readable : narrow.readBinding? name.text with
  | some binding =>
      have reads : (readReference name).Gives narrow binding (narrow.decide binding) :=
        gives_readReference_iff.mpr ⟨readable, rfl⟩
      have readsWide : (readReference name).Gives wide binding (wide.decide binding) :=
        gives_readReference_iff.mpr ⟨widened.readBinding?_eq_some readable, rfl⟩
      rw [show (readReference name).outcome narrow = _ from reads]
      exact ⟨_, readsWide, widened.decide binding⟩
  | none =>
      have stops : (readReference name).outcome narrow =
          (.error ⟨.readInOwnInitializer, name.token⟩, narrow) := by
        unfold readReference
        rw [outcome_get_bind, readable]
        rfl
      exact comesAsFar_of_stop widened stops (adds_steps.leaves_readReference name wide)

theorem steady_assignedReference (name : Name) : (assignedReference name).Steady := by
  refine steady_get_bind (fun _ => steady_decide _) fun widened => ?_
  rw [widened.scopes]
  exact (steady_decide _).comesAsFar widened

theorem steady_declare (name : Name) : (declare name).Steady := by
  refine ⟨adds_steps.leaves_declare name, fun {front front' narrow wide} widened => ?_⟩
  have addsWide := adds_steps.leaves_declare name wide
  rw [declare_outcome name narrow]
  cases declares : narrow.declare? name.text with
  | some declared =>
      have ⟨declared', declares', stillWidened⟩ := widened.declare?_eq_some declares
      exact ⟨declared', gives_declare_iff.mpr declares', stillWidened⟩
  | none => exact comesAsFar_of_stop widened rfl addsWide

theorem steady_define (name : Name) : (define name).Steady :=
  steady_modify (fun before => adds_steps.define before name.text) fun widened => widened.define name.text

theorem Steady.inScope {walk : Resolving α} (steady : walk.Steady) : (inScope walk).Steady := by
  have entering : (modify Resolver.enterScope : Resolving Unit).Steady :=
    steady_modify (fun _ => List.prefix_rfl) fun widened => widened.enterScope
  have leaving : (modify Resolver.leaveScope : Resolving Unit).Steady :=
    steady_modify (fun _ => List.prefix_rfl) fun widened => widened.leaveScope
  apply entering.bind
  intro _
  exact steady.bind fun result => leaving.bind fun _ => steady_pure result

theorem Steady.inBody {walk : Resolving α} (steady : walk.Steady) : (inBody walk).Steady := by
  have setting (inFunction : Bool) :
      (modify fun resolver => { resolver with inFunction := inFunction } : Resolving Unit).Steady :=
    steady_modify (fun _ => List.prefix_rfl) fun widened => widened.setInFunction inFunction
  have body (enclosing : Bool) := (setting true).bind fun _ => steady.inScope.bind fun result =>
    (setting enclosing).bind fun _ => steady_pure result
  refine steady_get_bind (fun seen => body seen.inFunction) fun {front front' narrow wide} widened => ?_
  rw [widened.inFunction]
  exact (body wide.inFunction).comesAsFar widened

theorem Steady.insideFunction {walk : Resolving α} (token : Token) (steady : walk.Steady) :
    Steady (do
      unless (← get).inFunction do
        stop .returnOutsideFunction token
      walk) := by
  have asks (inFunction : Bool) : Steady (do
      unless inFunction do
        stop .returnOutsideFunction token
      walk) := by
    cases inFunction with
    | true => exact steady
    | false => exact (steady_stop _ _).bind fun _ => steady
  refine steady_get_bind (fun seen => asks seen.inFunction) fun {front front' narrow wide} widened => ?_
  rw [widened.inFunction]
  exact (asks wide.inFunction).comesAsFar widened

/-- All walks are steady. -/
theorem steady_laws : StatementLaws @Steady where
  pure := steady_pure
  bind := Steady.bind
  readReference := steady_readReference
  assignedReference := steady_assignedReference
  declare := steady_declare
  define := steady_define
  inScope := Steady.inScope
  inBody := Steady.inBody
  insideFunction := Steady.insideFunction

end Resolving

/-! ## Programs -/

namespace Resolver

variable {narrow wide : Resolver} {front front' : List Binding} {program : List (Statement Unit)}

/-- What was decided when a mistake was met stays decided. -/
theorem decided_resolve_eq (resolver : Resolver) (program : List (Statement Unit)) :
    (resolver.resolve program).2.decided =
      ((Resolving.statements program).outcome resolver).2.decided := by
  unfold resolve Resolving.outcome
  cases (Resolving.statements program).run.run resolver with
  | mk result between => cases result <;> rfl

/-- Resolving a program adds its decisions to those made before. -/
theorem decided_resolve (resolver : Resolver) (program : List (Statement Unit)) :
    (resolver.resolve program).2.decided.toList =
      resolver.decided.toList ++ resolver.decisions program := by
  have adds : resolver.decided.toList <+:
      ((Resolving.statements program).outcome resolver).2.decided.toList :=
    Resolving.adds_steps.laws.statements program resolver
  rw [← decided_resolve_eq] at adds
  exact (List.prefix_iff_eq_append.mp adds).symm

namespace Widened

/-- A program that is accepted is accepted where more globals are known, with the same bindings. -/
theorem resolve_eq_ok (widened : Widened front front' narrow wide) {resolved : List (Statement Binding)}
    (accepts : (narrow.resolve program).1 = .ok resolved) : (wide.resolve program).1 = .ok resolved := by
  have gives := resolve_eq_ok_iff.mp (Prod.ext accepts rfl)
  have asFar := (Resolving.steady_laws.statements program).comesAsFar widened
  rw [show (Resolving.statements program).outcome narrow = _ from gives] at asFar
  have ⟨after', gives', _⟩ := asFar
  rw [resolve_eq_ok_iff.mpr gives']

/-- All that is decided up to a mistake is decided where more globals are known. -/
theorem decisions_isPrefix (widened : Widened narrow.decided.toList wide.decided.toList narrow wide)
    (program : List (Statement Unit)) : narrow.decisions program <+: wide.decisions program := by
  have asFar := (Resolving.steady_laws.statements program).comesAsFar widened
  have ⟨made, decided, decided'⟩ := asFar.decided
  rw [← decided_resolve_eq, decided_resolve] at decided decided'
  rw [List.append_cancel_left decided]
  exact (List.prefix_append_right_inj _).mp decided'

end Widened

/-- Between two programs a resolver that knows more is one that is widened. -/
theorem Settled.widened (settled : narrow.Settled) (settledWide : wide.Settled)
    (knows : ∀ name, narrow.Knows name → wide.Knows name) :
    Widened narrow.decided.toList wide.decided.toList narrow wide := by
  refine ⟨settled.outside.trans settledWide.outside.symm,
    settled.inFunction.trans settledWide.inFunction.symm, knows, fun name waits => ?_, [], by simp⟩
  exact absurd waits (settledWide.ready name)

end Resolver

end LoxInterpreter
