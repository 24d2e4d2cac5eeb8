import LoxInterpreter.Scope.Resolution

/-!
Contract: walks that resolve, as a relation.

A walk gives a result and leaves a resolver when it meets no mistake. Sequences give what their two
halves give one after the other.

Owns: `Resolving.Gives`, and its laws for the primitives of a walk.
Does not own: what walks decide (`Proofs.Scope.Context`).
-/

namespace LoxInterpreter.Resolving

variable {α β : Type}

/-- How a walk ends that starts with some resolver. -/
def outcome (walk : Resolving α) (before : Resolver) : Except ScopeError α × Resolver :=
  walk.run.run before

theorem outcome_bind (first : Resolving α) (next : α → Resolving β) (before : Resolver) :
    (first >>= next).outcome before =
      match first.outcome before with
      | (.ok value, between) => (next value).outcome between
      | (.error mistake, between) => (.error mistake, between) := by
  unfold outcome ExceptT.run StateT.run
  simp only [bind, ExceptT.bind, ExceptT.mk, StateT.bind, ExceptT.bindCont]
  cases first before with
  | mk result between => cases result <;> rfl

theorem outcome_get_bind (next : Resolver → Resolving β) (before : Resolver) :
    (get >>= next).outcome before = (next before).outcome before := by
  rw [outcome_bind]
  rfl

theorem outcome_modify_bind (change : Resolver → Resolver) (next : Unit → Resolving β)
    (before : Resolver) : (modify change >>= next).outcome before = (next ()).outcome (change before) := by
  rw [outcome_bind]
  rfl

/-- Whether a walk that starts with one resolver meets no mistake, gives a result and leaves another
resolver. -/
def Gives (walk : Resolving α) (before : Resolver) (result : α) (after : Resolver) : Prop :=
  walk.outcome before = (.ok result, after)

variable {before after : Resolver}

@[simp] theorem gives_pure_iff {value result : α} :
    (pure value : Resolving α).Gives before result after ↔ result = value ∧ after = before := by
  change ((.ok value, before) : Except ScopeError α × Resolver) = _ ↔ _
  simp [eq_comm]

/-- A walk of two parts meets no mistake if neither part does, the second one behind the first. -/
theorem gives_bind_iff {first : Resolving α} {next : α → Resolving β} {result : β} :
    (first >>= next).Gives before result after ↔
      ∃ value between, first.Gives before value between ∧ (next value).Gives between result after := by
  unfold Gives
  rw [outcome_bind]
  cases first.outcome before with
  | mk value between =>
      cases value with
      | error mistake => simp
      | ok value => simp [and_assoc]

@[simp] theorem gives_get_iff {result : Resolver} :
    (get : Resolving Resolver).Gives before result after ↔ result = before ∧ after = before := by
  change ((.ok before, before) : Except ScopeError Resolver × Resolver) = _ ↔ _
  simp [eq_comm]

@[simp] theorem gives_modify_iff {change : Resolver → Resolver} {result : Unit} :
    (modify change : Resolving Unit).Gives before result after ↔ after = change before := by
  change ((.ok (), change before) : Except ScopeError Unit × Resolver) = _ ↔ _
  simp [eq_comm]

@[simp] theorem gives_set_iff {resolver : Resolver} {result : Unit} :
    (set resolver : Resolving Unit).Gives before result after ↔ after = resolver := by
  change ((.ok (), resolver) : Except ScopeError Unit × Resolver) = _ ↔ _
  simp [eq_comm]

@[simp] theorem not_gives_stop {cause : ScopeError.Cause} {token : Token} {result : α} :
    ¬ (stop cause token).Gives before result after := by
  change ¬ ((.error _, before) : Except ScopeError α × Resolver) = _
  simp

theorem gives_map_iff {walk : Resolving α} {build : α → β} {result : β} :
    (do return build (← walk) : Resolving β).Gives before result after ↔
      ∃ value, walk.Gives before value after ∧ result = build value := by
  rw [gives_bind_iff]
  constructor
  · rintro ⟨value, between, one, done⟩
    obtain ⟨rfl, rfl⟩ := gives_pure_iff.mp done
    exact ⟨value, one, rfl⟩
  · rintro ⟨value, one, rfl⟩
    exact ⟨value, after, one, gives_pure_iff.mpr ⟨rfl, rfl⟩⟩

theorem gives_readReference_iff {name : Name} {result : Binding} :
    (readReference name).Gives before result after ↔
      before.readBinding? name.text = some result ∧ after = before.decide result := by
  unfold readReference decide
  rw [gives_bind_iff]
  constructor
  · rintro ⟨_, _, read, chosen⟩
    obtain ⟨rfl, rfl⟩ := gives_get_iff.mp read
    split at chosen
    · rename_i binding isBinding
      obtain ⟨_, between, changed, done⟩ := gives_bind_iff.mp chosen
      obtain ⟨rfl, rfl⟩ := gives_pure_iff.mp done
      exact ⟨isBinding, gives_modify_iff.mp changed⟩
    · exact absurd chosen not_gives_stop
  · rintro ⟨isBinding, rfl⟩
    refine ⟨before, before, gives_get_iff.mpr ⟨rfl, rfl⟩, ?_⟩
    rw [isBinding]
    exact gives_bind_iff.mpr ⟨(), _, gives_modify_iff.mpr rfl, gives_pure_iff.mpr ⟨rfl, rfl⟩⟩

theorem gives_assignedReference_iff {name : Name} {result : Binding} :
    (assignedReference name).Gives before result after ↔
      result = Resolver.bindingIn before.scopes name.text ∧ after = before.decide result := by
  unfold assignedReference decide
  simp only [gives_bind_iff, gives_get_iff, gives_modify_iff, gives_pure_iff]
  constructor
  · rintro ⟨_, _, ⟨rfl, rfl⟩, _, _, rfl, rfl, rfl⟩
    exact ⟨rfl, rfl⟩
  · rintro ⟨rfl, rfl⟩
    exact ⟨before, before, ⟨rfl, rfl⟩, (), _, rfl, rfl, rfl⟩

theorem declare_outcome (name : Name) (before : Resolver) :
    (declare name).outcome before =
      match before.declare? name.text with
      | some declared => (.ok (), declared)
      | none => (.error ⟨.alreadyDeclared, name.token⟩, before) := by
  unfold declare
  rw [outcome_get_bind]
  cases before.declare? name.text <;> rfl

theorem gives_declare_iff {name : Name} {result : Unit} :
    (declare name).Gives before result after ↔ before.declare? name.text = some after := by
  unfold declare
  rw [gives_bind_iff]
  constructor
  · rintro ⟨_, _, read, chosen⟩
    obtain ⟨rfl, rfl⟩ := gives_get_iff.mp read
    split at chosen
    · rename_i resolver declared
      rw [gives_set_iff.mp chosen]
      exact declared
    · exact absurd chosen not_gives_stop
  · intro declared
    refine ⟨before, before, gives_get_iff.mpr ⟨rfl, rfl⟩, ?_⟩
    rw [declared]
    exact gives_set_iff.mpr rfl

theorem gives_define_iff {name : Name} {result : Unit} :
    (define name).Gives before result after ↔ after = before.define name.text :=
  gives_modify_iff

theorem gives_inScope_iff {walk : Resolving α} {result : α} :
    (inScope walk).Gives before result after ↔
      ∃ inside, walk.Gives before.enterScope result inside ∧ after = inside.leaveScope := by
  unfold inScope
  simp only [gives_bind_iff, gives_modify_iff, gives_pure_iff]
  constructor
  · rintro ⟨_, _, rfl, _, inside, walked, _, _, rfl, rfl, rfl⟩
    exact ⟨inside, walked, rfl⟩
  · rintro ⟨inside, walked, rfl⟩
    exact ⟨(), _, rfl, result, inside, walked, (), _, rfl, rfl, rfl⟩

/-- Whether the walk is inside a function is afterwards what it was before. -/
theorem gives_inBody_iff {walk : Resolving α} {result : α} :
    (inBody walk).Gives before result after ↔
      ∃ inside, walk.Gives { before with inFunction := true }.enterScope result inside ∧
        after = { inside.leaveScope with inFunction := before.inFunction } := by
  unfold inBody
  simp only [gives_bind_iff, gives_get_iff, gives_modify_iff, gives_inScope_iff, gives_pure_iff]
  constructor
  · rintro ⟨_, _, ⟨rfl, rfl⟩, _, _, rfl, _, _, ⟨inside, walked, rfl⟩, _, _, rfl, rfl, rfl⟩
    exact ⟨inside, walked, rfl⟩
  · rintro ⟨inside, walked, rfl⟩
    exact ⟨before, before, ⟨rfl, rfl⟩, (), _, rfl, result, _, ⟨inside, walked, rfl⟩, (), _, rfl, rfl, rfl⟩

end LoxInterpreter.Resolving

namespace LoxInterpreter.Resolver

variable {resolver after : Resolver} {program : List (Statement Unit)}

/-- Outside all scopes a name that is ready stays ready when it is declared again. -/
theorem declare?_outside_eq (outside : resolver.scopes = []) (name : String) :
    resolver.declare? name =
      if resolver.globals.get? name = some true then some resolver
      else some { resolver with globals := resolver.globals.set name false } := by
  obtain ⟨scopes, globals, inFunction, decided⟩ := resolver
  cases outside
  rfl

theorem define_outside_eq (outside : resolver.scopes = []) (name : String) :
    resolver.define name = { resolver with globals := resolver.globals.set name true } := by
  obtain ⟨scopes, globals, inFunction, decided⟩ := resolver
  cases outside
  rfl

theorem declare?_inside_eq {innermost : Scope} {outer : List Scope}
    (inside : resolver.scopes = innermost :: outer) (name : String) :
    resolver.declare? name =
      if innermost.contains name then none
      else some { resolver with scopes := innermost.set name false :: outer } := by
  unfold declare?
  rw [inside]

theorem define_inside_eq {innermost : Scope} {outer : List Scope}
    (inside : resolver.scopes = innermost :: outer) (name : String) :
    resolver.define name = { resolver with scopes := innermost.set name true :: outer } := by
  unfold define
  rw [inside]

/-- What is declared inside a scope changes that scope and nothing else. -/
theorem declared_inside {innermost : Scope} {outer : List Scope}
    (inside : resolver.scopes = innermost :: outer) {name : String} {declared : Resolver}
    (declares : resolver.declare? name = some declared) :
    declared = { resolver with scopes := innermost.set name false :: outer } := by
  rw [declare?_inside_eq inside] at declares
  have ⟨_, isDeclared⟩ := Option.ite_none_left_eq_some.mp declares
  exact (Option.some.inj isDeclared).symm

/-- A program resolves when the walk through it meets no mistake. -/
theorem resolve_eq_ok_iff {resolved : List (Statement Binding)} :
    resolver.resolve program = (.ok resolved, after) ↔
      (Resolving.statements program).Gives resolver resolved after := by
  unfold Resolving.Gives Resolving.outcome resolve
  cases (Resolving.statements program).run.run resolver with
  | mk result between => cases result <;> simp

/-- A program is refused when the walk through it meets a mistake. -/
theorem resolve_eq_error_iff {mistake : ScopeError} :
    resolver.resolve program = (.error mistake, after) ↔
      ∃ between, (Resolving.statements program).outcome resolver = (.error mistake, between) ∧
        after = between.recovered := by
  unfold Resolving.outcome resolve
  cases (Resolving.statements program).run.run resolver with
  | mk result between =>
      cases result with
      | ok resolved => simp
      | error found =>
          simp only [Prod.mk.injEq, Except.error.injEq]
          constructor
          · intro same
            exact ⟨between, ⟨same.1, rfl⟩, same.2.symm⟩
          · intro ⟨left, same, isAfter⟩
            exact ⟨same.1, by rw [isAfter, same.2]⟩

end LoxInterpreter.Resolver
