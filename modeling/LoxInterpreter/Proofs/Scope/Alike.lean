import LoxInterpreter.Proofs.Scope.Hereditary

/-!
Contract: what a walk depends on.

A walk sees the scopes, whether it is in a function, and what the globals are to each name. It does
not see the order in which globals arrived or what was decided before it.

Owns: `Resolver.Alike`, `Resolving.Respectful`, and that all walks are respectful.
Does not own: what walks do to the globals (`Proofs.Scope.Knowledge`).
-/

namespace LoxInterpreter

/-- Whether two resolvers know the same, whatever they decided before. -/
structure Resolver.Alike (first second : Resolver) : Prop where
  scopes : first.scopes = second.scopes
  inFunction : first.inFunction = second.inFunction
  globals : ∀ name, first.globals.get? name = second.globals.get? name

namespace Resolver.Alike

variable {first second : Resolver}

theorem readBinding?_eq (alike : first.Alike second) (name : String) :
    first.readBinding? name = second.readBinding? name := by
  unfold readBinding?
  rw [alike.scopes, alike.globals]

theorem decide (alike : first.Alike second) (binding : Binding) :
    (first.decide binding).Alike (second.decide binding) :=
  ⟨alike.scopes, alike.inFunction, alike.globals⟩

theorem get?_set (alike : first.Alike second) (name : String) (ready : Bool) (other : String) :
    (first.globals.set name ready).get? other = (second.globals.set name ready).get? other := by
  by_cases same : other = name
  · rw [same, Table.get?_set_self, Table.get?_set_self]
  · rw [Table.get?_set_of_ne _ same, Table.get?_set_of_ne _ same]
    exact alike.globals other

theorem setScopes (alike : first.Alike second) (scopes : List Scope) :
    Alike { first with scopes := scopes } { second with scopes := scopes } :=
  ⟨rfl, alike.inFunction, alike.globals⟩

theorem define (alike : first.Alike second) (name : String) :
    (first.define name).Alike (second.define name) := by
  unfold Resolver.define
  rw [alike.scopes]
  cases second.scopes with
  | nil => exact ⟨rfl, alike.inFunction, alike.get?_set name true⟩
  | cons innermost outer => exact alike.setScopes _

/-- Where a name can be declared in one of two alike resolvers, it can be declared in the other. -/
theorem declare? (alike : first.Alike second) (name : String) :
    Option.Rel Alike (first.declare? name) (second.declare? name) := by
  unfold Resolver.declare?
  rw [alike.scopes]
  cases second.scopes with
  | nil =>
      dsimp only
      rw [alike.globals]
      split
      · exact .some alike
      · exact .some ⟨rfl, alike.inFunction, alike.get?_set name false⟩
  | cons innermost outer =>
      dsimp only
      split
      · exact .none
      · exact .some (alike.setScopes _)

theorem enterScope (alike : first.Alike second) : first.enterScope.Alike second.enterScope := by
  unfold Resolver.enterScope
  rw [alike.scopes]
  exact alike.setScopes _

theorem leaveScope (alike : first.Alike second) : first.leaveScope.Alike second.leaveScope := by
  unfold Resolver.leaveScope
  rw [alike.scopes]
  exact alike.setScopes _

theorem setInFunction (alike : first.Alike second) (inFunction : Bool) :
    Alike { first with inFunction := inFunction } { second with inFunction := inFunction } :=
  ⟨alike.scopes, rfl, alike.globals⟩

theorem recovered (alike : first.Alike second) : first.recovered.Alike second.recovered := by
  refine ⟨rfl, rfl, fun name => ?_⟩
  unfold Resolver.recovered
  dsimp only
  rw [Table.get?_filter, Table.get?_filter, alike.globals]

theorem withGlobals (alike : first.Alike second) (names : List String) :
    (first.withGlobals names).Alike (second.withGlobals names) :=
  ⟨alike.scopes, alike.inFunction, fun _ => rfl⟩

end Resolver.Alike

namespace Resolving

variable {α β : Type}

/-- Whether two results of walks are the same and leave alike resolvers. -/
def SameEnd (first second : Except ScopeError α × Resolver) : Prop :=
  first.1 = second.1 ∧ first.2.Alike second.2

/-- Whether a walk does the same from alike resolvers. -/
def Respectful (walk : Resolving α) : Prop :=
  ∀ first second : Resolver, first.Alike second → SameEnd (walk.outcome first) (walk.outcome second)

/-! ## Laws -/

theorem respectful_pure (value : α) : (pure value : Resolving α).Respectful :=
  fun _ _ alike => ⟨rfl, alike⟩

theorem respectful_stop (cause : ScopeError.Cause) (token : Token) :
    (stop cause token : Resolving α).Respectful :=
  fun _ _ alike => ⟨rfl, alike⟩

theorem respectful_modify {change : Resolver → Resolver}
    (respects : ∀ first second : Resolver, first.Alike second → (change first).Alike (change second)) :
    (modify change : Resolving Unit).Respectful :=
  fun first second alike => ⟨rfl, respects first second alike⟩

/-- Alike resolvers give the first part one result, so the second part is the same walk from both. -/
theorem Respectful.bind {first : Resolving α} {next : α → Resolving β} (respectful : first.Respectful)
    (rest : ∀ value, (next value).Respectful) : (first >>= next).Respectful := by
  intro left right alike
  rw [outcome_bind, outcome_bind]
  have ⟨sameResult, stillAlike⟩ := respectful left right alike
  revert sameResult stillAlike
  cases first.outcome left with
  | mk result between =>
      cases first.outcome right with
      | mk result' between' =>
          intro sameResult stillAlike
          cases sameResult
          cases result with
          | ok value => exact rest value between between' stillAlike
          | error mistake => exact ⟨rfl, stillAlike⟩

/-- What follows a look at the resolver may depend on it where alike resolvers lead to the same end. -/
theorem respectful_get_bind {next : Resolver → Resolving β}
    (respects : ∀ first second : Resolver, first.Alike second →
      SameEnd ((next first).outcome first) ((next second).outcome second)) :
    (get >>= next).Respectful := by
  intro first second alike
  rw [outcome_get_bind, outcome_get_bind]
  exact respects first second alike

theorem respectful_decide (binding : Binding) : (decide binding).Respectful :=
  (respectful_modify fun _ _ alike => alike.decide binding).bind fun _ => respectful_pure binding

theorem respectful_readReference (name : Name) : (readReference name).Respectful := by
  apply respectful_get_bind
  intro first second alike
  rw [alike.readBinding?_eq]
  split
  · exact respectful_decide _ first second alike
  · exact respectful_stop _ _ first second alike

/-- An assignment looks at the scopes alone, which alike resolvers share. -/
theorem respectful_assignedReference (name : Name) : (assignedReference name).Respectful := by
  apply respectful_get_bind
  intro first second alike
  rw [alike.scopes]
  exact respectful_decide _ first second alike

theorem respectful_declare (name : Name) : (declare name).Respectful := by
  apply respectful_get_bind
  intro first second alike
  have related := alike.declare? name.text
  revert related
  cases first.declare? name.text with
  | none =>
      intro related
      generalize second.declare? name.text = other at related
      cases related
      exact respectful_stop _ _ first second alike
  | some declared =>
      intro related
      generalize second.declare? name.text = other at related
      cases related with
      | some stillAlike => exact ⟨rfl, stillAlike⟩

theorem respectful_define (name : Name) : (define name).Respectful :=
  respectful_modify fun _ _ alike => alike.define name.text

theorem Respectful.inScope {walk : Resolving α} (respectful : walk.Respectful) :
    (inScope walk).Respectful := by
  apply (respectful_modify fun _ _ alike => alike.enterScope).bind
  intro _
  apply respectful.bind
  intro result
  exact (respectful_modify fun _ _ alike => alike.leaveScope).bind fun _ => respectful_pure result

theorem Respectful.inBody {walk : Resolving α} (respectful : walk.Respectful) :
    (inBody walk).Respectful := by
  apply respectful_get_bind
  intro first second alike
  rw [alike.inFunction]
  refine Respectful.bind ?_ (fun _ => ?_) first second alike
  · exact respectful_modify fun _ _ alike => alike.setInFunction true
  · apply respectful.inScope.bind
    intro result
    apply Respectful.bind
    · exact respectful_modify fun _ _ alike => alike.setInFunction second.inFunction
    · intro _
      exact respectful_pure result

theorem Respectful.insideFunction {walk : Resolving α} (token : Token) (respectful : walk.Respectful) :
    Respectful (do
      unless (← get).inFunction do
        stop .returnOutsideFunction token
      walk) := by
  apply respectful_get_bind
  intro first second alike
  rw [alike.inFunction]
  split
  · exact respectful first second alike
  · exact (respectful_stop _ _).bind (fun _ => respectful) first second alike

/-- All walks are respectful. -/
theorem respectful_laws : StatementLaws @Respectful where
  pure := respectful_pure
  bind := Respectful.bind
  readReference := respectful_readReference
  assignedReference := respectful_assignedReference
  declare := respectful_declare
  define := respectful_define
  inScope := Respectful.inScope
  inBody := Respectful.inBody
  insideFunction := Respectful.insideFunction

end Resolving

/-- Alike resolvers resolve a program alike. -/
theorem Resolver.Alike.resolve {first second : Resolver} (alike : first.Alike second)
    (program : List (Statement Unit)) :
    (first.resolve program).1 = (second.resolve program).1 ∧
      (first.resolve program).2.Alike (second.resolve program).2 := by
  have ⟨sameResult, stillAlike⟩ := Resolving.respectful_laws.statements program first second alike
  unfold Resolving.outcome at sameResult stillAlike
  unfold Resolver.resolve
  revert sameResult stillAlike
  cases (Resolving.statements program).run.run first with
  | mk result between =>
      cases (Resolving.statements program).run.run second with
      | mk result' between' =>
          intro sameResult stillAlike
          cases sameResult
          cases result with
          | ok resolved => exact ⟨rfl, stillAlike⟩
          | error mistake => exact ⟨rfl, stillAlike.recovered⟩

end LoxInterpreter
