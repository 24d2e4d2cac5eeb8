import LoxInterpreter.Proofs.Grammar.Names
import LoxInterpreter.Proofs.Scope.Alike
import LoxInterpreter.Proofs.Scope.Returning

/-!
Contract: what a resolver knows after a program.

Outside all scopes a declaration makes a global ready when it is finished, and no other statement
touches the globals. A mistake ends the walk, and the globals that were finished before it stay known,
though nothing of the program is run.

Owns: `Resolver.Knows`, `Resolver.Settled`, `Resolver.finishedNames`, and what is known after a program
that resolves and after a refusal.
-/

namespace LoxInterpreter

variable {Known : Type}

/-- The name that a statement declares and that is ready before the statement ends. -/
def Statement.recursiveName? : Statement Known → Option String
  | .function name _ _ => some name.text
  | _ => none

/-- The names that several statements declare themselves. -/
def Statement.declaredNames (statements : List (Statement Known)) : List String :=
  statements.filterMap Statement.declaredName?

theorem Statement.declaredNames_listMapKnown {Other : Type} (change : Known → Other)
    (statements : List (Statement Known)) :
    declaredNames (Statement.listMapKnown change statements) = declaredNames statements := by
  induction statements with
  | nil => rfl
  | cons first rest inductionHypothesis =>
      have sameFirst : (first.mapKnown change).declaredName? = first.declaredName? := by
        cases first with
        | conditional condition thenBranch elseBranch => cases elseBranch <;> rfl
        | _ => rfl
      unfold declaredNames at inductionHypothesis ⊢
      rw [Statement.listMapKnown, List.filterMap_cons, List.filterMap_cons, sameFirst,
        inductionHypothesis]

namespace Resolver

/-- Whether a name is a global that is ready. -/
def Knows (resolver : Resolver) (name : String) : Prop := resolver.globals.get? name = some true

instance (resolver : Resolver) (name : String) : Decidable (resolver.Knows name) :=
  inferInstanceAs (Decidable (_ = _))

/-- The globals whose declarations in a program are finished when the walk through it ends. -/
def finishedNames (resolver : Resolver) : List (Statement Unit) → List String
  | [] => []
  | first :: rest =>
      match (Resolving.statement first).outcome resolver with
      | (.ok _, after) => first.declaredName?.toList ++ after.finishedNames rest
      | (.error _, _) => first.recursiveName?.toList

theorem declaredName?_of_recursiveName? {statement : Statement Unit} {name : String}
    (recursive : statement.recursiveName? = some name) : statement.declaredName? = some name := by
  cases statement with
  | function => exact recursive
  | _ => cases recursive

/-- What is finished is declared by the program. -/
theorem declared_of_finished {resolver : Resolver} {program : List (Statement Unit)} {name : String}
    (finished : name ∈ resolver.finishedNames program) :
    ∃ statement ∈ program, statement.declaredName? = some name := by
  induction program generalizing resolver with
  | nil => cases finished
  | cons first rest inductionHypothesis =>
      rw [finishedNames] at finished
      split at finished
      · rcases List.mem_append.mp finished with here | behind
        · exact ⟨first, List.mem_cons_self, Option.mem_toList.mp here⟩
        · obtain ⟨statement, member, declares⟩ := inductionHypothesis behind
          exact ⟨statement, List.mem_cons_of_mem first member, declares⟩
      · have recursive := Option.mem_toList.mp finished
        exact ⟨first, List.mem_cons_self, declaredName?_of_recursiveName? recursive⟩

/-- Whether a resolver is between two programs: outside all scopes and functions, and all globals are
ready. -/
structure Settled (resolver : Resolver) : Prop where
  outside : resolver.scopes = []
  inFunction : resolver.inFunction = false
  ready : ∀ name, resolver.globals.get? name ≠ some false

end Resolver

/-! ## Statements outside all scopes -/

namespace Resolving

variable {before after : Resolver}

/-- Outside all scopes every name can be declared, and what is known stays known. -/
theorem declare?_outside (outside : before.scopes = []) (name : String) :
    ∃ declared, before.declare? name = some declared ∧ declared.scopes = [] ∧
      (∀ other, declared.Knows other ↔ before.Knows other) ∧
      ∀ other, other ≠ name → declared.globals.get? other = before.globals.get? other := by
  unfold Resolver.declare?
  rw [outside]
  dsimp only
  by_cases known : before.globals.get? name = some true
  · rw [if_pos known]
    exact ⟨before, rfl, outside, fun _ => Iff.rfl, fun _ _ => rfl⟩
  · rw [if_neg known]
    refine ⟨_, rfl, rfl, fun other => ?_, fun other different => ?_⟩
    · unfold Resolver.Knows
      by_cases same : other = name
      · rw [same, Table.get?_set_self]
        simp [known]
      · rw [Table.get?_set_of_ne _ same]
    · exact Table.get?_set_of_ne _ different _

theorem define_outside (outside : before.scopes = []) (name other : String) :
    (before.define name).scopes = [] ∧
      (before.define name).globals.get? other =
        if other = name then some true else before.globals.get? other := by
  unfold Resolver.define
  rw [outside]
  refine ⟨rfl, ?_⟩
  dsimp only
  by_cases same : other = name
  · rw [same, if_pos rfl, Table.get?_set_self]
  · rw [if_neg same, Table.get?_set_of_ne _ same]

theorem declare_outside (outside : before.scopes = []) (name : Name) :
    ∃ declared, (declare name).outcome before = (.ok (), declared) ∧ declared.scopes = [] ∧
      (∀ other, declared.Knows other ↔ before.Knows other) ∧
      ∀ other, other ≠ name.text → declared.globals.get? other = before.globals.get? other := by
  obtain ⟨declared, isDeclared, rest⟩ := declare?_outside outside name.text
  exact ⟨declared, gives_declare_iff.mpr isDeclared, rest⟩

/-- A statement that meets no mistake makes the name ready that it declares. -/
theorem statement_gives_outside {tree : Statement Unit} {result : Statement Binding}
    (normal : tree.Normal) (outside : before.scopes = [])
    (gives : (statement tree).Gives before result after) :
    after.scopes = [] ∧ ∀ name, after.globals.get? name =
      if tree.declaredName? = some name then some true else before.globals.get? name := by
  have plainCase (plain : tree.isDeclaration = false) (undeclared : tree.declaredName? = none) :
      after.scopes = [] ∧ ∀ name, after.globals.get? name =
        if tree.declaredName? = some name then some true else before.globals.get? name := by
    obtain ⟨sameGlobals, sameDepth⟩ := statement_keepsGlobals tree before normal (.inr plain)
    have ends : (statement tree).outcome before = (.ok result, after) := gives
    rw [ends] at sameGlobals
    have depth := sameDepth result after gives
    rw [outside] at depth
    refine ⟨List.eq_nil_of_length_eq_zero depth, fun name => ?_⟩
    rw [undeclared, sameGlobals]
    simp
  cases tree with
  | declaration name initializer =>
      rw [statement] at gives
      obtain ⟨_, declared, declares, rest⟩ := gives_bind_iff.mp gives
      obtain ⟨_, initialized, one, rest⟩ := gives_bind_iff.mp rest
      obtain ⟨_, defined, defines, rest⟩ := gives_bind_iff.mp rest
      obtain ⟨declared', isDeclared, outsideDeclared, _, others⟩ := declare_outside outside name
      cases declares.symm.trans isDeclared
      obtain ⟨decided, left⟩ := (optionalExpression_decidesOnly initializer).of_gives one
      have outsideInitialized : initialized.scopes = [] := by
        rw [left]
        exact outsideDeclared
      rw [(gives_pure_iff.mp rest).2, gives_define_iff.mp defines]
      refine ⟨(define_outside outsideInitialized name.text name.text).1, fun other => ?_⟩
      rw [(define_outside outsideInitialized name.text other).2, left]
      by_cases same : other = name.text
      · simp [Statement.declaredName?, same]
      · simp [Statement.declaredName?, same, Ne.symm same, others other same]
  | function name parameters body =>
      rw [statement] at gives
      obtain ⟨_, declared, declares, rest⟩ := gives_bind_iff.mp gives
      obtain ⟨_, defined, defines, rest⟩ := gives_bind_iff.mp rest
      obtain ⟨_, one, _⟩ := gives_map_iff.mp rest
      obtain ⟨declared', isDeclared, outsideDeclared, _, others⟩ := declare_outside outside name
      cases declares.symm.trans isDeclared
      obtain ⟨sameGlobals, sameDepth⟩ := body_keepsGlobals parameters body defined normal.2
      have ends : (inBody do
        declareReady parameters
        statements body).outcome defined = (.ok _, after) := one
      rw [ends] at sameGlobals
      have depth := sameDepth _ after one
      rw [gives_define_iff.mp defines] at sameGlobals depth
      rw [(define_outside outsideDeclared name.text name.text).1] at depth
      refine ⟨List.eq_nil_of_length_eq_zero depth, fun other => ?_⟩
      rw [sameGlobals, (define_outside outsideDeclared name.text other).2]
      by_cases same : other = name.text
      · simp [Statement.declaredName?, same]
      · simp [Statement.declaredName?, same, Ne.symm same, others other same]
  | expression | print | block | conditional | loop | returning => exact plainCase rfl rfl

/-- A statement that meets a mistake leaves known what was known before, and a function that it
declares. -/
theorem statement_stops_outside {tree : Statement Unit} {mistake : ScopeError}
    (normal : tree.Normal) (outside : before.scopes = [])
    (stops : (statement tree).outcome before = (.error mistake, after)) (name : String) :
    after.Knows name ↔ before.Knows name ∨ tree.recursiveName? = some name := by
  have plainCase (plain : tree.isDeclaration = false) (undeclared : tree.recursiveName? = none) :
      after.Knows name ↔ before.Knows name ∨ tree.recursiveName? = some name := by
    obtain ⟨sameGlobals, _⟩ := statement_keepsGlobals tree before normal (.inr plain)
    rw [stops] at sameGlobals
    unfold Resolver.Knows
    rw [undeclared, sameGlobals]
    simp
  cases tree with
  | declaration declaredName initializer =>
      obtain ⟨declared, isDeclared, _, sameKnown, _⟩ := declare_outside outside declaredName
      obtain ⟨decided, left⟩ := optionalExpression_decidesOnly initializer declared
      rw [statement, outcome_bind, isDeclared] at stops
      dsimp only at stops
      rw [outcome_bind] at stops
      cases ends : (optionalExpression initializer).outcome declared with
      | mk result initialized =>
          rw [ends] at stops left
          cases result with
          | ok value => cases stops
          | error found =>
              cases stops
              dsimp only at left
              rw [left]
              exact (sameKnown name).trans (by simp [Statement.recursiveName?])
  | function declaredName parameters body =>
      obtain ⟨declared, isDeclared, outsideDeclared, sameKnown, others⟩ :=
        declare_outside outside declaredName
      rw [statement, outcome_bind, isDeclared] at stops
      dsimp only at stops
      have defines : (define declaredName).outcome declared =
          (.ok (), declared.define declaredName.text) := rfl
      rw [outcome_bind, defines] at stops
      dsimp only at stops
      have keeps := (body_keepsGlobals parameters body (declared.define declaredName.text)
        normal.2).map (Statement.function declaredName parameters)
      have sameGlobals := keeps.1
      rw [stops] at sameGlobals
      unfold Resolver.Knows
      rw [sameGlobals, (define_outside outsideDeclared declaredName.text name).2]
      by_cases same : name = declaredName.text
      · simp [Statement.recursiveName?, same]
      · simp [Statement.recursiveName?, same, Ne.symm same, others name same]
  | expression | print | block | conditional | loop | returning => exact plainCase rfl rfl

/-- A walk that meets a mistake leaves known what was known before, and what was finished. -/
theorem statements_stop_outside {trees : List (Statement Unit)} {mistake : ScopeError}
    (normal : Statement.listNormal trees) (outside : before.scopes = [])
    (stops : (statements trees).outcome before = (.error mistake, after)) (name : String) :
    after.Knows name ↔ before.Knows name ∨ name ∈ before.finishedNames trees := by
  induction trees generalizing before with
  | nil => cases stops
  | cons first rest inductionHypothesis =>
      rw [statements, outcome_bind] at stops
      cases ends : (statement first).outcome before with
      | mk result between =>
          rw [ends] at stops
          cases result with
          | error found =>
              cases stops
              rw [statement_stops_outside normal.1 outside ends, Resolver.finishedNames, ends]
              simp
          | ok value =>
              obtain ⟨outsideBetween, sameOthers⟩ := statement_gives_outside normal.1 outside ends
              dsimp only at stops
              rw [outcome_bind] at stops
              cases endsRest : (statements rest).outcome between with
              | mk result' left =>
                  rw [endsRest] at stops
                  cases result' with
                  | ok values => cases stops
                  | error found =>
                      cases stops
                      have behind := inductionHypothesis normal.2 outsideBetween endsRest
                      rw [behind, Resolver.finishedNames, ends]
                      unfold Resolver.Knows
                      rw [sameOthers]
                      by_cases declares : first.declaredName? = some name
                      · simp [declares]
                      · simp [declares]

/-- A walk that meets no mistake leaves known what was known before, and what was declared. -/
theorem statements_give_outside {trees : List (Statement Unit)} {results : List (Statement Binding)}
    (normal : Statement.listNormal trees) (outside : before.scopes = [])
    (gives : (statements trees).Gives before results after) (name : String) :
    after.Knows name ↔ before.Knows name ∨ name ∈ Statement.declaredNames trees := by
  induction trees generalizing before results with
  | nil =>
      rw [statements] at gives
      rw [(gives_pure_iff.mp gives).2]
      simp [Statement.declaredNames]
  | cons first rest inductionHypothesis =>
      rw [statements] at gives
      obtain ⟨_, between, one, behind⟩ := gives_bind_iff.mp gives
      obtain ⟨_, others, _⟩ := gives_map_iff.mp behind
      obtain ⟨outsideBetween, globals⟩ := statement_gives_outside normal.1 outside one
      rw [inductionHypothesis normal.2 outsideBetween others]
      unfold Resolver.Knows Statement.declaredNames
      rw [globals]
      by_cases declares : first.declaredName? = some name
      · simp [declares]
      · simp [declares]

end Resolving

/-! ## Programs -/

namespace Resolver

variable {resolver after : Resolver} {program : List (Statement Unit)}

theorem knows_recovered_iff (name : String) : resolver.recovered.Knows name ↔ resolver.Knows name := by
  unfold Knows recovered
  dsimp only
  rw [Table.get?_filter]
  cases resolver.globals.get? name with
  | none => simp
  | some ready => cases ready <;> simp [Option.filter]

theorem knows_withGlobals_iff (resolver : Resolver) (names : List String) (name : String) :
    (resolver.withGlobals names).Knows name ↔ name ∈ names := by
  unfold Knows withGlobals
  dsimp only
  rw [Table.get?_ofNames]
  split <;> simp [*]

theorem knows_ofKnown_iff (names : List String) (name : String) :
    (ofKnown names).Knows name ↔ name ∈ names :=
  knows_withGlobals_iff (ofKnown []) names name

/-- After a refusal those globals are known that were known before, and those whose declarations were
finished when the mistake was met. -/
theorem knows_after_refusal_iff {mistake : ScopeError} (normal : Statement.listNormal program)
    (outside : resolver.scopes = []) (refuses : resolver.resolve program = (.error mistake, after))
    (name : String) : after.Knows name ↔ resolver.Knows name ∨ name ∈ resolver.finishedNames program := by
  obtain ⟨between, stops, left⟩ := resolve_eq_error_iff.mp refuses
  rw [left, knows_recovered_iff]
  exact Resolving.statements_stop_outside normal outside stops name

/-- After a program that resolves those globals are known that were known before, and those that it
declares. -/
theorem knows_after_success_iff {resolved : List (Statement Binding)}
    (normal : Statement.listNormal program) (outside : resolver.scopes = [])
    (resolves : resolver.resolve program = (.ok resolved, after)) (name : String) :
    after.Knows name ↔ resolver.Knows name ∨ name ∈ Statement.declaredNames program :=
  Resolving.statements_give_outside normal outside (resolve_eq_ok_iff.mp resolves) name

theorem settled_recovered (resolver : Resolver) : resolver.recovered.Settled := by
  refine ⟨rfl, rfl, fun name => ?_⟩
  unfold recovered
  dsimp only
  rw [Table.get?_filter]
  cases resolver.globals.get? name with
  | none => simp
  | some ready => cases ready <;> simp [Option.filter]

theorem settled_withGlobals (outside : resolver.scopes = []) (inFunction : resolver.inFunction = false)
    (names : List String) : (resolver.withGlobals names).Settled := by
  refine ⟨outside, inFunction, fun name => ?_⟩
  unfold withGlobals
  dsimp only
  rw [Table.get?_ofNames]
  split <;> simp

theorem settled_ofKnown (names : List String) : (ofKnown names).Settled :=
  @settled_withGlobals (ofKnown []) rfl rfl names

/-- Inside its own initializer a name can be read outside all scopes just where it is known. -/
theorem readBinding?_declared {declared : Resolver} (outside : resolver.scopes = []) {name : String}
    (declares : resolver.declare? name = some declared) :
    (declared.readBinding? name).isSome ↔ resolver.Knows name := by
  unfold declare? at declares
  rw [outside] at declares
  dsimp only at declares
  unfold Knows
  by_cases known : resolver.globals.get? name = some true
  · rw [if_pos known] at declares
    cases declares
    unfold readBinding?
    rw [outside]
    simp [known]
  · rw [if_neg known] at declares
    cases declares
    unfold readBinding?
    simp [known]

/-- A declaration of a name by itself resolves outside all scopes just where the name is known. -/
theorem resolves_declaringByItself_iff (outside : resolver.scopes = []) (name : Name) :
    (∃ resolved after, resolver.resolve [.declaration name (some (.variable name ()))] =
      (.ok resolved, after)) ↔ resolver.Knows name.text := by
  obtain ⟨declared, isDeclared, _⟩ := Resolving.declare?_outside outside name.text
  rw [← readBinding?_declared outside isDeclared, Option.isSome_iff_exists]
  simp only [resolve_eq_ok_iff, Resolving.statements, Resolving.statement, Resolving.optionalExpression,
    Resolving.expression, Resolving.gives_bind_iff, Resolving.gives_pure_iff,
    Resolving.gives_declare_iff, Resolving.gives_define_iff, Resolving.gives_readReference_iff,
    isDeclared, Option.some.injEq]
  constructor
  · rintro ⟨_, _, _, _, ⟨_, _, rfl, _, _, ⟨_, _, ⟨binding, _, ⟨found, _⟩, _⟩, _⟩, _⟩, _⟩
    exact ⟨binding, found⟩
  · rintro ⟨binding, found⟩
    exact ⟨_, _, _, _, ⟨(), _, rfl, _, _, ⟨_, _, ⟨binding, _, ⟨found, rfl⟩, rfl, rfl⟩, rfl, rfl⟩,
      (), _, rfl, rfl, rfl⟩, _, _, ⟨rfl, rfl⟩, rfl, rfl⟩

/-- Between two programs a resolver has no globals but those that it knows. -/
theorem Settled.contains_iff (settled : resolver.Settled) (name : String) :
    resolver.globals.contains name = true ↔ resolver.Knows name := by
  have ready := settled.ready name
  unfold Table.contains Knows
  cases found : resolver.globals.get? name with
  | none => simp
  | some flag => cases flag <;> simp_all

/-- Settled resolvers that know the same names are alike. -/
theorem Settled.alike {other : Resolver} (settled : resolver.Settled) (settledOther : other.Settled)
    (same : ∀ name, resolver.Knows name ↔ other.Knows name) : resolver.Alike other := by
  refine ⟨settled.outside.trans settledOther.outside.symm,
    settled.inFunction.trans settledOther.inFunction.symm, fun name => ?_⟩
  have known := same name
  have ready := settled.ready name
  have readyOther := settledOther.ready name
  unfold Knows at known
  revert known ready readyOther
  cases resolver.globals.get? name with
  | none =>
      cases other.globals.get? name with
      | none => simp
      | some flag => cases flag <;> simp
  | some flag => cases flag <;> simp +contextual

end Resolver

end LoxInterpreter
