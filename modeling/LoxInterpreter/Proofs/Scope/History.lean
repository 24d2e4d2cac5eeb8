import LoxInterpreter.Program
import LoxInterpreter.Proofs.Scope.Unwinding
import LoxInterpreter.Proofs.Scope.Widening

/-!
Contract: a resolver that resolves one program after another.

A program leaves the resolver outside all scopes and functions, with every global ready, whether it is
accepted or refused, and wherever it is refused. So nothing is left of the programs before but the names of
the globals, and of these it is never fewer.

Owns: `Resolver.behind`, `Resolver.past_unobservable`, and `Resolver.accepted_where_more_known`.
-/

namespace LoxInterpreter

/-! ## Globals that wait for their initializers -/

/-- Whether every global that waits for its initializer behind a walk did so in front of it. -/
def Resolver.Finishes (before after : Resolver) : Prop :=
  ∀ name, after.globals.get? name = some false → before.globals.get? name = some false

theorem Resolver.Finishes.trans {before between after : Resolver} (first : before.Finishes between)
    (second : between.Finishes after) : before.Finishes after :=
  fun name waits => first name (second name waits)

namespace Resolving

variable {α : Type} {before after : Resolver}

theorem DecidesOnly.finishes {walk : Resolving α} (decides : walk.DecidesOnly) {result : α}
    (gives : walk.Gives before result after) : before.Finishes after := by
  have ⟨decided, left⟩ := decides.of_gives gives
  rw [left]
  exact fun _ => id

/-- A declaration that is finished leaves nothing waiting. -/
theorem finishes_declaration {name : String} {declared : Resolver}
    (declares : before.declare? name = some declared) (decided : Array Binding) :
    before.Finishes ({ declared with decided := decided }.define name) := by
  intro other waits
  cases scopes : before.scopes with
  | nil =>
      have ⟨declared', declares', outside, _, others⟩ := declare?_outside scopes name
      cases declares.symm.trans declares'
      rw [(@define_outside { declared with decided := decided } outside name other).2] at waits
      split at waits
      · cases waits
      · rename_i different
        exact others other different ▸ waits
  | cons innermost outer =>
      rw [Resolver.declared_inside scopes declares] at waits
      exact waits

theorem declareReady_finishes {names : List Name} {result : Unit}
    (gives : (declareReady names).Gives before result after) : before.Finishes after := by
  induction names generalizing before with
  | nil =>
      rw [(gives_pure_iff.mp gives).2]
      exact fun _ => id
  | cons name rest inductionHypothesis =>
      have ⟨_, declared, declares, defines⟩ := gives_bind_iff.mp gives
      have ⟨_, defined, isDefined, others⟩ := gives_bind_iff.mp defines
      have front := finishes_declaration (gives_declare_iff.mp declares) declared.decided
      rw [gives_define_iff.mp isDefined] at others
      exact front.trans (inductionHypothesis others)

mutual

/-- A statement makes every global ready that it declares. -/
theorem statement_finishes : (tree : Statement Unit) → {result : Statement Binding} →
    {before after : Resolver} → (statement tree).Gives before result after → before.Finishes after
  | .expression value, _, _, _, gives => by
      rw [statement] at gives
      exact ((expression_decidesOnly value).map _).finishes gives
  | .print value, _, _, _, gives => by
      rw [statement] at gives
      exact ((expression_decidesOnly value).map _).finishes gives
  | .declaration name initializer, _, _, _, gives => by
      rw [statement] at gives
      have ⟨_, declared, declares, rest⟩ := gives_bind_iff.mp gives
      have ⟨_, initialized, one, rest⟩ := gives_bind_iff.mp rest
      have ⟨_, defined, defines, rest⟩ := gives_bind_iff.mp rest
      have ⟨decided, left⟩ := (optionalExpression_decidesOnly initializer).of_gives one
      rw [(gives_pure_iff.mp rest).2, gives_define_iff.mp defines, left]
      exact finishes_declaration (gives_declare_iff.mp declares) decided
  | .function name parameters body, _, _, _, gives => by
      rw [statement] at gives
      have ⟨_, declared, declares, rest⟩ := gives_bind_iff.mp gives
      have ⟨_, defined, defines, rest⟩ := gives_bind_iff.mp rest
      have ⟨_, one, _⟩ := gives_map_iff.mp rest
      have ⟨inside, walked, left⟩ := gives_inBody_iff.mp one
      have ⟨_, ready, readies, walkedBody⟩ := gives_bind_iff.mp walked
      have front := finishes_declaration (gives_declare_iff.mp declares) declared.decided
      have finishes : ready.Finishes inside := statements_finishes body walkedBody
      rw [left]
      rw [gives_define_iff.mp defines] at readies
      exact front.trans ((declareReady_finishes readies).trans finishes)
  | .block items, _, before, _, gives => by
      rw [statement] at gives
      have ⟨_, one, _⟩ := gives_map_iff.mp gives
      have ⟨inside, walked, left⟩ := gives_inScope_iff.mp one
      have finishes := statements_finishes items walked
      rw [left]
      exact finishes
  | .conditional condition thenBranch none, _, _, _, gives => by
      rw [statement] at gives
      have ⟨_, tested, one, rest⟩ := gives_bind_iff.mp gives
      have ⟨_, chosen, _⟩ := gives_map_iff.mp rest
      exact ((expression_decidesOnly condition).finishes one).trans (statement_finishes thenBranch chosen)
  | .conditional condition thenBranch (some elseBranch), _, _, _, gives => by
      rw [statement] at gives
      have ⟨_, tested, one, rest⟩ := gives_bind_iff.mp gives
      have ⟨_, chosen, two, rest⟩ := gives_bind_iff.mp rest
      have ⟨_, three, _⟩ := gives_map_iff.mp rest
      have condition := (expression_decidesOnly condition).finishes one
      exact condition.trans ((statement_finishes thenBranch two).trans (statement_finishes elseBranch three))
  | .loop condition body, _, _, _, gives => by
      rw [statement] at gives
      have ⟨_, tested, one, rest⟩ := gives_bind_iff.mp gives
      have ⟨_, two, _⟩ := gives_map_iff.mp rest
      exact ((expression_decidesOnly condition).finishes one).trans (statement_finishes body two)
  | .returning line value, _, _, _, gives => (returning_decidesOnly line value).finishes gives

theorem statements_finishes : (trees : List (Statement Unit)) → {results : List (Statement Binding)} →
    {before after : Resolver} → (statements trees).Gives before results after → before.Finishes after
  | [], _, _, _, gives => by
      rw [statements] at gives
      rw [(gives_pure_iff.mp gives).2]
      exact fun _ => id
  | first :: rest, _, _, _, gives => by
      rw [statements] at gives
      have ⟨_, between, one, behind⟩ := gives_bind_iff.mp gives
      have ⟨_, others, _⟩ := gives_map_iff.mp behind
      exact (statement_finishes first one).trans (statements_finishes rest others)

end

/-! ## Globals that are known -/

/-- No walk makes a known global unknown, at a mistake neither. -/
theorem knows_steps : StatementSteps fun before after => ∀ name, before.Knows name → after.Knows name where
  refl _ _ := id
  trans first second name known := second name (first name known)
  decide _ _ _ := id
  declare := by
    intro before declared name declares other known
    cases scopes : before.scopes with
    | nil =>
        have ⟨declared', declares', _, sameKnown, _⟩ := declare?_outside scopes name
        cases declares.symm.trans declares'
        exact (sameKnown other).mpr known
    | cons innermost outer =>
        rw [Resolver.declared_inside scopes declares]
        exact known
  define := by
    intro before name other known
    cases scopes : before.scopes with
    | nil =>
        unfold Resolver.Knows
        rw [(define_outside scopes name other).2]
        split
        · rfl
        · exact known
    | cons innermost outer =>
        rw [Resolver.define_inside_eq scopes]
        exact known
  setScopes _ _ _ := id
  setInFunction _ _ _ := id

end Resolving

namespace Resolver

variable {resolver : Resolver} {program : List (Statement Unit)}

/-! ## Between two programs -/

/-- Resolving a program, with or without success, leaves a settled resolver settled. -/
theorem Settled.resolve (settled : resolver.Settled) (program : List (Statement Unit)) :
    (resolver.resolve program).2.Settled := by
  cases resolves : resolver.resolve program with
  | mk result after =>
      cases result with
      | ok resolved =>
          have gives := resolve_eq_ok_iff.mp resolves
          have ends := Unwinding.statements_follows program resolver
          rw [show (Resolving.statements program).outcome resolver = _ from gives] at ends
          have ⟨_, depth⟩ := ends
          refine ⟨?_, ?_, fun name waits => ?_⟩
          · rw [settled.outside] at depth
            exact List.eq_nil_of_length_eq_zero depth
          · exact (Resolving.statements_inFunction program gives).1.trans settled.inFunction
          · exact settled.ready name (Resolving.statements_finishes program gives name waits)
      | error mistake =>
          have ⟨between, _, left⟩ := resolve_eq_error_iff.mp resolves
          rw [left]
          exact settled_recovered between

/-- The resolver behind programs that it resolves one after another, each accepted or refused. -/
def behind (resolver : Resolver) : List (List (Statement Unit)) → Resolver
  | [] => resolver
  | program :: later => (resolver.resolve program).2.behind later

theorem behind_append (resolver : Resolver) (past later : List (List (Statement Unit))) :
    resolver.behind (past ++ later) = (resolver.behind past).behind later := by
  induction past generalizing resolver with
  | nil => rfl
  | cons program past inductionHypothesis => exact inductionHypothesis _

theorem Settled.behind (settled : resolver.Settled) (past : List (List (Statement Unit))) :
    (resolver.behind past).Settled := by
  induction past generalizing resolver with
  | nil => exact settled
  | cons program past inductionHypothesis => exact inductionHypothesis (settled.resolve program)

theorem knows_resolve {name : String} (known : resolver.Knows name) (program : List (Statement Unit)) :
    (resolver.resolve program).2.Knows name := by
  have keeps := Resolving.knows_steps.laws.statements program resolver name known
  cases resolves : resolver.resolve program with
  | mk result after =>
      cases result with
      | ok resolved =>
          rw [show (Resolving.statements program).outcome resolver = _ from resolve_eq_ok_iff.mp resolves]
            at keeps
          exact keeps
      | error mistake =>
          have ⟨between, stops, left⟩ := resolve_eq_error_iff.mp resolves
          rw [stops] at keeps
          rw [left]
          exact (knows_recovered_iff name).mpr keeps

theorem knows_behind {name : String} (known : resolver.Knows name) (past : List (List (Statement Unit))) :
    (resolver.behind past).Knows name := by
  induction past generalizing resolver with
  | nil => exact known
  | cons program past inductionHypothesis => exact inductionHypothesis (knows_resolve known program)

/-- Between two programs a resolver knows what its table of globals names. -/
theorem Settled.knows_ofKnown_names_iff (settled : resolver.Settled) (name : String) :
    (ofKnown resolver.globals.names).Knows name ↔ resolver.Knows name := by
  rw [← settled.contains_iff, knows_ofKnown_iff, Table.mem_names_iff]

/-- The distances of a program depend on nothing but its result and its decisions. -/
theorem distances_eq {other : Resolver} (sameResult : (resolver.resolve program).1 = (other.resolve program).1)
    (sameDecisions : resolver.decisions program = other.decisions program) :
    resolver.distances program = other.distances program := by
  unfold decisions at sameDecisions
  unfold distances
  revert sameResult sameDecisions
  cases resolver.resolve program with
  | mk result after =>
      cases other.resolve program with
      | mk result' after' =>
          intro sameResult sameDecisions
          cases sameResult
          cases result with
          | ok resolved => rfl
          | error mistake =>
              dsimp only at sameDecisions ⊢
              rw [← Array.length_toList, ← Array.length_toList, sameDecisions]

/-- Settled resolvers that know the same decide the same. -/
theorem Settled.decisions_eq {other : Resolver} (settled : resolver.Settled) (settledOther : other.Settled)
    (same : ∀ name, resolver.Knows name ↔ other.Knows name) (program : List (Statement Unit)) :
    resolver.decisions program = other.decisions program := by
  have there := (settled.widened settledOther fun name => (same name).mp).decisions_isPrefix program
  have back := (settledOther.widened settled fun name => (same name).mpr).decisions_isPrefix program
  exact there.eq_of_length (Nat.le_antisymm there.length_le back.length_le)

/-- What a settled resolver accepts, one that knows more accepts with the same bindings. -/
theorem Settled.accepts {wide : Resolver} (settled : resolver.Settled) (settledWide : wide.Settled)
    (knows : ∀ name, resolver.Knows name → wide.Knows name) {resolved : List (Statement Binding)}
    (accepts : (resolver.resolve program).1 = .ok resolved) :
    (wide.resolve program).1 = .ok resolved ∧ wide.distances program = resolver.distances program := by
  have acceptsWide := (settled.widened settledWide knows).resolve_eq_ok accepts
  refine ⟨acceptsWide, ?_⟩
  unfold distances
  rw [← Prod.eta (wide.resolve program), ← Prod.eta (resolver.resolve program), acceptsWide, accepts]

/-- Nothing is seen of the programs that a resolver resolved, accepted or refused, but the names of the
globals. It is settled behind each of them. The next program comes out as from a resolver that knows those
names from the start, with the same distances, and is left without a missing scope. What was decided before
stays, and is decided again where a program is resolved again. -/
theorem past_unobservable (known : List String) (past : List (List (Statement Unit))) :
    let resolver := (ofKnown known).behind past
    let fresh := ofKnown resolver.globals.names
    resolver.Settled ∧ ∀ program,
      (resolver.resolve program).1 = (fresh.resolve program).1 ∧
      resolver.distances program = fresh.distances program ∧
      resolver.resolveUnwinding program =
        ((resolver.resolve program).1.mapError .mistake, (resolver.resolve program).2) ∧
      (resolver.resolve program).2.decided.toList =
        resolver.decided.toList ++ fresh.decisions program ∧
      ∀ earlier later, past = earlier ++ program :: later →
        ((ofKnown known).behind earlier).decisions program <+: fresh.decisions program := by
  intro resolver fresh
  have settled : resolver.Settled := (settled_ofKnown known).behind past
  have settledFresh : fresh.Settled := settled_ofKnown _
  have sameKnown := settled.knows_ofKnown_names_iff
  have sameDecisions := settledFresh.decisions_eq settled sameKnown
  have alike := settledFresh.alike settled sameKnown
  refine ⟨settled, fun program => ?_⟩
  have sameResult := (alike.resolve program).1
  refine ⟨sameResult.symm, (distances_eq sameResult (sameDecisions program)).symm,
    resolver.resolveUnwinding_eq program, ?_, ?_⟩
  · rw [sameDecisions]
    exact resolver.decided_resolve program
  · intro earlier later split
    have settledEarlier : ((ofKnown known).behind earlier).Settled := (settled_ofKnown known).behind earlier
    -- What was known when the program was first resolved is known still.
    have knows (name : String) (knownEarlier : ((ofKnown known).behind earlier).Knows name) :
        fresh.Knows name := by
      rw [sameKnown]
      change ((ofKnown known).behind past).Knows name
      rw [split, behind_append]
      exact knows_behind knownEarlier _
    exact (settledEarlier.widened settledFresh knows).decisions_isPrefix program

/-- A program that is resolved behind itself. Its decisions stay, and are made again where the name that it
declares is known. -/
theorem past_unobservable_resolvedTwice :
    let program := [.declaration ⟨"a", 1⟩ none,
      .block [.declaration ⟨"b", 2⟩ (some (.variable ⟨"a", 2⟩ ())), .print (.variable ⟨"b", 2⟩ ())]]
    let fresh := ofKnown ((ofKnown []).behind [program]).globals.names
    [program] = [] ++ program :: [] ∧
      (ofKnown []).decisions program = [.global, .enclosing 0] ∧
      (ofKnown []).decisions program <+: fresh.decisions program := by
  intro program fresh
  have ⟨_, all⟩ := past_unobservable [] [program]
  have ⟨_, _, _, _, again⟩ := all program
  exact ⟨rfl, rfl, again [] [] rfl⟩

/-- A program that is accepted is accepted with the same bindings and distances where more globals are known,
and so by the same resolver at any later time. -/
theorem accepted_where_more_known (program : List (Statement Unit)) :
    (∀ known more resolved, known ⊆ more → ((ofKnown known).resolve program).1 = .ok resolved →
      ((ofKnown more).resolve program).1 = .ok resolved ∧
        (ofKnown more).distances program = (ofKnown known).distances program) ∧
    ∀ known past later resolved, (((ofKnown known).behind past).resolve program).1 = .ok resolved →
      (((ofKnown known).behind (past ++ program :: later)).resolve program).1 = .ok resolved ∧
        ((ofKnown known).behind (past ++ program :: later)).distances program =
          ((ofKnown known).behind past).distances program := by
  constructor
  · intro known more resolved included accepts
    refine (settled_ofKnown known).accepts (settled_ofKnown more) (fun name knows => ?_) accepts
    exact (knows_ofKnown_iff more name).mpr (included ((knows_ofKnown_iff known name).mp knows))
  · intro known past later resolved accepts
    have settled : ((ofKnown known).behind past).Settled := (settled_ofKnown known).behind past
    rw [behind_append]
    exact settled.accepts (settled.behind _) (fun name knows => knows_behind knows _) accepts

/-- A local variable may be read in its own initializer where a global of its name is known, behind a refused
program too. -/
theorem accepted_where_more_known_ownInitializer :
    let program := [.block [.declaration ⟨"a", 1⟩ (some (.variable ⟨"a", 1⟩ ()))]]
    let resolved := [.block [.declaration ⟨"a", 1⟩ (some (.variable ⟨"a", 1⟩ .global))]]
    ((ofKnown ["a", "b"]).resolve program).1 = .ok resolved ∧
      (((ofKnown ["a"]).behind [[.returning 1 none], program]).resolve program).1 = .ok resolved := by
  intro program resolved
  have ⟨known, again⟩ := accepted_where_more_known program
  exact ⟨(known ["a"] ["a", "b"] resolved (by simp) rfl).1,
    (again ["a"] [[.returning 1 none]] [] resolved rfl).1⟩

end Resolver

end LoxInterpreter
