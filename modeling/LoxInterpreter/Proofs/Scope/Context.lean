import LoxInterpreter.Proofs.Scope.Walking
import LoxInterpreter.Tree.Reference

/-!
Contract: what the resolver decides, read off the text alone.

A context holds the names that are declared in the scopes around a position, before that position. It
says where a name is found. A tree is bound in a context when each of its references has the binding
that the context at its own position says, and nothing is declared twice in a scope.

Owns: `Context`, `Expression.Bound`, `Statement.Bound`, and `Resolver.resolve_bound`.
Does not own: what bindings mean when programs run (`Proofs.Execution.Agreement`).
-/

namespace LoxInterpreter

/-- The names declared in the scopes around a position, the innermost scope first. -/
abbrev Context := List (List String)

namespace Context

/-- Where a name is found. -/
def binding (context : Context) (name : String) : Binding :=
  match context.findIdx? (·.contains name) with
  | some distance => .enclosing distance
  | none => .global

/-- Where an assignment goes, while a name of the innermost scope may wait for its initializer. -/
def assignedBinding (context : Context) (waiting : Option String) (name : String) : Binding :=
  if waiting = some name then .enclosing 0 else context.binding name

/-- The name that waits while its initializer is read; globals do not. -/
def waitingFor : Context → String → Option String
  | [], _ => none
  | _ :: _, name => some name

/-- Whether the innermost scope, if there is one, has no such name yet. -/
def Fresh : Context → String → Prop
  | [], _ => True
  | innermost :: _, name => name ∉ innermost

/-- The context behind the declaration of a name. -/
def declare : Context → String → Context
  | [], _ => []
  | innermost :: outer, name => (name :: innermost) :: outer

/-- In a new scope, each name is one scope further out. -/
theorem binding_enter (context : Context) (name : String) :
    binding ([] :: context) name =
      match context.binding name with
      | .enclosing distance => .enclosing (distance + 1)
      | .global => .global := by
  unfold binding
  rw [List.findIdx?_cons]
  cases context.findIdx? (·.contains name) with
  | none => rfl
  | some distance => rfl

theorem binding_declare_self (innermost : List String) (outer : Context) (name : String) :
    binding ((name :: innermost) :: outer) name = .enclosing 0 := by
  unfold binding
  rw [List.findIdx?_cons, if_pos (by simp)]

theorem binding_declare_of_ne (innermost : List String) (outer : Context) {name other : String}
    (different : other ≠ name) :
    binding ((name :: innermost) :: outer) other = binding (innermost :: outer) other := by
  unfold binding
  have same : (name :: innermost).contains other = innermost.contains other := by
    simp [different]
  rw [List.findIdx?_cons, List.findIdx?_cons, same]

end Context

mutual

/-- Whether the references of an expression are bound as a context says. -/
def Expression.Bound (context : Context) (waiting : Option String) : Expression Binding → Prop
  | .constant _ => True
  | .grouping inner => inner.Bound context waiting
  | .variable name binding => binding = context.binding name.text
  | .assignment name binding value =>
      value.Bound context waiting ∧ binding = context.assignedBinding waiting name.text
  | .unary _ _ operand => operand.Bound context waiting
  | .binary _ _ left right => left.Bound context waiting ∧ right.Bound context waiting
  | .logical _ _ left right => left.Bound context waiting ∧ right.Bound context waiting
  | .call callee arguments _ =>
      callee.Bound context waiting ∧ Expression.listBound context waiting arguments

/-- Whether the references of several expressions are bound as a context says. -/
def Expression.listBound (context : Context) (waiting : Option String) :
    List (Expression Binding) → Prop
  | [] => True
  | first :: rest => first.Bound context waiting ∧ Expression.listBound context waiting rest

end

/-- The context behind a statement. -/
def Statement.contextBehind {Known : Type} (context : Context) : Statement Known → Context
  | .declaration name _ | .function name _ _ => context.declare name.text
  | _ => context

mutual

/-- Whether the references of a statement are bound as the contexts at their positions say. Branches
and loop bodies declare nothing, so that the context behind them is the one before. -/
def Statement.Bound : Context → Statement Binding → Prop
  | context, .expression value => value.Bound context none
  | context, .print value => value.Bound context none
  | context, .declaration name initializer =>
      context.Fresh name.text ∧
        ∀ value ∈ initializer, value.Bound context (context.waitingFor name.text)
  | context, .function name parameters body =>
      context.Fresh name.text ∧ (parameters.map Name.text).Nodup ∧
        Statement.listBound ((parameters.map Name.text).reverse :: context.declare name.text) body
  | context, .block items => Statement.listBound ([] :: context) items
  | context, .conditional condition thenBranch none =>
      condition.Bound context none ∧ thenBranch.isDeclaration = false ∧ thenBranch.Bound context
  | context, .conditional condition thenBranch (some elseBranch) =>
      condition.Bound context none ∧ (thenBranch.isDeclaration = false ∧ thenBranch.Bound context) ∧
        elseBranch.isDeclaration = false ∧ elseBranch.Bound context
  | context, .loop condition body =>
      condition.Bound context none ∧ body.isDeclaration = false ∧ body.Bound context
  | context, .returning _ value => ∀ result ∈ value, result.Bound context none

/-- Whether the references of several statements are bound, each statement in the context behind the
ones before it. -/
def Statement.listBound : Context → List (Statement Binding) → Prop
  | _, [] => True
  | context, first :: rest =>
      first.Bound context ∧ Statement.listBound (first.contextBehind context) rest

end

theorem Statement.contextBehind_of_plain {Known : Type} {statement : Statement Known}
    (plain : statement.isDeclaration = false) (context : Context) :
    statement.contextBehind context = context := by
  cases statement <;> simp [Statement.isDeclaration, Statement.contextBehind] at plain ⊢

theorem Statement.isDeclaration_mapKnown {Known Other : Type} (change : Known → Other)
    (statement : Statement Known) :
    (statement.mapKnown change).isDeclaration = statement.isDeclaration := by
  cases statement with
  | conditional condition thenBranch elseBranch => cases elseBranch <;> rfl
  | _ => rfl

/-- The context behind several statements. -/
def Statement.listContextBehind {Known : Type} (context : Context) (statements : List (Statement Known)) :
    Context :=
  statements.foldl Statement.contextBehind context

theorem Statement.tail_contextBehind {Known : Type} (context : Context) (statement : Statement Known) :
    (statement.contextBehind context).tail = context.tail := by
  cases statement <;> cases context <;> rfl

/-- Statements declare names in the innermost scope alone. -/
theorem Statement.tail_listContextBehind {Known : Type} (context : Context)
    (statements : List (Statement Known)) :
    (Statement.listContextBehind context statements).tail = context.tail := by
  unfold Statement.listContextBehind
  induction statements generalizing context with
  | nil => rfl
  | cons first rest inductionHypothesis =>
      rw [List.foldl_cons, inductionHypothesis, first.tail_contextBehind]

/-- Outside all scopes nothing is declared in a scope. -/
theorem Statement.listContextBehind_nil {Known : Type} (statements : List (Statement Known)) :
    Statement.listContextBehind [] statements = [] := by
  unfold Statement.listContextBehind
  induction statements with
  | nil => rfl
  | cons first rest inductionHypothesis =>
      have stays : first.contextBehind [] = [] := by cases first <;> rfl
      rw [List.foldl_cons, stays, inductionHypothesis]

/-! ## Scopes that show a context -/

/-- Whether a scope has certain names, all of them ready, and besides these at most one that waits. -/
structure Scope.Shows (scope : Scope) (names : List String) (waiting : Option String) : Prop where
  get?_eq : ∀ name, scope.get? name =
    if waiting = some name then some false else if name ∈ names then some true else none
  fresh : ∀ name, waiting = some name → name ∉ names

/-- Whether the scopes of a resolver show a context. -/
inductive Context.Shown : Context → Option String → List Scope → Prop where
  | nil : Shown [] none []
  | cons {names : List String} {outer : Context} {waiting : Option String} {scope : Scope}
      {scopes : List Scope} (innermost : scope.Shows names waiting) (behind : Shown outer none scopes) :
      Shown (names :: outer) waiting (scope :: scopes)

namespace Scope.Shows

variable {scope : Scope} {names : List String} {waiting : Option String}

theorem contains_iff (shows : scope.Shows names waiting) (name : String) :
    scope.contains name = true ↔ waiting = some name ∨ name ∈ names := by
  unfold Table.contains
  rw [shows.get?_eq name]
  by_cases isWaiting : waiting = some name
  · simp [isWaiting]
  · by_cases member : name ∈ names <;> simp [isWaiting, member]

theorem contains_eq (shows : scope.Shows names none) (name : String) :
    scope.contains name = names.contains name := by
  have same := shows.contains_iff name
  by_cases member : name ∈ names
  · rw [same.mpr (.inr member)]
    simpa using member
  · have absent : scope.contains name = false := by
      rw [Bool.eq_false_iff]
      intro present
      exact (same.mp present).elim (by simp) member
    rw [absent]
    simpa using member

theorem empty : Scope.Shows Table.empty [] none :=
  ⟨by simp, by simp⟩

/-- A declared name waits. -/
theorem set_false (shows : scope.Shows names none) {name : String} (fresh : name ∉ names) :
    Scope.Shows (scope.set name false) names (some name) := by
  constructor
  · intro other
    by_cases same : other = name
    · subst same
      simp
    · rw [Table.get?_set_of_ne scope same, shows.get?_eq other]
      have notWaiting : ¬ some name = some other := fun equal => same (Option.some.inj equal).symm
      simp [notWaiting]
  · intro other isWaiting
    rwa [← Option.some.inj isWaiting]

/-- A name that waited, and is ready now. -/
theorem set_true {name : String} (shows : scope.Shows names (some name)) :
    Scope.Shows (scope.set name true) (name :: names) none := by
  constructor
  · intro other
    by_cases same : other = name
    · subst same
      simp
    · rw [Table.get?_set_of_ne scope same, shows.get?_eq other]
      have notWaiting : ¬ some name = some other := fun equal => same (Option.some.inj equal).symm
      simp [notWaiting, same]
  · simp

end Scope.Shows

namespace Context.Shown

variable {context : Context} {waiting : Option String} {scopes : List Scope}

theorem tail (shown : context.Shown none scopes) : Context.Shown context.tail none scopes.tail := by
  cases shown with
  | nil => exact .nil
  | cons innermost behind => exact behind

theorem findIdx?_eq (shown : context.Shown none scopes) (name : String) :
    scopes.findIdx? (·.contains name) = context.findIdx? (·.contains name) := by
  generalize isNone : (none : Option String) = waiting at shown
  induction shown with
  | nil => rfl
  | cons innermost behind inductionHypothesis =>
      subst isNone
      rw [List.findIdx?_cons, List.findIdx?_cons, inductionHypothesis rfl, innermost.contains_eq name]

theorem bindingIn_eq (shown : context.Shown waiting scopes) (name : String) :
    Resolver.bindingIn scopes name = context.assignedBinding waiting name := by
  unfold Resolver.bindingIn Resolver.distance? Context.assignedBinding Context.binding
  cases shown with
  | nil => rfl
  | @cons names outer _ scope scopes innermost behind =>
      by_cases isWaiting : waiting = some name
      · have present := (innermost.contains_iff name).mpr (.inl isWaiting)
        rw [List.findIdx?_cons, if_pos present, if_pos isWaiting]
      · have same : scope.contains name = names.contains name := by
          have iff := innermost.contains_iff name
          by_cases member : name ∈ names <;> simp [isWaiting, member] at iff ⊢ <;> exact iff
        have sameDistance : (scope :: scopes).findIdx? (·.contains name) =
            (names :: outer).findIdx? (·.contains name) := by
          rw [List.findIdx?_cons, List.findIdx?_cons, same, behind.findIdx?_eq name]
        cases found : (names :: outer).findIdx? (·.contains name) with
        | none => simp only [if_neg isWaiting, sameDistance, found]
        | some distance => simp only [if_neg isWaiting, sameDistance, found]

/-- What is read is bound as the context says, also in its own initializer. -/
theorem readBinding?_eq {resolver : Resolver} (shown : context.Shown waiting resolver.scopes)
    {name : String} {binding : Binding} (read : resolver.readBinding? name = some binding) :
    binding = context.binding name := by
  have assigned := shown.bindingIn_eq name
  unfold Resolver.readBinding? at read
  generalize isScopes : resolver.scopes = scopes at read shown assigned
  cases shown with
  | nil =>
      simp only [Option.ite_none_left_eq_some, Option.some.injEq] at read
      exact read.2.symm
  | @cons names outer _ scope scopes innermost behind =>
      simp only at read
      by_cases isWaiting : waiting = some name
      · have notReady : scope.get? name = some false := by
          rw [innermost.get?_eq name, if_pos isWaiting]
        have absent : names.contains name = false := by
          simpa using innermost.fresh name isWaiting
        rw [if_pos notReady] at read
        unfold Resolver.distance? at read
        rw [behind.findIdx?_eq name] at read
        unfold Context.binding
        rw [List.findIdx?_cons, absent]
        cases found : outer.findIdx? (·.contains name) with
        | some distance =>
            rw [found] at read
            exact (Option.some.inj read).symm
        | none =>
            simp only [found, Option.ite_none_right_eq_some, Option.some.injEq] at read
            exact read.2.symm
      · have ready : scope.get? name ≠ some false := by
          rw [innermost.get?_eq name, if_neg isWaiting]
          split <;> simp
        rw [if_neg ready, assigned] at read
        unfold Context.assignedBinding at read
        rw [if_neg isWaiting] at read
        exact (Option.some.inj read).symm

end Context.Shown

/-! ## What a walk decides -/

namespace Resolving

variable {context : Context} {waiting : Option String} {before after : Resolver}

mutual

theorem expression_bound : (tree : Expression Unit) → (result : Expression Binding) →
    (before after : Resolver) → (expression tree).Gives before result after →
    context.Shown waiting before.scopes →
    result.Bound context waiting ∧ result.mapKnown (fun _ => ()) = tree
  | .constant value, result, before, after, gives, _ => by
      rw [expression] at gives
      rw [(gives_pure_iff.mp gives).1]
      exact ⟨trivial, rfl⟩
  | .grouping inner, result, before, after, gives, shown => by
      rw [expression] at gives
      obtain ⟨inner', one, rfl⟩ := gives_map_iff.mp gives
      have ⟨bound, erased⟩ := expression_bound inner inner' before after one shown
      exact ⟨bound, by rw [Expression.mapKnown, erased]⟩
  | .variable name known, result, before, after, gives, shown => by
      rw [expression] at gives
      obtain ⟨binding, one, rfl⟩ := gives_map_iff.mp gives
      have ⟨read, _⟩ := gives_readReference_iff.mp one
      exact ⟨shown.readBinding?_eq read, rfl⟩
  | .assignment name known value, result, before, after, gives, shown => by
      rw [expression] at gives
      have ⟨value', between, one, rest⟩ := gives_bind_iff.mp gives
      obtain ⟨binding, assigned, rfl⟩ := gives_map_iff.mp rest
      have ⟨isBinding, _⟩ := gives_assignedReference_iff.mp assigned
      have ⟨bound, erased⟩ := expression_bound value value' before between one shown
      refine ⟨⟨bound, ?_⟩, by rw [Expression.mapKnown, erased]⟩
      rw [isBinding, (expression_decidesOnly value).scopes_eq one]
      exact shown.bindingIn_eq name.text
  | .unary operator line operand, result, before, after, gives, shown => by
      rw [expression] at gives
      obtain ⟨operand', one, rfl⟩ := gives_map_iff.mp gives
      have ⟨bound, erased⟩ := expression_bound operand operand' before after one shown
      exact ⟨bound, by rw [Expression.mapKnown, erased]⟩
  | .binary operator line left right, result, before, after, gives, shown => by
      rw [expression] at gives
      have ⟨left', between, first, rest⟩ := gives_bind_iff.mp gives
      obtain ⟨right', second, rfl⟩ := gives_map_iff.mp rest
      have ⟨boundLeft, erasedLeft⟩ := expression_bound left left' before between first shown
      rw [← (expression_decidesOnly left).scopes_eq first] at shown
      have ⟨boundRight, erasedRight⟩ := expression_bound right right' between after second shown
      exact ⟨⟨boundLeft, boundRight⟩, by rw [Expression.mapKnown, erasedLeft, erasedRight]⟩
  | .logical operator line left right, result, before, after, gives, shown => by
      rw [expression] at gives
      have ⟨left', between, first, rest⟩ := gives_bind_iff.mp gives
      obtain ⟨right', second, rfl⟩ := gives_map_iff.mp rest
      have ⟨boundLeft, erasedLeft⟩ := expression_bound left left' before between first shown
      rw [← (expression_decidesOnly left).scopes_eq first] at shown
      have ⟨boundRight, erasedRight⟩ := expression_bound right right' between after second shown
      exact ⟨⟨boundLeft, boundRight⟩, by rw [Expression.mapKnown, erasedLeft, erasedRight]⟩
  | .call callee arguments line, result, before, after, gives, shown => by
      rw [expression] at gives
      have ⟨callee', between, first, rest⟩ := gives_bind_iff.mp gives
      obtain ⟨arguments', second, rfl⟩ := gives_map_iff.mp rest
      have ⟨boundCallee, erasedCallee⟩ := expression_bound callee callee' before between first shown
      rw [← (expression_decidesOnly callee).scopes_eq first] at shown
      have ⟨boundArguments, erasedArguments⟩ :=
        expressions_bound arguments arguments' between after second shown
      exact ⟨⟨boundCallee, boundArguments⟩,
        by rw [Expression.mapKnown, erasedCallee, erasedArguments]⟩

theorem expressions_bound : (trees : List (Expression Unit)) → (results : List (Expression Binding)) →
    (before after : Resolver) → (expressions trees).Gives before results after →
    context.Shown waiting before.scopes →
    Expression.listBound context waiting results ∧
      Expression.listMapKnown (fun _ => ()) results = trees
  | [], results, before, after, gives, _ => by
      rw [expressions] at gives
      rw [(gives_pure_iff.mp gives).1]
      exact ⟨trivial, rfl⟩
  | first :: rest, results, before, after, gives, shown => by
      rw [expressions] at gives
      have ⟨first', between, one, behind⟩ := gives_bind_iff.mp gives
      obtain ⟨rest', others, rfl⟩ := gives_map_iff.mp behind
      have ⟨boundFirst, erasedFirst⟩ := expression_bound first first' before between one shown
      rw [← (expression_decidesOnly first).scopes_eq one] at shown
      have ⟨boundRest, erasedRest⟩ := expressions_bound rest rest' between after others shown
      exact ⟨⟨boundFirst, boundRest⟩, by rw [Expression.listMapKnown, erasedFirst, erasedRest]⟩

end

theorem optionalExpression_bound {tree : Option (Expression Unit)}
    {result : Option (Expression Binding)} (gives : (optionalExpression tree).Gives before result after)
    (shown : context.Shown waiting before.scopes) :
    (∀ value ∈ result, value.Bound context waiting) ∧
      result.map (·.mapKnown fun _ => ()) = tree ∧ after.scopes = before.scopes := by
  have scopes := (optionalExpression_decidesOnly tree).scopes_eq gives
  cases tree with
  | none =>
      obtain ⟨rfl, rfl⟩ := gives_pure_iff.mp gives
      exact ⟨by simp, rfl, rfl⟩
  | some value =>
      obtain ⟨value', one, rfl⟩ := gives_map_iff.mp gives
      have ⟨bound, erased⟩ := expression_bound value value' before after one shown
      exact ⟨by simpa using bound, by rw [Option.map_some, erased], scopes⟩

/-- A declaration is refused where the innermost scope has the name, and otherwise lets it wait. -/
theorem declare_shown {name : Name} {result : Unit} (gives : (declare name).Gives before result after)
    (shown : context.Shown none before.scopes) :
    context.Fresh name.text ∧ context.Shown (context.waitingFor name.text) after.scopes := by
  have declared := gives_declare_iff.mp gives
  unfold Resolver.declare? at declared
  generalize isScopes : before.scopes = scopes at shown declared
  cases shown with
  | nil =>
      refine ⟨trivial, ?_⟩
      simp only at declared
      split at declared
      · rw [← Option.some.inj declared, isScopes]
        exact .nil
      · rw [← Option.some.inj declared]
        exact isScopes ▸ .nil
  | @cons names outer _ scope scopes innermost behind =>
      simp only at declared
      split at declared
      · simp at declared
      · rename_i absent
        have fresh : name.text ∉ names := by
          intro member
          exact absent ((innermost.contains_iff name.text).mpr (.inr member))
        rw [← Option.some.inj declared]
        exact ⟨fresh, .cons (innermost.set_false fresh) behind⟩

/-- What waited is ready behind its declaration. -/
theorem define_shown {name : Name} {result : Unit} (gives : (define name).Gives before result after)
    (shown : context.Shown (context.waitingFor name.text) before.scopes) :
    (context.declare name.text).Shown none after.scopes := by
  rw [gives_define_iff.mp gives]
  unfold Resolver.define
  generalize before.scopes = scopes at shown ⊢
  cases shown with
  | nil => exact .nil
  | cons innermost behind => exact .cons innermost.set_true behind

/-- Parameters are declared one after another in the scope of a body, each of them once. -/
theorem declareReady_shown {names : List Name} {innermost : List String} {result : Unit}
    (gives : (declareReady names).Gives before result after)
    (shown : Context.Shown (innermost :: context) none before.scopes) :
    (names.map Name.text).Nodup ∧ (∀ name ∈ names.map Name.text, name ∉ innermost) ∧
      Context.Shown (((names.map Name.text).reverse ++ innermost) :: context) none after.scopes := by
  induction names generalizing innermost before with
  | nil =>
      obtain ⟨_, rfl⟩ := gives_pure_iff.mp gives
      exact ⟨.nil, by simp, shown⟩
  | cons name rest inductionHypothesis =>
      rw [declareReady] at gives
      obtain ⟨_, declared, declares, behind⟩ := gives_bind_iff.mp gives
      obtain ⟨_, defined, defines, following⟩ := gives_bind_iff.mp behind
      obtain ⟨fresh, waits⟩ := declare_shown declares shown
      have ready := define_shown defines waits
      obtain ⟨nodup, others, shownRest⟩ := inductionHypothesis following ready
      refine ⟨List.nodup_cons.mpr ⟨?_, nodup⟩, ?_, ?_⟩
      · intro member
        exact others name.text member List.mem_cons_self
      · intro other member
        rcases List.mem_cons.mp member with rfl | later
        · exact fresh
        · intro inner
          exact others other later (List.mem_cons_of_mem _ inner)
      · simpa using shownRest

/-- Behind a scope, its enclosing scopes show what they showed. -/
theorem leaveScope_shown {items : List (Statement Binding)} {innermost : List String}
    (shown : (Statement.listContextBehind (innermost :: context) items).Shown none before.scopes) :
    context.Shown none before.leaveScope.scopes := by
  have behind := shown.tail
  rwa [Statement.tail_listContextBehind] at behind

/-- A branch or loop body leaves the scopes as they were. -/
theorem plain_shown {tree : Statement Unit} {result : Statement Binding}
    (plain : tree.isDeclaration = false) (erased : result.mapKnown (fun _ => ()) = tree)
    (shown : (result.contextBehind context).Shown none after.scopes) :
    result.isDeclaration = false ∧ context.Shown none after.scopes := by
  have plainResult : result.isDeclaration = false := by
    rw [← Statement.isDeclaration_mapKnown (fun _ => ()) result, erased]
    exact plain
  rw [Statement.contextBehind_of_plain plainResult] at shown
  exact ⟨plainResult, shown⟩

mutual

theorem statement_bound : (tree : Statement Unit) → (result : Statement Binding) →
    (context : Context) → (before after : Resolver) → tree.Normal →
    (statement tree).Gives before result after → context.Shown none before.scopes →
    result.Bound context ∧ result.mapKnown (fun _ => ()) = tree ∧
      (result.contextBehind context).Shown none after.scopes
  | .expression value, result, context, before, after, _, gives, shown => by
      rw [statement] at gives
      obtain ⟨value', one, rfl⟩ := gives_map_iff.mp gives
      have ⟨bound, erased⟩ := expression_bound value value' before after one shown
      rw [← (expression_decidesOnly value).scopes_eq one] at shown
      exact ⟨bound, by rw [Statement.mapKnown, erased], shown⟩
  | .print value, result, context, before, after, _, gives, shown => by
      rw [statement] at gives
      obtain ⟨value', one, rfl⟩ := gives_map_iff.mp gives
      have ⟨bound, erased⟩ := expression_bound value value' before after one shown
      rw [← (expression_decidesOnly value).scopes_eq one] at shown
      exact ⟨bound, by rw [Statement.mapKnown, erased], shown⟩
  | .declaration name initializer, result, context, before, after, _, gives, shown => by
      rw [statement] at gives
      obtain ⟨_, declared, declares, rest⟩ := gives_bind_iff.mp gives
      obtain ⟨initializer', resolved, resolves, rest⟩ := gives_bind_iff.mp rest
      obtain ⟨_, defined, defines, done⟩ := gives_bind_iff.mp rest
      obtain ⟨rfl, rfl⟩ := gives_pure_iff.mp done
      obtain ⟨fresh, waits⟩ := declare_shown declares shown
      obtain ⟨bound, erased, scopes⟩ := optionalExpression_bound resolves waits
      rw [← scopes] at waits
      have ready := define_shown defines waits
      exact ⟨⟨fresh, bound⟩, by rw [Statement.mapKnown, erased], ready⟩
  | .function name parameters body, result, context, before, after, normal, gives, shown => by
      rw [statement] at gives
      obtain ⟨_, declared, declares, rest⟩ := gives_bind_iff.mp gives
      obtain ⟨_, defined, defines, rest⟩ := gives_bind_iff.mp rest
      obtain ⟨body', one, rfl⟩ := gives_map_iff.mp rest
      obtain ⟨inside, walked, rfl⟩ := gives_inBody_iff.mp one
      obtain ⟨_, ready, declaresParameters, walksBody⟩ := gives_bind_iff.mp walked
      obtain ⟨fresh, waits⟩ := declare_shown declares shown
      have shownDefined := define_shown defines waits
      have entered : Context.Shown ([] :: context.declare name.text) none
          ({ defined with inFunction := true } : Resolver).enterScope.scopes :=
        .cons Scope.Shows.empty shownDefined
      obtain ⟨nodup, _, shownParameters⟩ := declareReady_shown declaresParameters entered
      rw [List.append_nil] at shownParameters
      obtain ⟨bound, erased, shownBody⟩ :=
        statements_bound body body' _ ready inside normal.2 walksBody shownParameters
      refine ⟨⟨fresh, nodup, bound⟩, by rw [Statement.mapKnown, erased], ?_⟩
      exact leaveScope_shown shownBody
  | .block items, result, context, before, after, normal, gives, shown => by
      rw [statement] at gives
      obtain ⟨items', one, rfl⟩ := gives_map_iff.mp gives
      obtain ⟨inside, walked, rfl⟩ := gives_inScope_iff.mp one
      have entered : Context.Shown ([] :: context) none before.enterScope.scopes :=
        .cons Scope.Shows.empty shown
      obtain ⟨bound, erased, shownItems⟩ :=
        statements_bound items items' _ _ inside normal walked entered
      exact ⟨bound, by rw [Statement.mapKnown, erased], leaveScope_shown shownItems⟩
  | .conditional condition thenBranch none, result, context, before, after, normal, gives, shown => by
      rw [statement] at gives
      obtain ⟨condition', tested, one, rest⟩ := gives_bind_iff.mp gives
      obtain ⟨thenBranch', two, rfl⟩ := gives_map_iff.mp rest
      have ⟨bound, erased⟩ := expression_bound condition condition' before tested one shown
      rw [← (expression_decidesOnly condition).scopes_eq one] at shown
      obtain ⟨boundThen, erasedThen, shownThen⟩ :=
        statement_bound thenBranch thenBranch' context tested after normal.2.2 two shown
      obtain ⟨plain, shownThen⟩ := plain_shown normal.2.1 erasedThen shownThen
      exact ⟨⟨bound, plain, boundThen⟩, by rw [Statement.mapKnown, erased, erasedThen], shownThen⟩
  | .conditional condition thenBranch (some elseBranch), result, context, before, after, normal,
      gives, shown => by
      rw [statement] at gives
      obtain ⟨condition', tested, one, rest⟩ := gives_bind_iff.mp gives
      obtain ⟨thenBranch', chosen, two, rest⟩ := gives_bind_iff.mp rest
      obtain ⟨elseBranch', three, rfl⟩ := gives_map_iff.mp rest
      have ⟨bound, erased⟩ := expression_bound condition condition' before tested one shown
      rw [← (expression_decidesOnly condition).scopes_eq one] at shown
      obtain ⟨boundThen, erasedThen, shownThen⟩ :=
        statement_bound thenBranch thenBranch' context tested chosen normal.2.1.2.2 two shown
      obtain ⟨plainThen, shownThen⟩ := plain_shown normal.2.1.1 erasedThen shownThen
      obtain ⟨boundElse, erasedElse, shownElse⟩ :=
        statement_bound elseBranch elseBranch' context chosen after normal.2.2.2 three shownThen
      obtain ⟨plainElse, shownElse⟩ := plain_shown normal.2.2.1 erasedElse shownElse
      exact ⟨⟨bound, ⟨plainThen, boundThen⟩, plainElse, boundElse⟩,
        by rw [Statement.mapKnown, erased, erasedThen, erasedElse], shownElse⟩
  | .loop condition body, result, context, before, after, normal, gives, shown => by
      rw [statement] at gives
      obtain ⟨condition', tested, one, rest⟩ := gives_bind_iff.mp gives
      obtain ⟨body', two, rfl⟩ := gives_map_iff.mp rest
      have ⟨bound, erased⟩ := expression_bound condition condition' before tested one shown
      rw [← (expression_decidesOnly condition).scopes_eq one] at shown
      obtain ⟨boundBody, erasedBody, shownBody⟩ :=
        statement_bound body body' context tested after normal.2.2 two shown
      obtain ⟨plain, shownBody⟩ := plain_shown normal.2.1 erasedBody shownBody
      exact ⟨⟨bound, plain, boundBody⟩, by rw [Statement.mapKnown, erased, erasedBody], shownBody⟩
  | .returning line value, result, context, before, after, _, gives, shown => by
      rw [statement] at gives
      obtain ⟨_, between, read, rest⟩ := gives_bind_iff.mp gives
      obtain ⟨_, same⟩ := gives_get_iff.mp read
      subst between
      have returned : ∃ value', (optionalExpression value).Gives before value' after ∧
          result = .returning line value' := by
        split at rest
        · exact gives_map_iff.mp rest
        · obtain ⟨_, _, stopped, _⟩ := gives_bind_iff.mp rest
          exact absurd stopped not_gives_stop
      obtain ⟨value', one, rfl⟩ := returned
      obtain ⟨bound, erased, scopes⟩ := optionalExpression_bound one shown
      exact ⟨bound, by rw [Statement.mapKnown, erased], scopes ▸ shown⟩

theorem statements_bound : (trees : List (Statement Unit)) → (results : List (Statement Binding)) →
    (context : Context) → (before after : Resolver) → Statement.listNormal trees →
    (statements trees).Gives before results after → context.Shown none before.scopes →
    Statement.listBound context results ∧ Statement.listMapKnown (fun _ => ()) results = trees ∧
      (Statement.listContextBehind context results).Shown none after.scopes
  | [], results, context, before, after, _, gives, shown => by
      rw [statements] at gives
      obtain ⟨rfl, rfl⟩ := gives_pure_iff.mp gives
      exact ⟨trivial, rfl, shown⟩
  | first :: rest, results, context, before, after, normal, gives, shown => by
      rw [statements] at gives
      obtain ⟨first', between, one, behind⟩ := gives_bind_iff.mp gives
      obtain ⟨rest', others, rfl⟩ := gives_map_iff.mp behind
      obtain ⟨boundFirst, erasedFirst, shownFirst⟩ :=
        statement_bound first first' context before between normal.1 one shown
      obtain ⟨boundRest, erasedRest, shownRest⟩ :=
        statements_bound rest rest' _ between after normal.2 others shownFirst
      exact ⟨⟨boundFirst, boundRest⟩, by rw [Statement.listMapKnown, erasedFirst, erasedRest],
        shownRest⟩

end

end Resolving

/-! ## Programs -/

/-- A program that is resolved outside all scopes is bound in the empty context, is the program that
was given apart from its bindings, and leaves the resolver outside all scopes. -/
theorem Resolver.resolve_bound {resolver after : Resolver} {program : List (Statement Unit)}
    {resolved : List (Statement Binding)} (outside : resolver.scopes = [])
    (normal : Statement.listNormal program)
    (resolves : resolver.resolve program = (.ok resolved, after)) :
    Statement.listBound [] resolved ∧ Statement.listMapKnown (fun _ => ()) resolved = program ∧
      after.scopes = [] := by
  have gives := Resolver.resolve_eq_ok_iff.mp resolves
  have shown : Context.Shown [] none resolver.scopes := outside ▸ .nil
  obtain ⟨bound, erased, shownAfter⟩ :=
    Resolving.statements_bound program resolved [] resolver after normal gives shown
  rw [Statement.listContextBehind_nil] at shownAfter
  refine ⟨bound, erased, ?_⟩
  generalize after.scopes = scopes at shownAfter
  cases shownAfter with
  | nil => rfl

/-- However resolving ends, it ends outside all scopes. -/
theorem Resolver.resolve_outside {resolver : Resolver} {program : List (Statement Unit)}
    (outside : resolver.scopes = []) (normal : Statement.listNormal program) :
    (resolver.resolve program).2.scopes = [] := by
  cases resolves : resolver.resolve program with
  | mk result after =>
      cases result with
      | ok resolved => exact (Resolver.resolve_bound outside normal resolves).2.2
      | error mistake =>
          have ⟨between, _, isAfter⟩ := Resolver.resolve_eq_error_iff.mp resolves
          rw [isAfter]
          rfl

end LoxInterpreter
