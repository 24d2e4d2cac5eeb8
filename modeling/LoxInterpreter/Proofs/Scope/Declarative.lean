import Mathlib.Data.List.Monad
import Mathlib.Order.Basic
import LoxInterpreter.Proofs.Grammar.Soundness
import LoxInterpreter.Proofs.Scope.Occurrences
import LoxInterpreter.Proofs.Scope.Returning
import LoxInterpreter.Token.Scan

/-!
Contract: the resolver finds the mistakes and the bindings that the text alone decides.

A walk that starts with a resolver that a place describes stops at the first mistake among what it
walks over, with that mistake; and where there is none, it ends with a resolver that the place behind
describes.

Owns: `Place.Describes`, `Resolving.Meets`, and `Resolver.resolve_declarative`.
-/

namespace LoxInterpreter

open Resolving

/-- Whether a resolver is as it should be at a place, where some globals are known from before. -/
structure Place.Describes (place : Place) (known : List String) (resolver : Resolver) : Prop where
  scopes : place.scopes.Shown place.waiting resolver.scopes
  inFunction : resolver.inFunction = place.inFunction
  globals : ∀ name, resolver.globals.get? name =
    if name ∈ known ∨ name ∈ place.globals then some true
    else if place.scopes = [] ∧ place.initializing = some name then some false
    else none

namespace Resolving

variable {α β : Type} {known : List String} {before : Resolver} {place : Place}
  {occurrences later : List (Occurrence Unit)} {Behind Between : Resolver → Prop}

/-- Whether a walk stops at the first mistake among occurrences, and otherwise ends well. -/
def Meets (walk : Resolving α) (known : List String) (before : Resolver)
    (occurrences : List (Occurrence Unit)) (Behind : Resolver → Prop) : Prop :=
  match occurrences.findSome? (·.mistake? known) with
  | some mistake => (walk.outcome before).1 = .error mistake
  | none => ∃ result after, walk.Gives before result after ∧ Behind after

/-! ## Laws -/

theorem meets_pure {value : α} (behind : Behind before) :
    (pure value : Resolving α).Meets known before [] Behind :=
  ⟨value, before, gives_pure_iff.mpr ⟨rfl, rfl⟩, behind⟩

theorem meets_modify {change : Resolver → Resolver} (behind : Behind (change before)) :
    (modify change : Resolving Unit).Meets known before [] Behind :=
  ⟨(), change before, gives_modify_iff.mpr rfl, behind⟩

/-- A sequence meets what its halves meet, one after the other. -/
theorem Meets.bind {first : Resolving α} {next : α → Resolving β}
    (meets : first.Meets known before occurrences Between)
    (rest : ∀ value between, Between between → (next value).Meets known between later Behind) :
    (first >>= next).Meets known before (occurrences ++ later) Behind := by
  unfold Meets at meets ⊢
  rw [List.findSome?_append]
  cases found : occurrences.findSome? (·.mistake? known) with
  | some mistake =>
      rw [found] at meets
      change ((first >>= next).outcome before).1 = .error mistake
      rw [outcome_bind]
      generalize first.outcome before = ending at meets
      obtain ⟨result, between⟩ := ending
      cases meets
      rfl
  | none =>
      rw [found] at meets
      obtain ⟨value, between, one, good⟩ := meets
      have goes := rest value between good
      unfold Meets at goes
      have same : (first >>= next).outcome before = (next value).outcome between := by
        rw [outcome_bind, show first.outcome before = _ from one]
      unfold Gives at goes ⊢
      rw [same]
      exact goes

/-- A sequence of which the second half concerns no names. -/
theorem Meets.bind_silent {first : Resolving α} {next : α → Resolving β}
    (meets : first.Meets known before occurrences Between)
    (rest : ∀ value between, Between between → (next value).Meets known between [] Behind) :
    (first >>= next).Meets known before occurrences Behind := by
  have both := meets.bind rest
  rwa [List.append_nil] at both

/-- A sequence of which the first half concerns no names. -/
theorem Meets.silent_bind {first : Resolving α} {next : α → Resolving β}
    (meets : first.Meets known before [] Between)
    (rest : ∀ value between, Between between → (next value).Meets known between occurrences Behind) :
    (first >>= next).Meets known before occurrences Behind :=
  meets.bind rest

theorem Meets.mono {walk : Resolving α} (meets : walk.Meets known before occurrences Between)
    (weaker : ∀ after, Between after → Behind after) : walk.Meets known before occurrences Behind := by
  unfold Meets at meets ⊢
  split
  · rename_i found
    rwa [found] at meets
  · rename_i found
    rw [found] at meets
    obtain ⟨result, after, gives, behind⟩ := meets
    exact ⟨result, after, gives, weaker after behind⟩

theorem Meets.map {walk : Resolving α} {build : α → β}
    (meets : walk.Meets known before occurrences Behind) :
    (do return build (← walk) : Resolving β).Meets known before occurrences Behind :=
  meets.bind_silent fun _ _ behind => meets_pure behind

theorem meets_get_bind {next : Resolver → Resolving β}
    (meets : (next before).Meets known before occurrences Behind) :
    (get >>= next).Meets known before occurrences Behind := by
  unfold Meets Gives at meets ⊢
  rwa [outcome_get_bind]

/-- What is not mistaken may be left out. -/
theorem Meets.cons {walk : Resolving α} {occurrence : Occurrence Unit}
    (meets : walk.Meets known before occurrences Behind) (fine : ¬ occurrence.Mistaken known) :
    walk.Meets known before (occurrence :: occurrences) Behind := by
  unfold Meets at meets ⊢
  have nothing : occurrence.mistake? known = none := if_neg fine
  rw [List.findSome?_cons, nothing]
  exact meets

/-- A walk that stops at its first occurrence, which is mistaken. -/
theorem meets_mistaken {walk : Resolving α} {occurrence : Occurrence Unit}
    (mistaken : occurrence.Mistaken known) (stops : (walk.outcome before).1 = .error occurrence.blame) :
    walk.Meets known before (occurrence :: occurrences) Behind := by
  unfold Meets
  have blamed : occurrence.mistake? known = some occurrence.blame := if_pos mistaken
  rw [List.findSome?_cons, blamed]
  exact stops

/-- A walk over one occurrence that stops exactly if that is mistaken. -/
theorem meets_single {walk : Resolving α} {occurrence : Occurrence Unit}
    (stops : occurrence.Mistaken known → (walk.outcome before).1 = .error occurrence.blame)
    (goes : ¬ occurrence.Mistaken known → ∃ result after, walk.Gives before result after ∧ Behind after) :
    walk.Meets known before [occurrence] Behind := by
  by_cases mistaken : occurrence.Mistaken known
  · exact meets_mistaken mistaken (stops mistaken)
  · have behind : walk.Meets known before [] Behind := goes mistaken
    exact behind.cons mistaken

theorem Meets.inScope {walk : Resolving α}
    (meets : walk.Meets known before.enterScope occurrences fun inside => Behind inside.leaveScope) :
    (inScope walk).Meets known before occurrences Behind := by
  have entered : (modify Resolver.enterScope : Resolving Unit).Meets known before []
      (· = before.enterScope) := meets_modify rfl
  refine entered.silent_bind fun _ between isBetween => ?_
  subst isBetween
  refine meets.bind_silent fun _ inside behind => ?_
  have left : (modify Resolver.leaveScope : Resolving Unit).Meets known inside [] Behind :=
    meets_modify behind
  exact left.silent_bind fun _ _ good => meets_pure good

theorem Meets.inBody {walk : Resolving α}
    (meets : walk.Meets known ({ before with inFunction := true } : Resolver).enterScope occurrences
      fun inside => Behind { inside.leaveScope with inFunction := before.inFunction }) :
    (inBody walk).Meets known before occurrences Behind := by
  refine meets_get_bind ?_
  have marked : (modify fun resolver => { resolver with inFunction := true } :
      Resolving Unit).Meets known before [] (· = { before with inFunction := true }) := meets_modify rfl
  refine marked.silent_bind fun _ between isBetween => ?_
  subst isBetween
  have body : (Resolving.inScope walk).Meets known { before with inFunction := true } occurrences
      fun inside => Behind { inside with inFunction := before.inFunction } := Meets.inScope meets
  refine body.bind_silent fun _ inside behind => ?_
  have restored : (modify fun resolver => { resolver with inFunction := before.inFunction } :
      Resolving Unit).Meets known inside [] Behind := meets_modify behind
  exact restored.silent_bind fun _ _ good => meets_pure good

end Resolving

/-! ## Places and resolvers -/

namespace Place.Describes

variable {known : List String} {place : Place} {resolver : Resolver} {name : String}

theorem ofKnown (known : List String) : top.Describes known (Resolver.ofKnown known) := by
  refine ⟨.nil, rfl, fun name => ?_⟩
  simp [Resolver.ofKnown, Table.get?_ofNames, top]

theorem enterBlock (describes : place.Describes known resolver) (outside : place.initializing = none) :
    place.enterBlock.Describes known resolver.enterScope := by
  have shown := describes.scopes
  rw [Place.waiting_of_initializing outside] at shown
  have waits : place.enterBlock.waiting = none := Place.waiting_of_initializing outside
  refine ⟨?_, describes.inFunction, fun name => ?_⟩
  · rw [waits]
    exact .cons Scope.Shows.empty shown
  · have same := describes.globals name
    simpa [Place.enterBlock, Resolver.enterScope, outside] using same

theorem enterFunction (describes : place.Describes known resolver)
    (outside : place.initializing = none) :
    place.enterFunction.Describes known ({ resolver with inFunction := true } : Resolver).enterScope :=
  have inside := describes.enterBlock outside
  ⟨inside.scopes, rfl, inside.globals⟩

/-- Behind a scope, the place around it is described as before, with what was declared meanwhile
outside all scopes. -/
theorem decide (describes : place.Describes known resolver) (binding : Binding) :
    place.Describes known (resolver.decide binding) :=
  ⟨describes.scopes, describes.inFunction, describes.globals⟩

/-- What is known outside the innermost scope. -/
theorem unknownOutside_iff {context : Context} {names : List String}
    {outer : List Scope} (describes : place.Describes known resolver)
    (isContext : place.scopes = names :: context) (behind : Context.Shown context none outer) :
    place.UnknownOutside known name ↔
      Resolver.distance? outer name = none ∧ resolver.globals.get? name ≠ some true := by
  have globals := describes.globals name
  unfold Resolver.distance? Place.UnknownOutside
  rw [behind.findIdx?_eq name, List.findIdx?_eq_none_iff, isContext, globals, isContext]
  by_cases isKnown : name ∈ known ∨ name ∈ place.globals
  · grind
  · grind

/-- A name is read in vain exactly if it waits for its initializer and there is none further out. -/
theorem readBinding?_eq_none_iff (describes : place.Describes known resolver) :
    resolver.readBinding? name = none ↔
      place.initializing = some name ∧ place.UnknownOutside known name := by
  have globals := describes.globals name
  have shown := describes.scopes
  unfold Resolver.readBinding?
  unfold Place.waiting at shown
  generalize isScopes : resolver.scopes = scopes at shown
  generalize isContext : place.scopes = context at shown globals
  cases shown with
  | nil =>
      unfold Place.UnknownOutside
      rw [isContext]
      simp only [globals]
      by_cases isKnown : name ∈ known ∨ name ∈ place.globals
      · grind
      · grind
  | @cons names outer _ scope scopes innermost behind =>
      have waits := innermost.get?_eq name
      simp only at waits
      simp only [waits]
      rw [describes.unknownOutside_iff isContext behind]
      by_cases isWaiting : place.initializing = some name
      · cases found : Resolver.distance? scopes name with
        | some distance => simp [isWaiting]
        | none => simp [isWaiting]
      · have ready : (if name ∈ names then some true else none : Option Bool) ≠ some false := by
          split <;> simp
        simp [isWaiting, ready]

/-- A name is refused exactly if the innermost scope has declared it. -/
theorem declare?_eq_none_iff (describes : place.Describes known resolver)
    (outside : place.initializing = none) :
    resolver.declare? name = none ↔ place.DeclaredHere name := by
  have shown := describes.scopes
  rw [Place.waiting_of_initializing outside] at shown
  unfold Resolver.declare? Place.DeclaredHere
  generalize resolver.scopes = scopes at shown
  generalize place.scopes = context at shown
  cases shown with
  | nil =>
      simp only [List.head?_nil]
      split <;> simp
  | cons innermost behind =>
      have present := innermost.contains_iff name
      simp only [List.head?_cons]
      split <;> simp_all

variable {declaration : Name} {result : Unit} {after : Resolver}

/-- Behind its declaration a name waits, as in its initializer. -/
theorem declared (describes : place.Describes known resolver) (outside : place.initializing = none)
    (gives : (Resolving.declare declaration).Gives resolver result after) :
    (place.inInitializer declaration.text).Describes known after := by
  have shown := describes.scopes
  rw [Place.waiting_of_initializing outside] at shown
  have waits := (declare_shown gives shown).2
  refine ⟨?_, (declare_inFunction gives).trans describes.inFunction, fun other => ?_⟩
  · rw [place.waiting_inInitializer declaration.text]
    exact waits
  · have globals := describes.globals other
    have declares := gives_declare_iff.mp gives
    unfold Resolver.declare? at declares
    generalize isScopes : resolver.scopes = scopes at shown declares
    generalize isContext : place.scopes = context at shown globals
    cases shown with
    | nil =>
        simp only at declares
        have here := describes.globals declaration.text
        split at declares
        · rename_i isReady
          cases declares
          rw [isReady] at here
          grind [Place.inInitializer]
        · cases declares
          by_cases same : other = declaration.text
          · subst same
            simp only [Table.get?_set_self]
            grind [Place.inInitializer]
          · simp only [Table.get?_set_of_ne _ same]
            grind [Place.inInitializer]
    | cons innermost behind =>
        simp only at declares
        split at declares
        · cases declares
        · cases declares
          simpa [Place.inInitializer, isContext] using globals

/-- A name that waited is declared when it is ready. -/
theorem defined (describes : (place.inInitializer declaration.text).Describes known resolver)
    (outside : place.initializing = none)
    (gives : (Resolving.define declaration).Gives resolver result after) :
    (place.declare declaration.text).Describes known after := by
  have shown : place.scopes.Shown (place.inInitializer declaration.text).waiting resolver.scopes :=
    describes.scopes
  rw [place.waiting_inInitializer declaration.text] at shown
  have ready := define_shown gives shown
  have settled : (place.declare declaration.text).initializing = none :=
    (place.initializing_declare _).trans outside
  refine ⟨?_, ?_, fun other => ?_⟩
  · rw [Place.waiting_of_initializing settled, Place.scopes_declare]
    exact ready
  · rw [define_inFunction gives, describes.inFunction]
    exact (place.inFunction_declare _).symm
  · have globals := describes.globals other
    rw [gives_define_iff.mp gives]
    unfold Resolver.define Place.declare
    unfold Place.inInitializer at globals
    generalize isScopes : resolver.scopes = scopes at shown
    generalize isContext : place.scopes = context at shown globals
    cases shown with
    | nil =>
        by_cases same : other = declaration.text
        · subst same
          simp
        · simp only [Table.get?_set_of_ne _ same]
          grind
    | cons innermost behind =>
        simpa [outside] using globals

/-- Behind a scope the place around it is described again. -/
theorem leaveScope {inner : Place} (describes : inner.Describes known resolver)
    (stands : inner.StandsIn place) (outside : place.initializing = none) :
    place.Describes known resolver.leaveScope := by
  obtain ⟨names, rfl⟩ := stands
  have shown : Context.Shown (names :: place.scopes) place.initializing resolver.scopes :=
    describes.scopes
  rw [outside] at shown
  refine ⟨?_, describes.inFunction, fun name => ?_⟩
  · rw [Place.waiting_of_initializing outside]
    exact shown.tail
  · have globals := describes.globals name
    simpa [outside, Resolver.leaveScope] using globals

/-- Behind a function the place is inside or outside of functions as before. -/
theorem leaveFunction
    (describes : ({ place with inFunction := true } : Place).Describes known resolver) {inFunction : Bool}
    (same : inFunction = place.inFunction) :
    place.Describes known { resolver with inFunction := inFunction } :=
  ⟨describes.scopes, same, describes.globals⟩

end Place.Describes

/-! ## What a walk meets -/

namespace Resolving

variable {known : List String} {before : Resolver} {place : Place}

theorem meets_readReference (describes : place.Describes known before) (name : Name) :
    (readReference name).Meets known before (place.references [⟨false, name, ()⟩])
      (place.Describes known) := by
  have vain : before.readBinding? name.text = none ↔ _ := describes.readBinding?_eq_none_iff
  apply meets_single
  · intro mistaken
    have refused := vain.mpr mistaken.2
    unfold readReference
    rw [outcome_get_bind, refused]
    rfl
  · intro fine
    cases found : before.readBinding? name.text with
    | none => exact absurd ⟨rfl, vain.mp found⟩ fine
    | some binding =>
        exact ⟨binding, _, gives_readReference_iff.mpr ⟨found, rfl⟩, describes.decide binding⟩

theorem meets_assignedReference (describes : place.Describes known before) (name : Name) :
    (assignedReference name).Meets known before [] (place.Describes known) :=
  ⟨_, _, gives_assignedReference_iff.mpr ⟨rfl, rfl⟩, describes.decide _⟩

theorem meets_declare (describes : place.Describes known before) (outside : place.initializing = none)
    (name : Name) : (declare name).Meets known before [⟨place, .declares name⟩]
      ((place.inInitializer name.text).Describes known) := by
  have twice : before.declare? name.text = none ↔ _ := describes.declare?_eq_none_iff outside
  apply meets_single
  · intro mistaken
    have refused := twice.mpr mistaken
    unfold declare
    rw [outcome_get_bind, refused]
    rfl
  · intro fine
    cases found : before.declare? name.text with
    | none => exact absurd (twice.mp found) fine
    | some after =>
        have gives : (declare name).Gives before () after := gives_declare_iff.mpr found
        exact ⟨(), after, gives, describes.declared outside gives⟩

theorem meets_define {name : Name} (describes : (place.inInitializer name.text).Describes known before)
    (outside : place.initializing = none) :
    (define name).Meets known before [] ((place.declare name.text).Describes known) := by
  have gives : (define name).Gives before () (before.define name.text) := gives_define_iff.mpr rfl
  exact ⟨(), _, gives, describes.defined outside gives⟩

theorem meets_declareReady (names : List Name) : {place : Place} → {before : Resolver} →
    place.Describes known before → place.initializing = none →
    (declareReady names).Meets known before (place.parameters names)
      ((place.behindParameters names).Describes known) := by
  induction names with
  | nil => exact fun describes _ => meets_pure describes
  | cons name rest inductionHypothesis =>
      intro place before describes outside
      refine (meets_declare describes outside name).bind fun _ waits waiting => ?_
      refine (meets_define waiting outside).silent_bind fun _ ready described => ?_
      exact inductionHypothesis described ((place.initializing_declare _).trans outside)

mutual

/-- An expression meets the references in it, each at the same place. That an assignment decides its
target last does not matter, for no assigned reference is a mistake. -/
theorem meets_expression : (tree : Expression Unit) → {before : Resolver} →
    place.Describes known before →
    (expression tree).Meets known before (place.references tree.references) (place.Describes known)
  | .constant value, _, describes => by
      rw [expression]
      exact meets_pure describes
  | .grouping inner, _, describes => by
      rw [expression]
      exact (meets_expression inner describes).map
  | .variable name _, _, describes => by
      rw [expression]
      exact (meets_readReference describes name).map
  | .assignment name reference value, _, describes => by
      rw [expression]
      refine Meets.cons ?_ fun mistaken => Bool.noConfusion mistaken.1
      refine (meets_expression value describes).bind_silent fun _ _ behind => ?_
      exact (meets_assignedReference behind name).map
  | .unary _ _ operand, _, describes => by
      rw [expression]
      exact (meets_expression operand describes).map
  | .binary _ _ left right, _, describes => by
      rw [expression, Expression.references, Place.references, List.map_append]
      refine (meets_expression left describes).bind fun _ _ behind => ?_
      exact (meets_expression right behind).map
  | .logical _ _ left right, _, describes => by
      rw [expression, Expression.references, Place.references, List.map_append]
      refine (meets_expression left describes).bind fun _ _ behind => ?_
      exact (meets_expression right behind).map
  | .call callee arguments _, _, describes => by
      rw [expression, Expression.references, Place.references, List.map_append]
      refine (meets_expression callee describes).bind fun _ _ behind => ?_
      exact (meets_expressions arguments behind).map

/-- Expressions meet the references in them. -/
theorem meets_expressions : (trees : List (Expression Unit)) → {before : Resolver} →
    place.Describes known before →
    (expressions trees).Meets known before (place.references (Expression.listReferences trees))
      (place.Describes known)
  | [], _, describes => by
      rw [expressions]
      exact meets_pure describes
  | first :: rest, _, describes => by
      rw [expressions, Expression.listReferences, Place.references, List.map_append]
      refine (meets_expression first describes).bind fun _ _ behind => ?_
      exact (meets_expressions rest behind).map

end

theorem meets_optionalExpression (tree : Option (Expression Unit)) (describes : place.Describes known before) :
    (optionalExpression tree).Meets known before
      (place.references (Expression.optionalReferences tree)) (place.Describes known) := by
  cases tree with
  | none => exact meets_pure describes
  | some value => exact (meets_expression value describes).map

/-- A branch or loop body leaves the place as it was. -/
theorem Meets.plain {tree : Statement Unit} (plain : tree.isDeclaration = false)
    (meets : (statement tree).Meets known before (tree.occurrences place)
      ((tree.placeBehind place).Describes known)) :
    (statement tree).Meets known before (tree.occurrences place) (place.Describes known) := by
  rwa [Statement.placeBehind_of_plain plain] at meets

mutual

/-- A statement meets what occurs in it. -/
theorem meets_statement : (tree : Statement Unit) → {place : Place} → {before : Resolver} →
    tree.Normal → place.Describes known before → place.initializing = none →
    (statement tree).Meets known before (tree.occurrences place) ((tree.placeBehind place).Describes known)
  | .expression value, place, _, _, describes, _ => by
      rw [statement]
      exact (meets_expression value describes).map
  | .print value, place, _, _, describes, _ => by
      rw [statement]
      exact (meets_expression value describes).map
  | .declaration name initializer, place, _, _, describes, outside => by
      rw [statement]
      refine (meets_declare describes outside name).bind fun _ waits waiting => ?_
      refine (meets_optionalExpression initializer waiting).bind_silent fun _ _ behind => ?_
      exact (meets_define behind outside).map
  | .function name parameters body, place, _, normal, describes, outside => by
      rw [statement]
      refine (meets_declare describes outside name).bind fun _ waits waiting => ?_
      refine (meets_define waiting outside).silent_bind fun _ ready described => ?_
      have settled : (place.declare name.text).initializing = none :=
        (place.initializing_declare _).trans outside
      have inside := described.enterFunction settled
      refine Meets.map (Meets.inBody ?_)
      refine (meets_declareReady parameters inside settled).bind fun _ front atFront => ?_
      have front' : (((place.declare name.text).enterFunction).behindParameters parameters).initializing =
        none := (place.initializing_body name parameters).trans outside
      refine (meets_statements body normal.2 atFront front').mono fun after behind => ?_
      have stands : (Statement.listPlaceBehind _ body).StandsIn
        { place.declare name.text with inFunction := true } :=
        (Place.StandsIn.behindParameters ⟨[], rfl⟩ parameters).listPlaceBehind body
      exact (behind.leaveScope stands settled).leaveFunction described.inFunction
  | .block items, place, _, normal, describes, outside => by
      rw [statement]
      have inside := describes.enterBlock outside
      refine Meets.map (Meets.inScope ?_)
      refine (meets_statements items normal inside outside).mono fun after behind => ?_
      exact behind.leaveScope (Place.StandsIn.listPlaceBehind ⟨[], rfl⟩ items) outside
  | .conditional condition thenBranch none, place, _, normal, describes, outside => by
      rw [statement]
      refine (meets_expression condition describes).bind fun _ _ tested => ?_
      exact ((meets_statement thenBranch normal.2.2 tested outside).plain normal.2.1).map
  | .conditional condition thenBranch (some elseBranch), place, _, normal, describes, outside => by
      rw [statement]
      refine (meets_expression condition describes).bind fun _ _ tested => ?_
      have first := (meets_statement thenBranch normal.2.1.2.2 tested outside).plain normal.2.1.1
      refine first.bind fun _ _ chosen => ?_
      exact ((meets_statement elseBranch normal.2.2.2 chosen outside).plain normal.2.2.1).map
  | .loop condition body, place, _, normal, describes, outside => by
      rw [statement]
      refine (meets_expression condition describes).bind fun _ _ tested => ?_
      exact ((meets_statement body normal.2.2 tested outside).plain normal.2.1).map
  | .returning line value, place, before, _, describes, _ => by
      rw [statement]
      refine meets_get_bind ?_
      cases inFunction : before.inFunction with
      | true =>
          have fine : ¬ (⟨place, .returns line⟩ : Occurrence Unit).Mistaken known := fun mistaken =>
            Bool.noConfusion (inFunction.symm.trans (describes.inFunction.trans mistaken))
          exact Meets.cons (meets_optionalExpression value describes).map fine
      | false =>
          have mistaken : (⟨place, .returns line⟩ : Occurrence Unit).Mistaken known :=
            describes.inFunction.symm.trans inFunction
          exact meets_mistaken mistaken rfl

/-- Statements meet what occurs in them. -/
theorem meets_statements : (trees : List (Statement Unit)) → {place : Place} → {before : Resolver} →
    Statement.listNormal trees → place.Describes known before → place.initializing = none →
    (statements trees).Meets known before (Statement.listOccurrences place trees)
      ((Statement.listPlaceBehind place trees).Describes known)
  | [], place, _, _, describes, _ => by
      rw [statements]
      exact meets_pure describes
  | first :: rest, place, _, normal, describes, outside => by
      rw [statements]
      refine (meets_statement first normal.1 describes outside).bind fun _ _ behind => ?_
      exact (meets_statements rest normal.2 behind
        ((place.initializing_placeBehind first).trans outside)).map

end

end Resolving

/-- The mistake that is found first is that of the first occurrence that is mistaken. -/
theorem Occurrence.first_of_findSome? {occurrences : List (Occurrence Unit)} {known : List String}
    {mistake : ScopeError} (found : occurrences.findSome? (·.mistake? known) = some mistake) :
    ∃ front occurrence behind, occurrences = front ++ occurrence :: behind ∧
      (∀ earlier ∈ front, ¬ earlier.Mistaken known) ∧ occurrence.Mistaken known ∧
      mistake = occurrence.blame := by
  have ⟨front, occurrence, behind, split, isMistake, others⟩ := List.findSome?_eq_some_iff.mp found
  have ⟨mistaken, blamed⟩ := Option.ite_none_right_eq_some.mp isMistake
  refine ⟨front, occurrence, behind, split, fun earlier member isMistaken => ?_, mistaken,
    (Option.some.inj blamed).symm⟩
  have nothing := others earlier member
  rw [show earlier.mistake? known = some earlier.blame from if_pos isMistaken] at nothing
  cases nothing

namespace Resolver

variable {known : List String} {program : List (Statement Unit)}

/-- A program is refused for its first mistake, and for nothing else. -/
theorem resolve_eq_error_iff_findSome? (normal : Statement.listNormal program) (mistake : ScopeError) :
    ((ofKnown known).resolve program).1 = .error mistake ↔
      (Statement.listOccurrences .top program).findSome? (·.mistake? known) = some mistake := by
  have meets := meets_statements program normal (Place.Describes.ofKnown known) rfl
  unfold Meets at meets
  cases found : (Statement.listOccurrences .top program).findSome? (·.mistake? known) with
  | some first =>
      rw [found] at meets
      have refused : ((ofKnown known).resolve program).1 = .error first := by
        cases ends : (statements program).outcome (ofKnown known) with
        | mk result between =>
            rw [ends] at meets
            cases meets
            rw [resolve_eq_error_iff.mpr ⟨between, ends, rfl⟩]
      rw [refused, Except.error.injEq, Option.some.injEq]
  | none =>
      rw [found] at meets
      obtain ⟨resolved, after, gives, _⟩ := meets
      rw [resolve_eq_ok_iff.mpr gives]
      simp

/-- Resolving computes what the text alone decides. A program that was read without a mistake is refused
exactly if something in it is mistaken, and for the first such thing, in the order in which the tokens are
written; otherwise every reference is bound to the nearest scope around it that has declared its name
before, or else global. -/
theorem resolve_declarative {tokens : List Token} (noMistake : (Grammar.read tokens).errors = [])
    (known : List String) :
    let program := (Grammar.read tokens).statements
    let result := ((ofKnown known).resolve program).1
    ((∃ mistake, result = .error mistake) ↔
      ∃ occurrence ∈ Statement.listOccurrences .top program, occurrence.Mistaken known) ∧
    (∀ mistake, result = .error mistake →
      ∃ front occurrence behind,
        Statement.listOccurrences .top program = front ++ occurrence :: behind ∧
        (∀ earlier ∈ front, ¬ earlier.Mistaken known) ∧ occurrence.Mistaken known ∧
        mistake = occurrence.blame) ∧
    ((Occurrence.mistakenTokens known (Statement.listOccurrences .top program)).map
      Token.located).Sublist (tokens.map Token.located) ∧
    ∀ resolved, result = .ok resolved →
      Statement.listMapKnown (fun _ => ()) resolved = program ∧
        ∀ occurrence ∈ Statement.listOccurrences .top resolved, occurrence.Bound := by
  intro program result
  have normal : Statement.listNormal program := Grammar.read_normal noMistake
  have refused (mistake : ScopeError) : result = .error mistake ↔ _ :=
    resolve_eq_error_iff_findSome? normal mistake
  refine ⟨⟨fun ⟨mistake, isRefused⟩ => ?_, fun ⟨occurrence, member, mistaken⟩ => ?_⟩,
    fun mistake isRefused => ?_, ?_, fun resolved isResolved => ?_⟩
  · have ⟨_, occurrence, _, split, _, mistaken, _⟩ :=
      Occurrence.first_of_findSome? ((refused mistake).mp isRefused)
    exact ⟨occurrence, split ▸ List.mem_append_right _ List.mem_cons_self, mistaken⟩
  · have isMistake : occurrence.mistake? known = some occurrence.blame := if_pos mistaken
    have found : ((Statement.listOccurrences .top program).findSome?
        (·.mistake? known)).isSome = true :=
      List.findSome?_isSome_iff.mpr ⟨occurrence, member, by rw [isMistake]; rfl⟩
    have ⟨mistake, isFirst⟩ := Option.isSome_iff_exists.mp found
    exact ⟨mistake, (refused mistake).mpr isFirst⟩
  · exact Occurrence.first_of_findSome? ((refused mistake).mp isRefused)
  · exact ((Statement.mistakenTokens_listOccurrences program rfl).map Token.located).trans
      (Grammar.suspects_in_order noMistake)
  · have ⟨bound, erased, _⟩ := resolve_bound rfl normal (Prod.ext isResolved rfl)
    exact ⟨erased, Statement.listOccurrences_bound resolved rfl bound⟩

/-- A local variable that is read in its own initializer: a mistake, unless there is a global of that
name. -/
theorem resolve_declarative_own_initializer :
    (Grammar.read (Source.text "\x7b var a = a; \x7d").scan.tokens).errors = [] ∧
      (∃ mistake, ((ofKnown []).resolve
        (Grammar.read (Source.text "\x7b var a = a; \x7d").scan.tokens).statements).1 = .error mistake) ∧
      ¬ ∃ mistake, ((ofKnown ["a"]).resolve
        (Grammar.read (Source.text "\x7b var a = a; \x7d").scan.tokens).statements).1 = .error mistake := by
  have reads : Grammar.read (Source.text "\x7b var a = a; \x7d").scan.tokens =
      ⟨[.block [.declaration ⟨"a", 1⟩ (some (.variable ⟨"a", 1⟩ ()))]], []⟩ := by decide +kernel
  have noMistake : (Grammar.read (Source.text "\x7b var a = a; \x7d").scan.tokens).errors = [] := by
    rw [reads]
  refine ⟨noMistake, ?_, ?_⟩
  · rw [(resolve_declarative noMistake []).1, reads]
    decide
  · rw [(resolve_declarative noMistake ["a"]).1, reads]
    decide

end Resolver

end LoxInterpreter
