import LoxInterpreter.Proofs.Grammar.Order
import LoxInterpreter.Proofs.Scope.Context

/-!
Contract: where the names of a program stand, and which of them are mistakes.

A place holds what the text around a position and before it has declared. A program is taken apart into
what occurs in it that concerns names: its references, its declarations and its returns, each with its
place, in the order of the tree. Whether an occurrence is a mistake is decided by its place and the globals
that are known from before, and by nothing else. Outside initializers no reference is a mistake, so the
mistakes are met in written order, although the increment of a loop is not.

Owns: `Place`, `Occurrence`, `Occurrence.Mistaken`, `Occurrence.mistake?`, `Occurrence.Bound`,
`Statement.occurrences`, and `Statement.mistakenTokens_occurrences`.
Does not own: that the resolver finds the same (`Proofs.Scope.Declarative`).
-/

namespace LoxInterpreter

/-- What is around a position, and was declared before it. -/
structure Place where
  /-- The names declared in the local scopes around, the innermost scope first. -/
  scopes : Context
  /-- The names declared outside all scopes. -/
  globals : List String
  inFunction : Bool
  /-- The variable in whose initializer the position is. -/
  initializing : Option String

namespace Place

/-- The place in front of a program. -/
def top : Place := ⟨[], [], false, none⟩

/-- The place behind the declaration of a name. -/
def declare (place : Place) (name : String) : Place :=
  match place.scopes with
  | [] => { place with globals := name :: place.globals }
  | innermost :: outer => { place with scopes := (name :: innermost) :: outer }

/-- The place at the front of a block. -/
def enterBlock (place : Place) : Place := { place with scopes := [] :: place.scopes }

/-- The place in front of the parameters of a function, which share the scope of its body. -/
def enterFunction (place : Place) : Place := { place.enterBlock with inFunction := true }

/-- The place in the initializer of a variable. -/
def inInitializer (place : Place) (name : String) : Place := { place with initializing := some name }

/-- The local variable in whose initializer the place is. -/
def waiting (place : Place) : Option String :=
  match place.scopes with
  | [] => none
  | _ :: _ => place.initializing

/-- Whether the innermost scope around has declared a name. -/
def DeclaredHere (place : Place) (name : String) : Prop := ∃ scope ∈ place.scopes.head?, name ∈ scope

/-- Whether a name is declared nowhere outside the innermost scope. -/
def UnknownOutside (place : Place) (known : List String) (name : String) : Prop :=
  (∀ scope ∈ place.scopes.tail, name ∉ scope) ∧ name ∉ known ∧ name ∉ place.globals

end Place

/-- What concerns names. -/
inductive Occurrence.Act (Known : Type) where
  | refers (reference : Reference Known)
  | declares (name : Name)
  | returns (line : Nat)

/-- What concerns names, and where it stands. -/
structure Occurrence (Known : Type) where
  place : Place
  act : Occurrence.Act Known

variable {Known : Type}

/-! ## Taking programs apart -/

/-- References that stand at one place. -/
def Place.references (place : Place) (references : List (Reference Known)) : List (Occurrence Known) :=
  references.map fun reference => ⟨place, .refers reference⟩

/-- The places of parameters. -/
def Place.parameters (place : Place) : List Name → List (Occurrence Known)
  | [] => []
  | name :: rest => ⟨place, .declares name⟩ :: (place.declare name.text).parameters rest

/-- The place behind parameters. -/
def Place.behindParameters (place : Place) (names : List Name) : Place :=
  names.foldl (fun place name => place.declare name.text) place

/-- The place behind a statement. -/
def Statement.placeBehind (place : Place) : Statement Known → Place
  | .declaration name _ | .function name _ _ => place.declare name.text
  | _ => place

theorem Statement.placeBehind_of_plain {statement : Statement Known}
    (plain : statement.isDeclaration = false) (place : Place) : statement.placeBehind place = place := by
  cases statement with
  | declaration | function => cases plain
  | _ => rfl

/-- The place behind several statements. -/
def Statement.listPlaceBehind (place : Place) (statements : List (Statement Known)) : Place :=
  statements.foldl Statement.placeBehind place

mutual

/-- What occurs in a statement. The name of a variable is declared behind its initializer, the name of a
function in front of its body. -/
def Statement.occurrences : Place → Statement Known → List (Occurrence Known)
  | place, .expression value => place.references value.references
  | place, .print value => place.references value.references
  | place, .declaration name initializer =>
      ⟨place, .declares name⟩ ::
        (place.inInitializer name.text).references (Expression.optionalReferences initializer)
  | place, .function name parameters body =>
      ⟨place, .declares name⟩ :: ((place.declare name.text).enterFunction.parameters parameters ++
        Statement.listOccurrences
          ((place.declare name.text).enterFunction.behindParameters parameters) body)
  | place, .block items => Statement.listOccurrences place.enterBlock items
  | place, .conditional condition thenBranch none =>
      place.references condition.references ++ thenBranch.occurrences place
  | place, .conditional condition thenBranch (some elseBranch) =>
      place.references condition.references ++
        (thenBranch.occurrences place ++ elseBranch.occurrences place)
  | place, .loop condition body => place.references condition.references ++ body.occurrences place
  | place, .returning line value =>
      ⟨place, .returns line⟩ :: place.references (Expression.optionalReferences value)

/-- What occurs in several statements, each at the place behind the ones before it. -/
def Statement.listOccurrences : Place → List (Statement Known) → List (Occurrence Known)
  | _, [] => []
  | place, first :: rest =>
      first.occurrences place ++ Statement.listOccurrences (first.placeBehind place) rest

end

/-! ## Mistakes and bindings -/

namespace Occurrence

/-- Whether an occurrence is a mistake, where some globals are known from before: a variable is read in
its own initializer and there is none of that name further out; a return stands outside all functions;
or a scope declares a name twice. -/
def Mistaken (known : List String) (occurrence : Occurrence Known) : Prop :=
  match occurrence.act with
  | .refers reference =>
      reference.isAssignment = false ∧ occurrence.place.initializing = some reference.name.text ∧
        occurrence.place.UnknownOutside known reference.name.text
  | .declares name => occurrence.place.DeclaredHere name.text
  | .returns _ => occurrence.place.inFunction = false

/-- What is said of an occurrence that is a mistake. -/
def blame (occurrence : Occurrence Known) : ScopeError :=
  match occurrence.act with
  | .refers reference => ⟨.readInOwnInitializer, reference.name.token⟩
  | .declares name => ⟨.alreadyDeclared, name.token⟩
  | .returns line => ⟨.returnOutsideFunction, .ofSymbol (.keyword .returnWord) line⟩

instance (place : Place) (name : String) : Decidable (place.DeclaredHere name) :=
  inferInstanceAs (Decidable (∃ scope ∈ place.scopes.head?, name ∈ scope))

instance (place : Place) (known : List String) (name : String) :
    Decidable (place.UnknownOutside known name) :=
  inferInstanceAs (Decidable
    ((∀ scope ∈ place.scopes.tail, name ∉ scope) ∧ name ∉ known ∧ name ∉ place.globals))

instance (known : List String) (occurrence : Occurrence Known) : Decidable (occurrence.Mistaken known) :=
  match occurrence with
  | ⟨place, .refers reference⟩ =>
      inferInstanceAs (Decidable (reference.isAssignment = false ∧
        place.initializing = some reference.name.text ∧ place.UnknownOutside known reference.name.text))
  | ⟨place, .declares name⟩ => inferInstanceAs (Decidable (place.DeclaredHere name.text))
  | ⟨place, .returns _⟩ => inferInstanceAs (Decidable (place.inFunction = false))

/-- The mistake that an occurrence is, if it is one. -/
def mistake? (known : List String) (occurrence : Occurrence Known) : Option ScopeError :=
  if occurrence.Mistaken known then some occurrence.blame else none

/-- The tokens at which those occurrences are noticed that are mistakes. -/
def mistakenTokens (known : List String) (occurrences : List (Occurrence Known)) : List Token :=
  (occurrences.filter (·.Mistaken known)).map (·.blame.token)

/-- Whether a reference is bound to the nearest scope around that has declared its name before, or else
is global. An assignment to the local variable in whose initializer it stands goes to that variable. -/
def Bound (occurrence : Occurrence Binding) : Prop :=
  match occurrence.act with
  | .refers reference =>
      reference.known =
        if reference.isAssignment then
          occurrence.place.scopes.assignedBinding occurrence.place.waiting reference.name.text
        else occurrence.place.scopes.binding reference.name.text
  | .declares _ | .returns _ => True

end Occurrence

/-! ## Bound programs -/

namespace Place

@[simp] theorem scopes_declare (place : Place) (name : String) :
    (place.declare name).scopes = place.scopes.declare name := by
  obtain ⟨scopes, globals, inFunction, initializing⟩ := place
  cases scopes <;> rfl

theorem scopes_placeBehind (place : Place) (statement : Statement Known) :
    (statement.placeBehind place).scopes = statement.contextBehind place.scopes := by
  cases statement with
  | declaration | function => exact place.scopes_declare _
  | _ => rfl

/-- Parameters are declared in the scope of the body. -/
theorem scopes_behindParameters (place : Place) (innermost : List String) (outer : Context)
    (isScopes : place.scopes = innermost :: outer) (names : List Name) :
    (place.behindParameters names).scopes = ((names.map Name.text).reverse ++ innermost) :: outer := by
  unfold behindParameters
  induction names generalizing place innermost with
  | nil => exact isScopes
  | cons name rest inductionHypothesis =>
      have next : (place.declare name.text).scopes = (name.text :: innermost) :: outer := by
        rw [scopes_declare, isScopes]
        rfl
      rw [List.foldl_cons, inductionHypothesis _ _ next]
      simp

theorem scopes_body (place : Place) (name : Name) (parameters : List Name) :
    ((place.declare name.text).enterFunction.behindParameters parameters).scopes =
      (parameters.map Name.text).reverse :: place.scopes.declare name.text := by
  have isScopes : (place.declare name.text).enterFunction.scopes = [] :: place.scopes.declare name.text :=
    congrArg ([] :: ·) (place.scopes_declare name.text)
  rw [scopes_behindParameters _ _ _ isScopes, List.append_nil]

theorem waiting_inInitializer (place : Place) (name : String) :
    (place.inInitializer name).waiting = place.scopes.waitingFor name := by
  obtain ⟨scopes, globals, inFunction, initializing⟩ := place
  cases scopes <;> rfl

end Place

mutual

theorem Expression.references_bound {place : Place} : (expression : Expression Binding) →
    expression.Bound place.scopes place.waiting →
    ∀ occurrence ∈ place.references expression.references, occurrence.Bound
  | .constant _, _, _, member => by cases member
  | .grouping inner, bound, occurrence, member => inner.references_bound bound occurrence member
  | .variable name binding, bound, occurrence, member => by
      cases List.mem_singleton.mp member
      exact bound
  | .assignment name binding value, bound, occurrence, member => by
      rcases List.mem_cons.mp member with rfl | behind
      · exact bound.2
      · exact value.references_bound bound.1 occurrence behind
  | .unary _ _ operand, bound, occurrence, member => operand.references_bound bound occurrence member
  | .binary _ _ left right, bound, occurrence, member => by
      rw [Expression.references, Place.references, List.map_append] at member
      rcases List.mem_append.mp member with first | second
      · exact left.references_bound bound.1 occurrence first
      · exact right.references_bound bound.2 occurrence second
  | .logical _ _ left right, bound, occurrence, member => by
      rw [Expression.references, Place.references, List.map_append] at member
      rcases List.mem_append.mp member with first | second
      · exact left.references_bound bound.1 occurrence first
      · exact right.references_bound bound.2 occurrence second
  | .call callee arguments _, bound, occurrence, member => by
      rw [Expression.references, Place.references, List.map_append] at member
      rcases List.mem_append.mp member with first | second
      · exact callee.references_bound bound.1 occurrence first
      · exact Expression.listReferences_bound arguments bound.2 occurrence second

theorem Expression.listReferences_bound {place : Place} : (expressions : List (Expression Binding)) →
    Expression.listBound place.scopes place.waiting expressions →
    ∀ occurrence ∈ place.references (Expression.listReferences expressions), occurrence.Bound
  | [], _, _, member => by cases member
  | first :: rest, bound, occurrence, member => by
      rw [Expression.listReferences, Place.references, List.map_append] at member
      rcases List.mem_append.mp member with front | behind
      · exact first.references_bound bound.1 occurrence front
      · exact Expression.listReferences_bound rest bound.2 occurrence behind

end

theorem Expression.optionalReferences_bound {place : Place} {tree : Option (Expression Binding)}
    (bound : ∀ value ∈ tree, value.Bound place.scopes place.waiting) :
    ∀ occurrence ∈ place.references (Expression.optionalReferences tree), occurrence.Bound := by
  cases tree with
  | none =>
      intro _ member
      cases member
  | some value => exact value.references_bound (bound value rfl)

namespace Place

@[simp] theorem initializing_declare (place : Place) (name : String) :
    (place.declare name).initializing = place.initializing := by
  obtain ⟨scopes, globals, inFunction, initializing⟩ := place
  cases scopes <;> rfl

theorem inFunction_declare (place : Place) (name : String) :
    (place.declare name).inFunction = place.inFunction := by
  obtain ⟨scopes, globals, inFunction, initializing⟩ := place
  cases scopes <;> rfl

theorem initializing_behindParameters (place : Place) (names : List Name) :
    (place.behindParameters names).initializing = place.initializing := by
  unfold behindParameters
  induction names generalizing place with
  | nil => rfl
  | cons name rest inductionHypothesis =>
      rw [List.foldl_cons, inductionHypothesis, initializing_declare]

theorem initializing_body (place : Place) (name : Name) (parameters : List Name) :
    ((place.declare name.text).enterFunction.behindParameters parameters).initializing =
      place.initializing := by
  rw [initializing_behindParameters]
  exact place.initializing_declare name.text

theorem initializing_placeBehind (place : Place) (statement : Statement Known) :
    (statement.placeBehind place).initializing = place.initializing := by
  cases statement with
  | declaration | function => exact place.initializing_declare _
  | _ => rfl

/-- Whether a place stands directly in a scope around which another place is. -/
def StandsIn (place outer : Place) : Prop :=
  ∃ names, place = { outer with scopes := names :: outer.scopes }

theorem StandsIn.declare {place outer : Place} (stands : place.StandsIn outer) (name : String) :
    (place.declare name).StandsIn outer := by
  obtain ⟨names, rfl⟩ := stands
  exact ⟨name :: names, rfl⟩

theorem StandsIn.behindParameters {place outer : Place} (stands : place.StandsIn outer)
    (names : List Name) : (place.behindParameters names).StandsIn outer := by
  unfold Place.behindParameters
  induction names generalizing place with
  | nil => exact stands
  | cons name rest inductionHypothesis => exact inductionHypothesis (stands.declare name.text)

theorem StandsIn.placeBehind {place outer : Place} (stands : place.StandsIn outer)
    (statement : Statement Known) : (statement.placeBehind place).StandsIn outer := by
  cases statement with
  | declaration | function => exact stands.declare _
  | _ => exact stands

theorem StandsIn.listPlaceBehind {place outer : Place} (stands : place.StandsIn outer)
    (statements : List (Statement Known)) :
    (Statement.listPlaceBehind place statements).StandsIn outer := by
  unfold Statement.listPlaceBehind
  induction statements generalizing place with
  | nil => exact stands
  | cons first rest inductionHypothesis => exact inductionHypothesis (stands.placeBehind first)

/-- Outside initializers no variable waits. -/
theorem waiting_of_initializing {place : Place} (outside : place.initializing = none) :
    place.waiting = none := by
  obtain ⟨scopes, globals, inFunction, initializing⟩ := place
  cases scopes with
  | nil => rfl
  | cons innermost outer => exact outside

/-- Parameters refer to nothing. -/
theorem parameters_bound (place : Place) (names : List Name) :
    ∀ occurrence ∈ (place.parameters names : List (Occurrence Binding)), occurrence.Bound := by
  induction names generalizing place with
  | nil =>
      intro _ member
      cases member
  | cons name rest inductionHypothesis =>
      intro occurrence member
      rcases List.mem_cons.mp member with rfl | behind
      · trivial
      · exact inductionHypothesis _ occurrence behind

end Place

section Statements

variable {place : Place}

/-- In a plain part of a statement, references are bound as in the scopes around it. -/
theorem Expression.references_bound_of_plain {value : Expression Binding}
    (outside : place.initializing = none) (bound : value.Bound place.scopes none) :
    ∀ occurrence ∈ place.references value.references, occurrence.Bound := by
  refine value.references_bound ?_
  rwa [Place.waiting_of_initializing outside]

mutual

/-- What occurs in a bound statement is bound. -/
theorem Statement.occurrences_bound : {place : Place} → (statement : Statement Binding) →
    place.initializing = none → statement.Bound place.scopes →
    ∀ occurrence ∈ statement.occurrences place, occurrence.Bound
  | _, .expression value, outside, bound, occurrence, member =>
      value.references_bound_of_plain outside bound occurrence member
  | _, .print value, outside, bound, occurrence, member =>
      value.references_bound_of_plain outside bound occurrence member
  | place, .declaration name initializer, outside, bound, occurrence, member => by
      rcases List.mem_cons.mp member with rfl | behind
      · trivial
      · refine Expression.optionalReferences_bound (fun value isValue => ?_) occurrence behind
        rw [place.waiting_inInitializer name.text]
        exact bound.2 value isValue
  | place, .function name parameters body, outside, bound, occurrence, member => by
      rcases List.mem_cons.mp member with rfl | behind
      · trivial
      rcases List.mem_append.mp behind with isParameter | inBody
      · exact Place.parameters_bound _ _ occurrence isParameter
      · refine Statement.listOccurrences_bound body ?_ ?_ occurrence inBody
        · rw [place.initializing_body name parameters]
          exact outside
        · rw [place.scopes_body name parameters]
          exact bound.2.2
  | place, .block items, outside, bound, occurrence, member => by
      have inside : place.enterBlock.initializing = none := outside
      exact Statement.listOccurrences_bound items inside bound occurrence member
  | _, .conditional condition thenBranch none, outside, bound, occurrence, member => by
      rcases List.mem_append.mp member with first | second
      · exact condition.references_bound_of_plain outside bound.1 occurrence first
      · exact thenBranch.occurrences_bound outside bound.2.2 occurrence second
  | _, .conditional condition thenBranch (some elseBranch), outside, bound, occurrence, member => by
      rcases List.mem_append.mp member with first | branches
      · exact condition.references_bound_of_plain outside bound.1 occurrence first
      rcases List.mem_append.mp branches with second | third
      · exact thenBranch.occurrences_bound outside bound.2.1.2 occurrence second
      · exact elseBranch.occurrences_bound outside bound.2.2.2 occurrence third
  | _, .loop condition body, outside, bound, occurrence, member => by
      rcases List.mem_append.mp member with first | second
      · exact condition.references_bound_of_plain outside bound.1 occurrence first
      · exact body.occurrences_bound outside bound.2.2 occurrence second
  | place, .returning line value, outside, bound, occurrence, member => by
      rcases List.mem_cons.mp member with rfl | behind
      · trivial
      · refine Expression.optionalReferences_bound (fun result isResult => ?_) occurrence behind
        rw [Place.waiting_of_initializing outside]
        exact bound result isResult

/-- What occurs in bound statements is bound. -/
theorem Statement.listOccurrences_bound : {place : Place} → (statements : List (Statement Binding)) →
    place.initializing = none → Statement.listBound place.scopes statements →
    ∀ occurrence ∈ Statement.listOccurrences place statements, occurrence.Bound
  | _, [], _, _, _, member => by cases member
  | place, first :: rest, outside, bound, occurrence, member => by
      rcases List.mem_append.mp member with front | behind
      · exact first.occurrences_bound outside bound.1 occurrence front
      · refine Statement.listOccurrences_bound rest ?_ ?_ occurrence behind
        · rw [place.initializing_placeBehind first]
          exact outside
        · rw [place.scopes_placeBehind first]
          exact bound.2

end

end Statements

/-! ## Written order -/

namespace Occurrence

variable {known : List String}

theorem mistakenTokens_append (first second : List (Occurrence Known)) :
    mistakenTokens known (first ++ second) = mistakenTokens known first ++ mistakenTokens known second := by
  unfold mistakenTokens
  rw [List.filter_append, List.map_append]

theorem mistakenTokens_sublist (occurrences : List (Occurrence Known)) :
    (mistakenTokens known occurrences).Sublist (occurrences.map (·.blame.token)) :=
  List.filter_sublist.map _

/-- An occurrence and others behind it. -/
theorem mistakenTokens_cons_sublist (first : Occurrence Known) {others : List (Occurrence Known)}
    {tokens : List Token} (sublist : (mistakenTokens known others).Sublist tokens) :
    (mistakenTokens known (first :: others)).Sublist (first.blame.token :: tokens) := by
  rw [← List.singleton_append, mistakenTokens_append]
  exact (mistakenTokens_sublist [first]).append sublist

/-- Outside initializers no reference is a mistake. -/
theorem mistakenTokens_references {place : Place} (outside : place.initializing = none)
    (references : List (Reference Known)) : mistakenTokens known (place.references references) = [] := by
  have none (occurrence : Occurrence Known) (member : occurrence ∈ place.references references) :
      ¬ decide (occurrence.Mistaken known) = true := by
    obtain ⟨reference, _, rfl⟩ := List.mem_map.mp member
    intro mistaken
    have initializing := (of_decide_eq_true mistaken).2.1
    rw [show place.initializing = none from outside] at initializing
    cases initializing
  unfold mistakenTokens
  rw [List.filter_eq_nil_iff.mpr none, List.map_nil]

theorem mistakenTokens_parameters (place : Place) (names : List Name) :
    (mistakenTokens known (place.parameters names : List (Occurrence Known))).Sublist
      (names.map Name.token) := by
  induction names generalizing place with
  | nil => exact List.Sublist.refl _
  | cons name rest inductionHypothesis => exact mistakenTokens_cons_sublist _ (inductionHypothesis _)

end Occurrence

open Occurrence

variable {known : List String}

mutual

/-- Mistakes in a statement are met in the order of the tokens that are suspected. -/
theorem Statement.mistakenTokens_occurrences : {place : Place} → (statement : Statement Known) →
    place.initializing = none →
    (mistakenTokens known (statement.occurrences place)).Sublist statement.suspects
  | place, .expression value, outside => by
      rw [Statement.occurrences, mistakenTokens_references outside]
      exact List.nil_sublist _
  | place, .print value, outside => by
      rw [Statement.occurrences, mistakenTokens_references outside]
      exact List.nil_sublist _
  | place, .declaration name initializer, _ => by
      refine mistakenTokens_cons_sublist _ ((mistakenTokens_sublist _).trans ?_)
      rw [Place.references, List.map_map]
      exact List.Sublist.refl _
  | place, .function name parameters body, outside => by
      refine mistakenTokens_cons_sublist _ ?_
      rw [mistakenTokens_append]
      refine (mistakenTokens_parameters _ parameters).append ?_
      refine Statement.mistakenTokens_listOccurrences body ?_
      rw [place.initializing_body name parameters]
      exact outside
  | place, .block items, outside => by
      have inside : place.enterBlock.initializing = none := outside
      exact Statement.mistakenTokens_listOccurrences items inside
  | place, .conditional condition thenBranch none, outside => by
      rw [Statement.occurrences, mistakenTokens_append, mistakenTokens_references outside]
      exact thenBranch.mistakenTokens_occurrences outside
  | place, .conditional condition thenBranch (some elseBranch), outside => by
      rw [Statement.occurrences, mistakenTokens_append, mistakenTokens_references outside,
        mistakenTokens_append]
      exact (thenBranch.mistakenTokens_occurrences outside).append
        (elseBranch.mistakenTokens_occurrences outside)
  | place, .loop condition body, outside => by
      rw [Statement.occurrences, mistakenTokens_append, mistakenTokens_references outside]
      exact body.mistakenTokens_occurrences outside
  | place, .returning line value, outside => by
      have none : mistakenTokens known (place.references (Expression.optionalReferences value)) = [] :=
        mistakenTokens_references outside _
      exact mistakenTokens_cons_sublist _ (List.sublist_nil.mpr none)

theorem Statement.mistakenTokens_listOccurrences : {place : Place} → (statements : List (Statement Known)) →
    place.initializing = none →
    (mistakenTokens known (Statement.listOccurrences place statements)).Sublist
      (Statement.listSuspects statements)
  | place, [], _ => List.Sublist.refl _
  | place, first :: rest, outside => by
      rw [Statement.listOccurrences, mistakenTokens_append]
      refine (first.mistakenTokens_occurrences outside).append ?_
      refine Statement.mistakenTokens_listOccurrences rest ?_
      rw [place.initializing_placeBehind first]
      exact outside

end

end LoxInterpreter
