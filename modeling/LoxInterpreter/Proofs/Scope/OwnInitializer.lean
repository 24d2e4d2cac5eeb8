import LoxInterpreter.Proofs.Scope.Declarative

/-!
Contract: what the name of a local variable means in its own initializer.

The name is declared, and waits. A read of it means the variable of that name that is nearest outside
the innermost scope. An assignment to it does not: it goes to the waiting variable itself.

Owns: `Context.bindingOutside`, `Occurrence.RefersToOwn`, and `Expression.own_references`.
Does not own: which programs have such an assignment (`Proofs.Scope.Initializer`).
-/

namespace LoxInterpreter

/-- Where a name is found outside the innermost scope. -/
def Context.bindingOutside (context : Context) (name : String) : Binding :=
  match context.tail.findIdx? (·.contains name) with
  | some distance => .enclosing (distance + 1)
  | none => .global

/-- Outside the innermost scope nothing is in it. -/
theorem Context.bindingOutside_ne_innermost (context : Context) (name : String) :
    context.bindingOutside name ≠ .enclosing 0 := by
  unfold bindingOutside
  split
  · simp
  · simp

/-- A name that the innermost scope has not declared is found outside of it. -/
theorem Context.binding_of_fresh {context : Context} {name : String} (fresh : context.Fresh name) :
    context.binding name = context.bindingOutside name := by
  cases context with
  | nil => rfl
  | cons innermost outer =>
      have absent : name ∉ innermost := fresh
      have notHere : ¬ innermost.contains name = true := by simpa using absent
      unfold binding bindingOutside
      rw [List.findIdx?_cons, if_neg notHere, List.tail_cons]
      cases outer.findIdx? (·.contains name) with
      | none => rfl
      | some distance => rfl

/-! ## Occurrences in programs -/

/-- What waits is initialized. -/
theorem Place.initializing_of_waiting {place : Place} {name : String}
    (waits : place.waiting = some name) : place.initializing = some name := by
  unfold waiting at waits
  split at waits
  · cases waits
  · exact waits

/-- Whether an occurrence is a reference to the local variable in whose initializer it stands. -/
def Occurrence.RefersToOwn {Known : Type} (occurrence : Occurrence Known)
    (reference : Reference Known) : Prop :=
  occurrence.act = .refers reference ∧ occurrence.place.waiting = some reference.name.text

/-- Whether the variable that waits where something occurs is declared in the innermost scope by nothing
before. -/
def Occurrence.WaitsFresh {Known : Type} (occurrence : Occurrence Known) : Prop :=
  ∀ name, occurrence.place.waiting = some name → occurrence.place.scopes.Fresh name

namespace Occurrence

variable {place : Place}

/-- Where nothing is initialized, nothing waits. -/
theorem waitsFresh_of_outside {occurrence : Occurrence Binding}
    (outside : occurrence.place.initializing = none) : occurrence.WaitsFresh := by
  intro name waits
  rw [Place.waiting_of_initializing outside] at waits
  cases waits

theorem references_waitFresh (outside : place.initializing = none)
    (references : List (Reference Binding)) :
    ∀ occurrence ∈ place.references references, occurrence.WaitsFresh := by
  intro occurrence member
  have ⟨reference, _, isOccurrence⟩ := List.mem_map.mp member
  subst isOccurrence
  exact waitsFresh_of_outside outside

theorem initializer_waitsFresh {name : String} (fresh : place.scopes.Fresh name)
    (references : List (Reference Binding)) :
    ∀ occurrence ∈ (place.inInitializer name).references references, occurrence.WaitsFresh := by
  intro occurrence member other waits
  have ⟨reference, _, isOccurrence⟩ := List.mem_map.mp member
  subst isOccurrence
  rw [place.waiting_inInitializer name] at waits
  change place.scopes.Fresh other
  generalize place.scopes = scopes at fresh waits
  cases scopes with
  | nil => trivial
  | cons innermost outer => exact Option.some.inj waits ▸ fresh

theorem parameters_waitFresh (names : List Name) : {place : Place} → place.initializing = none →
    ∀ occurrence ∈ (place.parameters names : List (Occurrence Binding)), occurrence.WaitsFresh := by
  induction names with
  | nil =>
      intro _ _ _ member
      cases member
  | cons name rest inductionHypothesis =>
      intro place outside occurrence member
      rcases List.mem_cons.mp member with isFirst | behind
      · subst isFirst
        exact waitsFresh_of_outside outside
      · exact inductionHypothesis ((place.initializing_declare name.text).trans outside) _ behind

end Occurrence

open Occurrence

mutual

/-- In a bound statement, what waits is not declared twice. -/
theorem Statement.occurrences_waitFresh : {place : Place} → (statement : Statement Binding) →
    place.initializing = none → statement.Bound place.scopes →
    ∀ occurrence ∈ statement.occurrences place, occurrence.WaitsFresh
  | _, .expression _, outside, _, occurrence, member => references_waitFresh outside _ occurrence member
  | _, .print _, outside, _, occurrence, member => references_waitFresh outside _ occurrence member
  | _, .declaration name initializer, outside, bound, occurrence, member => by
      rcases List.mem_cons.mp member with isFirst | behind
      · subst isFirst
        exact waitsFresh_of_outside outside
      · exact initializer_waitsFresh bound.1 _ occurrence behind
  | place, .function name parameters body, outside, bound, occurrence, member => by
      have settled : (place.declare name.text).enterFunction.initializing = none :=
        (place.initializing_declare name.text).trans outside
      rcases List.mem_cons.mp member with isFirst | behind
      · subst isFirst
        exact waitsFresh_of_outside outside
      rcases List.mem_append.mp behind with isParameter | inBody
      · exact parameters_waitFresh parameters settled occurrence isParameter
      · have inside := (place.initializing_body name parameters).trans outside
        refine Statement.listOccurrences_waitFresh body inside ?_ occurrence inBody
        rw [place.scopes_body name parameters]
        exact bound.2.2
  | place, .block items, outside, bound, occurrence, member => by
      have inside : place.enterBlock.initializing = none := outside
      exact Statement.listOccurrences_waitFresh items inside bound occurrence member
  | _, .conditional condition thenBranch none, outside, bound, occurrence, member => by
      rcases List.mem_append.mp member with first | second
      · exact references_waitFresh outside _ occurrence first
      · exact thenBranch.occurrences_waitFresh outside bound.2.2 occurrence second
  | _, .conditional condition thenBranch (some elseBranch), outside, bound, occurrence, member => by
      rcases List.mem_append.mp member with first | branches
      · exact references_waitFresh outside _ occurrence first
      rcases List.mem_append.mp branches with second | third
      · exact thenBranch.occurrences_waitFresh outside bound.2.1.2 occurrence second
      · exact elseBranch.occurrences_waitFresh outside bound.2.2.2 occurrence third
  | _, .loop condition body, outside, bound, occurrence, member => by
      rcases List.mem_append.mp member with first | second
      · exact references_waitFresh outside _ occurrence first
      · exact body.occurrences_waitFresh outside bound.2.2 occurrence second
  | _, .returning line value, outside, _, occurrence, member => by
      rcases List.mem_cons.mp member with isFirst | behind
      · subst isFirst
        exact waitsFresh_of_outside outside
      · exact references_waitFresh outside _ occurrence behind

/-- In bound statements, what waits is not declared twice. -/
theorem Statement.listOccurrences_waitFresh : {place : Place} → (statements : List (Statement Binding)) →
    place.initializing = none → Statement.listBound place.scopes statements →
    ∀ occurrence ∈ Statement.listOccurrences place statements, occurrence.WaitsFresh
  | _, [], _, _, _, member => by cases member
  | place, first :: rest, outside, bound, occurrence, member => by
      rcases List.mem_append.mp member with front | behind
      · exact first.occurrences_waitFresh outside bound.1 occurrence front
      · have inside := (place.initializing_placeBehind first).trans outside
        refine Statement.listOccurrences_waitFresh rest inside ?_ occurrence behind
        rw [place.scopes_placeBehind first]
        exact bound.2

end

/-- What a reference means in the initializer of the local variable that it names. -/
theorem Occurrence.known_of_refersToOwn {occurrence : Occurrence Binding}
    {reference : Reference Binding} (own : occurrence.RefersToOwn reference) (bound : occurrence.Bound)
    (fresh : occurrence.WaitsFresh) :
    reference.known =
      if reference.isAssignment then .enclosing 0
      else occurrence.place.scopes.bindingOutside reference.name.text := by
  obtain ⟨place, act⟩ := occurrence
  obtain ⟨isReference, waits⟩ := own
  dsimp only at isReference waits
  subst isReference
  unfold Occurrence.Bound at bound
  dsimp only at bound
  rw [bound, waits, Context.binding_of_fresh (fresh _ waits)]
  unfold Context.assignedBinding
  rw [if_pos rfl]

/-- What a reference means in an initializer in front of which a scope has not declared its variable. -/
theorem Expression.own_references {context : Context} {name : String} (fresh : context.Fresh name)
    (inScope : context ≠ []) {initializer : Expression Binding}
    (bound : initializer.Bound context (some name)) {reference : Reference Binding}
    (member : reference ∈ initializer.references) (own : reference.name.text = name) :
    reference.known =
      if reference.isAssignment then .enclosing 0 else context.bindingOutside name := by
  let place : Place := ⟨context, [], false, some name⟩
  have waits : place.waiting = some name := by
    cases context with
    | nil => exact absurd rfl inScope
    | cons innermost outer => rfl
  have refers : (⟨place, .refers reference⟩ : Occurrence Binding).RefersToOwn reference :=
    ⟨rfl, waits.trans (congrArg some own.symm)⟩
  have isBound : (⟨place, .refers reference⟩ : Occurrence Binding).Bound :=
    initializer.references_bound (waits ▸ bound) _ (List.mem_map.mpr ⟨reference, member, rfl⟩)
  have isFresh : (⟨place, .refers reference⟩ : Occurrence Binding).WaitsFresh := by
    intro other waitsOther
    have same : name = other := Option.some.inj (waits.symm.trans waitsOther)
    exact same ▸ fresh
  have known := known_of_refersToOwn refers isBound isFresh
  rwa [own] at known

end LoxInterpreter
