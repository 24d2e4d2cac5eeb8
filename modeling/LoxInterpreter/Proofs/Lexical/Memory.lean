import LoxInterpreter.Proofs.Lexical.Layout

/-!
Contract: changes of memory that keep two machines alike.

A layout grows by slots in frames that are new, or by slots in the current frame for names that it did
not have. Neither touches a slot that was there.

Owns: `Layout.Grows`, how places and values stay alike in layouts that grew, and the changes that
declarations, assignments and new frames make.
-/

namespace LoxInterpreter.Lexical

namespace Layout

variable {layout layout' layout'' : Layout} {context : Context} {environment : Environment}
  {scope : Scope}

/-! ## Growing -/

/-- Whether a layout continues another by slots in frames that were not among the first ones, or in the
current frame. -/
def Grows (layout layout' : Layout) (frames : Nat) (current : Option FrameId) : Prop :=
  ∃ added, layout' = layout ++ added ∧ ∀ slot ∈ added, frames ≤ slot.1 ∨ current = some slot.1

namespace Grows

variable {frames frames' : Nat} {current : Option FrameId}

theorem refl (layout : Layout) (frames : Nat) (current : Option FrameId) :
    layout.Grows layout frames current :=
  ⟨[], by simp, by simp⟩

theorem append {id : FrameId} {name : String} (allowed : frames ≤ id ∨ current = some id) :
    layout.Grows (layout ++ [(id, name)]) frames current := by
  refine ⟨[(id, name)], rfl, ?_⟩
  intro slot member
  rw [List.mem_singleton] at member
  rw [member]
  exact allowed

theorem trans (first : layout.Grows layout' frames current)
    (second : layout'.Grows layout'' frames' current) (more : frames ≤ frames') :
    layout.Grows layout'' frames current := by
  have ⟨added, isFirst, allowed⟩ := first
  have ⟨added', isSecond, allowed'⟩ := second
  refine ⟨added ++ added', by rw [isSecond, isFirst, List.append_assoc], ?_⟩
  intro slot member
  cases List.mem_append.mp member with
  | inl early => exact allowed slot early
  | inr late =>
      cases allowed' slot late with
      | inl isNew => exact .inl (Nat.le_trans more isNew)
      | inr isCurrent => exact .inr isCurrent

/-- What grew in a frame that was new grew in new frames alone. -/
theorem inside {id : FrameId} (grows : layout.Grows layout' frames' (some id)) (more : frames ≤ frames')
    (isNew : frames ≤ id) (current : Option FrameId) : layout.Grows layout' frames current := by
  have ⟨added, isAdded, allowed⟩ := grows
  refine ⟨added, isAdded, ?_⟩
  intro slot member
  cases allowed slot member with
  | inl above => exact .inl (Nat.le_trans more above)
  | inr isId =>
      rw [← Option.some.inj isId]
      exact .inl isNew

theorem weaken (grows : layout.Grows layout' frames none) (current : Option FrameId) :
    layout.Grows layout' frames current := by
  have ⟨added, isAdded, allowed⟩ := grows
  refine ⟨added, isAdded, ?_⟩
  intro slot member
  exact .inl ((allowed slot member).resolve_right (by simp))

theorem isPrefix (grows : layout.Grows layout' frames current) : layout <+: layout' := by
  have ⟨added, isAdded, _⟩ := grows
  exact ⟨added, isAdded.symm⟩

/-- No slot is added to a frame that is neither new nor current. -/
theorem mem_iff (grows : layout.Grows layout' frames none) {id : FrameId} (made : id < frames)
    (name : String) : (id, name) ∈ layout' ↔ (id, name) ∈ layout := by
  have ⟨added, isAdded, allowed⟩ := grows
  rw [isAdded, List.mem_append]
  constructor
  · intro member
    cases member with
    | inl before => exact before
    | inr isNew =>
        have above := (allowed _ isNew).resolve_right (by simp)
        exact absurd made (Nat.not_lt.mpr above)
  · exact .inl

end Grows

/-! ## Places and values in a layout that grew -/

theorem getElem?_mono (continues : layout <+: layout') {location : Location} {slot : FrameId × String}
    (isSlot : layout[location]? = some slot) : layout'[location]? = some slot := by
  have ⟨bound, same⟩ := List.getElem?_eq_some_iff.mp isSlot
  rw [List.prefix_iff_getElem?.mp continues location bound, same]

theorem Matches.mono (found : layout.Matches context environment scope)
    (continues : layout <+: layout') : layout'.Matches context environment scope := by
  constructor
  · intro name distance bound
    have ⟨location, id, isLocation, isFrame, isSlot⟩ := found.enclosing bound
    exact ⟨location, id, isLocation, isFrame, getElem?_mono continues isSlot⟩
  · exact found.global

theorem Functions.mono {function : Closure} {other : Closure Unit Scope}
    (alike : layout.Functions function other) (continues : layout <+: layout') :
    layout'.Functions function other := by
  have ⟨context, found, bound⟩ := alike.around
  exact ⟨alike.same, alike.distinct, ⟨context, found.mono continues, bound⟩, alike.others⟩

theorem Related.mono {value : LoxInterpreter.Value} {value' : Value}
    (related : layout.Related value value') (continues : layout <+: layout') :
    layout'.Related value value' :=
  related.imp fun _ _ alike => alike.mono continues

theorem Related.same {value : LoxInterpreter.Value} {value' : Value}
    (related : layout.Related value value') : Alike SameFunction value value' :=
  related.imp fun _ _ alike => alike.same

theorem rel_mono {value? : Option LoxInterpreter.Value} {value'? : Option Value}
    (related : Option.Rel layout.Related value? value'?) (continues : layout <+: layout') :
    Option.Rel layout'.Related value? value'? := by
  cases related with
  | none => exact .none
  | some related => exact .some (related.mono continues)

/-! ## Places -/

variable {frames frames' : Nat}

theorem Matches.outside : layout.Matches [] environment .outside :=
  ⟨fun bound => by simp [Context.binding] at bound, fun _ => rfl⟩

theorem Stands.found (stands : layout.Stands frames context environment scope) :
    layout.Matches context environment scope := by
  cases stands with
  | outside => exact .outside
  | within inner made found slots => exact found

theorem Stands.mono (stands : layout.Stands frames context environment scope)
    (grows : layout.Grows layout' frames none) (more : frames ≤ frames') :
    layout'.Stands frames' context environment scope := by
  cases stands with
  | outside => exact .outside
  | within inner made found slots =>
      apply Stands.within inner (Nat.lt_of_lt_of_le made more) (found.mono grows.isPrefix)
      intro name
      rw [grows.mem_iff made, slots name]

/-- Code that stands behind a statement without names stands as well where it stood before. -/
theorem Stands.before {behind : Scope} (stands : layout.Stands frames context environment scope)
    (continues : layout <+: layout') (later : layout'.Stands frames' context environment behind) :
    layout'.Stands frames' context environment scope := by
  cases stands with
  | outside => exact .outside
  | within inner _ found _ =>
      cases later with
      | within _ made _ slots => exact .within inner made (found.mono continues) slots

/-- A new frame is the place of a new scope. -/
theorem Matches.enter (found : layout.Matches context environment scope)
    (unused : ∀ name, (frames, name) ∉ layout) (globals_made : Machine.globalFrame < frames) :
    layout.Stands (frames + 1) ([] :: context) (frames :: environment) scope.enter := by
  apply Stands.within (Nat.ne_of_gt globals_made) (Nat.lt_succ_self frames)
  · constructor
    · intro name distance bound
      rw [Context.binding_enter] at bound
      cases further : context.binding name with
      | global => simp [further] at bound
      | enclosing distance' =>
          have isDistance : distance' + 1 = distance := by simpa [further] using bound
          have ⟨location, id, isLocation, isFrame, isSlot⟩ := found.enclosing further
          refine ⟨location, id, isLocation, ?_, isSlot⟩
          rw [← isDistance, List.getElem?_cons_succ]
          exact isFrame
    · intro name bound
      rw [Context.binding_enter] at bound
      cases further : context.binding name with
      | global => exact found.global further
      | enclosing distance => simp [further] at bound
  · intro name
    simp [unused name]

/-- A declared name is at the location that was next to be used. -/
theorem Matches.declare {id : FrameId} {enclosing : Environment} {names : List String} {outer : Context}
    {reachable : List (String × Location)}
    (found : layout.Matches (names :: outer) (id :: enclosing) (.within reachable)) (name : String) :
    Matches (layout ++ [(id, name)]) ((name :: names) :: outer) (id :: enclosing)
      (.within ((name, layout.length) :: reachable)) := by
  have continues : layout <+: layout ++ [(id, name)] := List.prefix_append _ _
  constructor
  · intro other distance bound
    by_cases same : other = name
    · rw [same, Context.binding_declare_self] at bound
      have isHere : 0 = distance := Binding.enclosing.inj bound
      refine ⟨layout.length, id, ?_, by rw [← isHere]; rfl, by simp [same]⟩
      simp [Scope.find?, Scope.reachable, same]
    · rw [Context.binding_declare_of_ne names outer same] at bound
      have ⟨location, id', isLocation, isFrame, isSlot⟩ := found.enclosing bound
      refine ⟨location, id', ?_, isFrame, getElem?_mono continues isSlot⟩
      have different : (other == name) = false := by simpa using same
      simpa [Scope.find?, Scope.reachable, List.lookup_cons, different] using isLocation
  · intro other bound
    by_cases same : other = name
    · rw [same, Context.binding_declare_self] at bound
      cases bound
    · rw [Context.binding_declare_of_ne names outer same] at bound
      have different : (other == name) = false := by simpa using same
      simpa [Scope.find?, Scope.reachable, List.lookup_cons, different] using found.global bound

/-! ## Memory -/

namespace Relates

variable {machine : LoxInterpreter.Machine} {other : Machine} {value : LoxInterpreter.Value}
  {value' : Value}

theorem extend (relates : layout.Relates machine other) (environment : Environment) :
    layout.Relates { machine with store := (machine.store.extend environment).2 } other := by
  constructor
  · exact relates.used
  · exact relates.nodup
  · rw [Store.size_extend]
    exact Nat.lt_succ_of_lt relates.globals_made
  · intro id name member
    have ⟨inner, made⟩ := relates.slot id name member
    rw [Store.size_extend]
    exact ⟨inner, Nat.lt_succ_of_lt made⟩
  · intro location id name isSlot
    rw [Store.frame_extend]
    exact relates.content location id name isSlot
  · intro name
    unfold LoxInterpreter.Machine.globals
    rw [Store.frame_extend]
    exact relates.globals name
  · exact relates.output
  · exact relates.clock
  · exact relates.clockReadings
  · exact relates.functionCount

/-- A variable of a frame and its location are written. -/
theorem write (relates : layout.Relates machine other) {location : Location} {id : FrameId}
    {name : String} (isSlot : layout[location]? = some (id, name))
    (related : layout.Related value value') :
    layout.Relates { machine with store := machine.store.write id name value }
      (other.write location value') := by
  have member : (id, name) ∈ layout := List.mem_of_getElem? isSlot
  have ⟨inner, made⟩ := relates.slot id name member
  constructor
  · exact relates.used
  · exact relates.nodup
  · rw [Store.size_write]
    exact relates.globals_made
  · rw [Store.size_write]
    exact relates.slot
  · intro location' id' name' isSlot'
    have ⟨before, isBefore, relatedBefore⟩ := relates.content location' id' name' isSlot'
    by_cases same : location' = location
    · rw [same, isSlot] at isSlot'
      cases isSlot'
      refine ⟨value, ?_, by simpa [Machine.write, same] using related⟩
      rw [Store.frame_write_self made, Table.get?_set_self]
    · refine ⟨before, ?_, by simpa [Machine.write, same] using relatedBefore⟩
      have different : (id', name') ≠ (id, name) := by
        intro isSame
        have bound := (List.getElem?_eq_some_iff.mp isSlot').1
        apply same
        rw [← List.getElem?_inj bound relates.nodup, isSlot', isSlot, isSame]
      by_cases sameFrame : id' = id
      · rw [sameFrame] at different isBefore ⊢
        have otherName : name' ≠ name := fun isSame => different (by rw [isSame])
        rw [Store.frame_write_self made, Table.get?_set_of_ne _ otherName]
        exact isBefore
      · rw [Store.frame_write_of_ne sameFrame]
        exact isBefore
  · intro name'
    unfold LoxInterpreter.Machine.globals
    rw [Store.frame_write_of_ne inner.symm]
    exact relates.globals name'
  · exact relates.output
  · exact relates.clock
  · exact relates.clockReadings
  · exact relates.functionCount

/-- A global variable is written on both machines. -/
theorem writeGlobal (relates : layout.Relates machine other) (name : String)
    (related : layout.Related value value') :
    layout.Relates { machine with store := machine.store.write Machine.globalFrame name value }
      { other with globals := other.globals.set name value' } := by
  constructor
  · exact relates.used
  · exact relates.nodup
  · rw [Store.size_write]
    exact relates.globals_made
  · rw [Store.size_write]
    exact relates.slot
  · intro location id name' isSlot
    have ⟨inner, _⟩ := relates.slot id name' (List.mem_of_getElem? isSlot)
    rw [Store.frame_write_of_ne inner]
    exact relates.content location id name' isSlot
  · intro name'
    unfold LoxInterpreter.Machine.globals
    rw [Store.frame_write_self relates.globals_made]
    by_cases same : name' = name
    · rw [same, Table.get?_set_self, Table.get?_set_self]
      exact .some related
    · rw [Table.get?_set_of_ne _ same, Table.get?_set_of_ne _ same]
      exact relates.globals name'
  · exact relates.output
  · exact relates.clock
  · exact relates.clockReadings
  · exact relates.functionCount

/-- A variable is defined that its frame did not have a slot for. -/
theorem define (relates : layout.Relates machine other) {id : FrameId} {name : String}
    (inner : id ≠ Machine.globalFrame) (made : id < machine.store.frames.size)
    (fresh : (id, name) ∉ layout) (related : Related (layout ++ [(id, name)]) value value') :
    Relates (layout ++ [(id, name)]) { machine with store := machine.store.write id name value }
      { other.write other.used value' with used := other.used + 1 } := by
  have continues : layout <+: layout ++ [(id, name)] := List.prefix_append _ _
  constructor
  · simp [relates.used]
  · rw [List.nodup_append]
    refine ⟨relates.nodup, by simp, ?_⟩
    intro slot member slot' member' same
    rw [List.mem_singleton] at member'
    exact fresh (member' ▸ same ▸ member)
  · rw [Store.size_write]
    exact relates.globals_made
  · intro id' name' member
    rw [Store.size_write]
    cases List.mem_append.mp member with
    | inl before => exact relates.slot id' name' before
    | inr isNew =>
        have isSlot := List.mem_singleton.mp isNew
        cases isSlot
        exact ⟨inner, made⟩
  · intro location id' name' isSlot
    by_cases isNew : location = layout.length
    · rw [isNew, List.getElem?_append_right (Nat.le_refl _)] at isSlot
      have same : (id, name) = (id', name') := by simpa using isSlot
      cases same
      refine ⟨value, ?_, by simpa [Machine.write, relates.used, isNew] using related⟩
      rw [Store.frame_write_self made, Table.get?_set_self]
    · have bound := (List.getElem?_eq_some_iff.mp isSlot).1
      rw [List.length_append, List.length_singleton] at bound
      have before : location < layout.length :=
        Nat.lt_of_le_of_ne (Nat.le_of_lt_succ bound) isNew
      rw [List.getElem?_append_left before] at isSlot
      have ⟨content, isContent, relatedContent⟩ := relates.content location id' name' isSlot
      refine ⟨content, ?_, ?_⟩
      · by_cases sameFrame : id' = id
        · rw [sameFrame] at isSlot isContent ⊢
          have otherName : name' ≠ name := by
            intro isSame
            rw [isSame] at isSlot
            exact fresh (List.mem_of_getElem? isSlot)
          rw [Store.frame_write_self made, Table.get?_set_of_ne _ otherName]
          exact isContent
        · rw [Store.frame_write_of_ne sameFrame]
          exact isContent
      · have isOther : location ≠ other.used := by rw [relates.used]; exact isNew
        simpa [Machine.write, isOther] using relatedContent.mono continues
  · intro name'
    unfold LoxInterpreter.Machine.globals
    rw [Store.frame_write_of_ne inner.symm]
    exact rel_mono (relates.globals name') continues
  · exact relates.output
  · exact relates.clock
  · exact relates.clockReadings
  · exact relates.functionCount

end Relates

end Layout

end LoxInterpreter.Lexical
