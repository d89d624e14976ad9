import PromptLine.Mode

/-!
# The bindings of a mode

Keystrokes move a mode from state to state and leave its bindings alone.  What stays is collected in
`pristine`, the mode as it was before the first keystroke, so that "the bindings are the same" is an
equation between modes and goes through every operation by rewriting.

A mode is *frozen* if its tries hold what its tables hold.  Then input is cut by the keystrokes that
are `active`: all that are bound, or while text is typed only those that mean something there.
-/

namespace PromptLine

/-! ## The plain dispatcher -/

namespace Emacs

theorem table_resolve (m : Emacs) (stroke : Stroke) : (m.resolve stroke).1.table = m.table := by
  rw [resolve]
  dsimp only
  split
  · rfl
  · rfl
  · split <;> rfl
  · split <;> rfl

theorem table_parse (m : Emacs) (stroke : Stroke) : (m.parse stroke).1.table = m.table := by
  rw [parse]
  split
  · rfl
  · rw [table_resolve]

end Emacs

/-! ## The modal dispatcher -/

namespace Vi

/-- The dispatcher before its first keystroke. -/
def pristine (m : Vi) : Vi := { ofTable m.table with insertTrie := m.insertTrie }

theorem pristine_follow (m : Vi) (entry : Entry) : (m.follow entry).1.pristine = m.pristine := by
  rw [follow]
  split
  · rfl
  · split
    · rfl
    · dsimp only
      split <;> rfl

theorem pristine_replaceWith (m : Vi) (stroke : Stroke) :
    (m.replaceWith stroke).1.pristine = m.pristine := by
  rw [replaceWith]
  dsimp only
  split <;> rfl

theorem pristine_unbound (m : Vi) (stroke : Stroke) :
    (m.unbound stroke).1.pristine = m.pristine := by
  rw [unbound]
  split <;> rfl

theorem pristine_resolve (m : Vi) (stroke : Stroke) :
    (m.resolve stroke).1.pristine = m.pristine := by
  rw [resolve]
  split
  · rfl
  · split
    · exact pristine_replaceWith m stroke
    · split
      · exact pristine_follow m _
      · exact pristine_unbound m stroke

theorem pristine_parse (m : Vi) (stroke : Stroke) : (m.parse stroke).1.pristine = m.pristine := by
  rw [parse]
  split
  · rfl
  · rw [pristine_resolve]
    rfl

end Vi

/-! ## Both -/

namespace Mode

/-- The mode before its first keystroke. -/
def pristine : Mode → Mode
  | emacs m => emacs (.ofTable m.table)
  | vi m => vi m.pristine

@[simp] theorem pristine_start (mode : EditingMode) (report : DeviceReport) :
    (start mode report).pristine = start mode report := by
  cases mode <;> rfl

/-- **A keystroke leaves the bindings alone**, and so does all that follows from it. -/
@[simp] theorem pristine_parse (m : Mode) (stroke : Stroke) :
    (m.parse stroke).1.pristine = m.pristine := by
  cases m with
  | emacs m => exact congrArg (fun table => emacs (.ofTable table)) (m.table_parse stroke)
  | vi m => exact congrArg vi (m.pristine_parse stroke)

@[simp] theorem pristine_takeBack (m : Mode) (action : Action) :
    (m.takeBack action).pristine = m.pristine := by
  cases m <;> rfl

@[simp] theorem pristine_reset (m : Mode) : m.reset.pristine = m.pristine := by
  cases m <;> rfl

/-! ## Cutting input -/

/-- The keystrokes of the mode's table. -/
def strokes : Mode → List Stroke
  | emacs m => m.table.bindings.strokes
  | vi m => m.table.bindings.strokes

/-- The keystrokes that input is cut by in the current state. -/
def active : Mode → List Stroke
  | emacs m => m.table.bindings.strokes
  | vi m =>
    if m.status.takesText then
      (m.table.bindings.entries.filter fun binding => (binding.2.for? .edit).isSome).map (·.1)
    else m.table.bindings.strokes

/-- The tries of the mode hold what its tables hold. -/
def Frozen : Mode → Prop
  | emacs m => m.table = .ofBindings m.table.bindings
  | vi m => m.table = .ofBindings m.table.bindings ∧ m.insertTrie = Vi.insertTrieOf m.table

@[simp] theorem strokes_pristine (m : Mode) : m.pristine.strokes = m.strokes := by
  cases m <;> rfl

theorem frozen_pristine (m : Mode) : m.pristine.Frozen ↔ m.Frozen := by
  cases m <;> rfl

theorem frozen_start (mode : EditingMode) (report : DeviceReport) :
    (start mode report).Frozen := by
  cases mode with
  | emacs => rfl
  | vi => exact ⟨rfl, rfl⟩

/-- A frozen mode cuts input by the active keystrokes. -/
theorem keys_eq_ofList {m : Mode} (h : m.Frozen) : m.keys = .ofList m.active := by
  cases m with
  | emacs m =>
    have htable : m.table = .ofBindings m.table.bindings := h
    rw [keys, Emacs.keys, htable]
    rfl
  | vi m =>
    obtain ⟨htable, htrie⟩ := h
    rw [keys, Vi.keys, active]
    split
    · rw [htrie, Vi.insertTrieOf]
    · rw [htable]
      rfl

/-- Only bound keystrokes are active. -/
theorem mem_strokes_of_mem_active {m : Mode} {stroke : Stroke} (h : stroke ∈ m.active) :
    stroke ∈ m.strokes := by
  cases m with
  | emacs m => exact h
  | vi m =>
    rw [active] at h
    split at h
    · obtain ⟨binding, hbinding, rfl⟩ := List.mem_map.mp h
      exact List.mem_map_of_mem (List.mem_filter.mp hbinding).1
    · exact h

end Mode

end PromptLine
