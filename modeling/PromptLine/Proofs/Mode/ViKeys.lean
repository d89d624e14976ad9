import PromptLine.Proofs.Key.FiniteMap
import PromptLine.Proofs.Mode.UsualBindings

/-!
# What a key makes of the modal dispatcher

An action in focus gets the key first.  Otherwise the key is a digit of a count, or it takes the
place of a character, or it has an entry for the current status, or it has none.  `Parsed` lists
these possibilities with all that becomes of the dispatcher, so that what holds of every key is
proved by going through the list.
-/

namespace PromptLine

namespace Stroke

theorem single?_eq_some {stroke : Stroke} {c : Char} :
    stroke.single? = some c ↔ stroke.sequence = [c] := by
  rw [single?]
  split
  · next d hsequence =>
    rw [hsequence, Option.some.injEq, List.cons.injEq]
    exact ⟨fun h => ⟨h, rfl⟩, And.left⟩
  · next hother =>
    exact ⟨fun h => absurd h (by simp), fun h => absurd h (hother c)⟩

theorem printable?_of_plain {stroke : Stroke} {c : Char} (hstroke : stroke.sequence = [c])
    (hplain : Unicode.isControl c = false) : stroke.printable? = some c := by
  rw [printable?, single?_eq_some.mpr hstroke, Option.filter_some, hplain]
  rfl

end Stroke

/-- A key is nobody's if no action holds the focus. -/
theorem Focus.route_of_free {current : Option Focus} (h : current.any isHeld = false)
    (resolved : Option Command) (stroke : Stroke) :
    route current resolved stroke = (none, none) := by
  unfold route
  split
  · rfl
  · rw [Option.any_some] at h
    rw [h]
    rfl

namespace Vi

/-! ## Keys that no action has the focus for -/

section Parsing

variable {m : Vi} {stroke : Stroke}

/-- A key that no action in focus gets is resolved. -/
theorem parse_of_free (h : m.focus.any Focus.isHeld = false) (stroke : Stroke) :
    m.parse stroke = resolve { m with focus := none } stroke := by
  rw [parse, Focus.route_of_free h]

/-- A key that an action in focus gets. -/
theorem parse_of_held {f : Focus} (hfocus : m.focus = some f) (hheld : f.isHeld = true)
    (stroke : Stroke) :
    m.parse stroke =
      ({ m with focus := some (f.input (m.textCommand? stroke) stroke) },
        some (.focus (f.input (m.textCommand? stroke) stroke))) := by
  have hroute : Focus.route m.focus (m.textCommand? stroke) stroke =
      (some (f.input (m.textCommand? stroke) stroke),
        some (.focus (f.input (m.textCommand? stroke) stroke))) := by
    rw [hfocus]
    exact if_pos hheld
  rw [parse, hroute]

/-- A key that is no digit of a count, and has an entry for the status. -/
theorem resolve_of_entry {entry : Entry} (hdigit : m.countDigit? stroke = none)
    (hstatus : m.status ≠ .replace)
    (hentry : entryOf m.table.bindings m.status stroke.sequence = some entry) :
    m.resolve stroke = m.follow entry := by
  rw [resolve, hdigit]
  dsimp only
  rw [if_neg hstatus, Keymap.get?, bind_get?_eq_entryOf, hentry]

theorem countDigit?_eq_none
    (h : ∀ c, stroke.sequence = [c] → c.isDigit = true → c = '0' ∧ m.count = none) :
    m.countDigit? stroke = none := by
  rw [countDigit?]
  split
  · rfl
  · split
    · rfl
    · next c hsingle =>
      rw [if_neg]
      rintro ⟨hdigit, hcounts⟩
      exact hcounts (h c (Stroke.single?_eq_some.mp hsingle) hdigit)

theorem countDigit?_of_single {c : Char} (hstroke : stroke.sequence = [c])
    (hdigit : c.isDigit = false) : m.countDigit? stroke = none := by
  refine countDigit?_eq_none fun d hsingle hd => ?_
  obtain rfl : d = c := (List.cons.inj (hsingle.symm.trans hstroke)).1
  exact absurd hd (Bool.eq_false_iff.mp hdigit)

/-! ## All that a key can do -/

/-- What carrying out an entry makes of the dispatcher. -/
inductive Followed (m : Vi) (entry : Entry) : Vi → Option Action → Prop
  /-- An action begins that takes the keys that follow. -/
  | focused {f : Focus} (begins : Focus.ofCommand? entry.command = some f) :
      Followed m entry { m.forgetCounts with focus := some f } (some (.focus f))
  /-- The last change is done again. -/
  | repeated (again : entry.next = .again) : Followed m entry m.forgetCounts m.lastChange
  /-- An action of the command, which may wait for a motion, and may be remembered. -/
  | acted {counted : Vi} {action : Action} {count : Nat}
      (plain : Focus.ofCommand? entry.command = none)
      (makes : action = Action.ofCommand entry.command m.status.operation count)
      (counts :
        (entry.next.awaitsMotion && !m.status.awaitsMotion) = true ∧ count = 1 ∧
            counted = { m with operatorCount := m.count, count := none } ∨
          (entry.next.awaitsMotion && !m.status.awaitsMotion) = false ∧ count = m.totalCount ∧
            counted = m.forgetCounts)
      (once : entry.next ≠ .again) :
      Followed m entry
        { counted with
          status := entry.next
          lastChange := if entry.isRecorded m.status then some action else m.lastChange }
        (some action)

/-- What a key makes of the dispatcher if no action has the focus. -/
inductive Resolved (m : Vi) (stroke : Stroke) : Vi → Option Action → Prop
  /-- The key is a digit of a count. -/
  | counted {digit : Nat} (digit? : m.countDigit? stroke = some digit) :
      Resolved m stroke (m.pushDigit digit) none
  /-- The key takes the place of a character. -/
  | replaced {c : Char} (status : m.status = .replace) (printable : stroke.printable? = some c) :
      Resolved m stroke
        { m.forgetCounts with status := .command, lastChange := some (.replaceChar c) }
        (some (.replaceChar c))
  /-- The key cannot take the place of a character. -/
  | refused (status : m.status = .replace) (unprintable : stroke.printable? = none) :
      Resolved m stroke { m.forgetCounts with status := .command } none
  /-- The key has an entry for the status. -/
  | bound {entry : Entry} {after : Vi} {action? : Option Action}
      (uncounted : m.countDigit? stroke = none) (status : m.status ≠ .replace)
      (found : entryOf m.table.bindings m.status stroke.sequence = some entry)
      (follows : Followed m entry after action?) : Resolved m stroke after action?
  /-- The key stands for itself, where text is typed. -/
  | typed (status : m.status = .edit)
      (unbound : entryOf m.table.bindings m.status stroke.sequence = none) :
      Resolved m stroke m (Action.ofStroke? stroke)
  /-- The key means nothing. -/
  | lost (uncounted : m.countDigit? stroke = none) (status : m.status ≠ .edit)
      (unbound : entryOf m.table.bindings m.status stroke.sequence = none) :
      Resolved m stroke m.forgetCounts none

/-- What a key makes of the dispatcher. -/
inductive Parsed (m : Vi) (stroke : Stroke) : Vi → Option Action → Prop
  /-- An action in focus gets the key. -/
  | routed {f : Focus} (focus : m.focus = some f) (held : f.isHeld = true) :
      Parsed m stroke { m with focus := some (f.input (m.textCommand? stroke) stroke) }
        (some (.focus (f.input (m.textCommand? stroke) stroke)))
  /-- No action has the focus. -/
  | resolved {after : Vi} {action? : Option Action} (free : m.focus.any Focus.isHeld = false)
      (resolves : Resolved { m with focus := none } stroke after action?) :
      Parsed m stroke after action?

theorem followed (m : Vi) (entry : Entry) :
    Followed m entry (m.follow entry).1 (m.follow entry).2 := by
  rw [follow]
  split
  · next htakes =>
    rw [← Focus.isSome_ofCommand?] at htakes
    obtain ⟨f, hf⟩ := Option.isSome_iff_exists.mp htakes
    have haction : Action.ofCommand entry.command .move 1 = .focus f := by
      rw [Action.ofCommand, hf]
    rw [haction]
    exact .focused hf
  · next htakes =>
    have hplain : Focus.ofCommand? entry.command = none := by
      rw [← Focus.isSome_ofCommand?] at htakes
      exact Option.not_isSome_iff_eq_none.mp htakes
    split
    · next hagain => exact .repeated hagain
    · next honce =>
      dsimp only
      split
      · next hbegins => exact .acted hplain rfl (.inl ⟨hbegins, rfl, rfl⟩) honce
      · next hbegins =>
        exact .acted hplain rfl (.inr ⟨Bool.eq_false_iff.mpr hbegins, rfl, rfl⟩) honce

theorem resolved (m : Vi) (stroke : Stroke) :
    Resolved m stroke (m.resolve stroke).1 (m.resolve stroke).2 := by
  rw [resolve]
  split
  · next digit hdigit => exact .counted hdigit
  · next huncounted =>
    split
    · next hreplace =>
      rw [replaceWith]
      dsimp only
      split
      · next hnone => exact .refused hreplace hnone
      · next c hsome => exact .replaced hreplace hsome
    · next hstatus =>
      rw [Keymap.get?, bind_get?_eq_entryOf]
      split
      · next entry hentry => exact .bound huncounted hstatus hentry (m.followed entry)
      · next hunbound =>
        rw [unbound]
        split
        · next hedit => exact .typed hedit hunbound
        · next hcommand => exact .lost huncounted hcommand hunbound

/-- **What a key makes of the dispatcher.** -/
theorem parsed (m : Vi) (stroke : Stroke) :
    Parsed m stroke (m.parse stroke).1 (m.parse stroke).2 := by
  cases hfree : m.focus.any Focus.isHeld with
  | false =>
    rw [parse_of_free hfree]
    exact .resolved hfree (resolved _ stroke)
  | true =>
    cases hfocus : m.focus with
    | none =>
      rw [hfocus] at hfree
      cases hfree
    | some f =>
      rw [hfocus, Option.any_some] at hfree
      rw [parse_of_held hfocus hfree]
      exact .routed hfocus hfree

end Parsing

end Vi

/-- The mode answers a key as its dispatcher does. -/
theorem Mode.parse_vi {m after : Vi} {stroke : Stroke} {action? : Option Action}
    (h : m.parse stroke = (after, action?)) :
    (Mode.vi m).parse stroke = (.vi after, action?) := by
  rw [Mode.parse, h]
  rfl

end PromptLine
