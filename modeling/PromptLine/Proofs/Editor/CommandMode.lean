import PromptLine.Proofs.Action.CommandCursor
import PromptLine.Proofs.Editor.Keystrokes
import PromptLine.Proofs.Mode.ViKeys

/-!
# The cursor in command mode

Outside of text entry the cursor is meant to stand on a character.  `Poised` is the invariant that
this needs: besides the cursor it speaks about the two things that a key can bring back from earlier
on, the last change and an action that waits for a key.  A keystroke keeps it, unless it is the key
by which a search leaves a line with the cursor at its end.  So a cursor that is out of place has
exactly one cause, and `onCharacter_prefixes_iff` traces it back to that key.
-/

namespace PromptLine

namespace Mode

/-! ## What begins command mode, and what ends it -/

/-- An action that is given back has no say in it. -/
@[simp] theorem isCommandMode_takeBack (m : Mode) (action : Action) :
    (m.takeBack action).isCommandMode = m.isCommandMode := by
  cases m <;> rfl

/-- Each line begins with typing text. -/
@[simp] theorem isCommandMode_reset (m : Mode) : m.reset.isCommandMode = false := by
  cases m <;> rfl

end Mode

namespace Vi

/-! ## The usual entries -/

/-- What the usual entries have to do with the cursor.  An entry by which command mode goes on, or
begins, is not for typing text; nothing that is remembered is; and only where text is typed the next
key can be quoted. -/
structure OrderlyEntry (entry : Entry) : Prop where
  goesOn : entry.next ≠ .edit → entry.command.isForTyping = false
  begins : entry.next ≠ .edit → entry.required = .edit → entry.command = .viCommandMode
  remembered : entry.recording ≠ .never → entry.command.isForTyping = false
  quoting : entry.command = .quotedInsert → entry.required = .edit

set_option maxRecDepth 2000 in
theorem orderly_of_entryOf {status : Status} {sequence : Text} {entry : Entry}
    (h : entryOf defaults status sequence = some entry) : OrderlyEntry entry := by
  have hall := forall_entries_defaults
    (P := fun _ entry => (entry.next ≠ .edit → entry.command.isForTyping = false) ∧
      (entry.next ≠ .edit → entry.required = .edit → entry.command = .viCommandMode) ∧
        (entry.recording ≠ .never → entry.command.isForTyping = false) ∧
          (entry.command = .quotedInsert → entry.required = .edit))
    (by decide)
  obtain ⟨-, bound, entries, hbound, -, hentry⟩ := exists_of_entryOf h
  obtain ⟨hgoes, hbegins, hremembered, hquoting⟩ := hall (bound, entries) hbound entry hentry
  exact ⟨hgoes, hbegins, hremembered, hquoting⟩

/-! ## The dispatcher between two keys -/

/-- What a dispatcher can bring back does not harm the cursor: the last change is an action for
command mode, and the key that follows is quoted only while text is typed. -/
structure Poised (m : Vi) : Prop where
  table : m.table = .ofBindings defaults
  lastChange : ∀ action, m.lastChange = some action → action.ForCommand
  quoted : ∀ q, m.focus = some (.quoted q) → m.status = .edit

/-- An action after which the dispatcher is in command mode either begins it, or goes on with it. -/
inductive Suits (m : Vi) : Action → Prop
  | begins (count : Nat) : Suits m (.plain .viCommandMode count)
  | goesOn {action : Action} (before : m.isCommandMode = true) (suits : action.ForCommand) :
      Suits m action
  | searches (before : m.isCommandMode = true) (direction : Direction) :
      Suits m (.focus (.search (.new direction)))

theorem command_of_quoted {command : Command} {q : QuotedInsert}
    (h : Focus.ofCommand? command = some (.quoted q)) : command = .quotedInsert := by
  cases command <;> cases h
  rfl

theorem eq_new_of_search {command : Command} {s : Search}
    (h : Focus.ofCommand? command = some (.search s)) : ∃ direction, s = .new direction := by
  cases command <;> cases h
  · exact ⟨.reverse, rfl⟩
  · exact ⟨.forward, rfl⟩

/-- Taking the focus away leaves a dispatcher poised. -/
theorem Poised.released {m : Vi} (h : m.Poised) : Poised { m with focus := none } :=
  ⟨h.table, h.lastChange, fun _ hq => nomatch hq⟩

theorem isCommandMode_iff {m : Vi} : m.isCommandMode = true ↔ m.status ≠ .edit := by
  rw [isCommandMode, bne_iff_ne]

/-- What a key leaves of a dispatcher, and the action that it leads to. -/
structure Answer (m after : Vi) (action? : Option Action) : Prop where
  poised : after.Poised
  suits : after.isCommandMode = true → ∀ action, action? = some action → m.Suits action
  idle : action? = none → after.isCommandMode = m.isCommandMode
  quoting : ∀ q, action? = some (.focus (.quoted q)) → after.status = .edit

variable {m after : Vi} {stroke : Stroke} {action? : Option Action}

/-- A key that leads to no action. -/
theorem Poised.answer_none (h : after.Poised) (hmode : after.isCommandMode = m.isCommandMode) :
    Answer m after none :=
  ⟨h, fun _ action haction => absurd haction (Option.some_ne_none action).symm, fun _ => hmode,
    fun _ hquoted => absurd hquoted (Option.some_ne_none _).symm⟩

/-- A key that leads to an action. -/
theorem Poised.answer_some (h : after.Poised) {action : Action}
    (hsuits : after.isCommandMode = true → m.Suits action)
    (hquoting : ∀ q, action = .focus (.quoted q) → after.status = .edit) :
    Answer m after (some action) :=
  ⟨h, fun hafter _ haction => Option.some.inj haction ▸ hsuits hafter,
    fun hnone => absurd hnone (Option.some_ne_none action),
    fun q hq => hquoting q (Option.some.inj hq)⟩

theorem Poised.followed (h : m.Poised) (hfocus : m.focus = none) {entry : Entry}
    (hentry : entryOf m.table.bindings m.status stroke.sequence = some entry)
    (hfollows : Followed m entry after action?) : Answer m after action? := by
  have hrequired := (exists_of_entryOf hentry).1
  rw [h.table] at hentry
  have horderly := orderly_of_entryOf hentry
  cases hfollows with
  | @focused f begins =>
    cases f with
    | search s =>
      obtain ⟨direction, rfl⟩ := eq_new_of_search begins
      refine answer_some ?_ (fun (hafter : m.isCommandMode = true) => .searches hafter direction)
        fun q hq => nomatch hq
      refine ⟨h.table, h.lastChange, fun q hq => ?_⟩
      cases hq
    | quoted q =>
      have hedit := hrequired.symm.trans (horderly.quoting (command_of_quoted begins))
      refine answer_some ?_ (fun hafter => absurd hedit (isCommandMode_iff.mp hafter))
        fun _ _ => hedit
      exact ⟨h.table, h.lastChange, fun _ _ => hedit⟩
  | repeated again =>
    have hpoised : m.forgetCounts.Poised := ⟨h.table, h.lastChange, h.quoted⟩
    cases hlast : m.lastChange with
    | none => exact answer_none hpoised rfl
    | some action =>
      have haction := h.lastChange action hlast
      refine answer_some hpoised (fun hafter => .goesOn hafter haction) ?_
      rintro q rfl
      cases haction
  | @acted counted action count plain makes counts =>
    have hcounted : counted.table = m.table ∧ counted.focus = m.focus := by
      rcases counts with ⟨-, -, rfl⟩ | ⟨-, -, rfl⟩ <;> exact ⟨rfl, rfl⟩
    refine answer_some ?_ ?_ ?_
    · refine ⟨hcounted.1.trans h.table, fun other hother => ?_, fun q hq => ?_⟩
      · dsimp only at hother
        split at hother
        · next hrecorded =>
          cases hother
          have hremembered : entry.recording ≠ .never := by
            intro hnever
            rw [Entry.isRecorded, hnever] at hrecorded
            cases hrecorded
          rw [makes]
          exact Action.forCommand_ofCommand (horderly.remembered hremembered) plain _ _
        · exact h.lastChange other hother
      · cases (hcounted.2.trans hfocus).symm.trans hq
    · intro hafter
      have hnext : entry.next ≠ .edit := isCommandMode_iff.mp hafter
      rw [makes]
      by_cases hedit : m.status = .edit
      · rw [horderly.begins hnext (hrequired.trans hedit)]
        exact .begins _
      · exact .goesOn (isCommandMode_iff.mpr hedit)
          (Action.forCommand_ofCommand (horderly.goesOn hnext) plain _ _)
    · intro q hq
      exact absurd (makes.symm.trans hq) (Action.ofCommand_ne_focus plain _ _ _)

theorem Poised.resolved (h : m.Poised) (hfocus : m.focus = none)
    (hresolved : Resolved m stroke after action?) : Answer m after action? := by
  have hunquoted : ∀ q, m.focus = some (.quoted q) → ∀ status : Status, status = .edit := by
    intro q hq
    rw [hfocus] at hq
    cases hq
  cases hresolved with
  | counted digit? => exact answer_none ⟨h.table, h.lastChange, h.quoted⟩ rfl
  | @replaced c status printable =>
    refine answer_some ?_ (fun _ => .goesOn ?_ trivial) fun q hq => nomatch hq
    · refine ⟨h.table, fun other hother => ?_, fun q hq => hunquoted q hq _⟩
      cases hother
      trivial
    · rw [isCommandMode, status]
      rfl
  | refused status unprintable =>
    refine answer_none ⟨h.table, h.lastChange, fun q hq => hunquoted q hq _⟩ ?_
    rw [isCommandMode, isCommandMode, status]
    rfl
  | bound uncounted status found follows => exact h.followed hfocus found follows
  | typed status unbound =>
    refine ⟨h, fun hafter => ?_, fun _ => rfl, fun _ _ => status⟩
    exact absurd status (isCommandMode_iff.mp hafter)
  | lost uncounted status unbound => exact answer_none ⟨h.table, h.lastChange, h.quoted⟩ rfl

end Vi

namespace Editor

/-! ## The editor between two keys -/

/-- In command mode the cursor stands on a character. -/
def OnCharacter (e : Editor) : Prop := e.mode.isCommandMode = true → e.desk.buffer.OnCharacter

/-- An editor whose next key finds the cursor where it has to be, and nothing that would take it
away from there but a search. -/
structure Poised (e : Editor) : Prop where
  mode : ∃ m : Vi, e.mode = .vi m ∧ m.Poised
  sound : e.desk.buffer.Sound
  onCharacter : e.OnCharacter

/-- The key leaves a search that was begun in command mode, and with it a line that is not empty
with the cursor behind its last character. -/
def Strands (e : Editor) (stroke : Stroke) : Prop :=
  ∃ (m : Vi) (s : Search), e.mode = .vi m ∧ m.isCommandMode = true ∧ m.focus = some (.search s) ∧
    s.focused = true ∧ (s.input (m.textCommand? stroke) stroke).Strands

variable {e : Editor} {stroke : Stroke}

/-- What a key leaves behind if an action in focus gets it. -/
theorem strands_iff_of_held {m : Vi} (hmode : e.mode = .vi m) {f : Focus}
    (hfocus : m.focus = some f) (hheld : f.isHeld = true) :
    e.Strands stroke ↔ m.isCommandMode = true ∧ ∃ s, f = .search s ∧
      (s.input (m.textCommand? stroke) stroke).Strands := by
  constructor
  · rintro ⟨other, s, hother, hcommand, hsearch, -, hstrands⟩
    cases hmode.symm.trans hother
    cases hfocus.symm.trans hsearch
    exact ⟨hcommand, s, rfl, hstrands⟩
  · rintro ⟨hcommand, s, rfl, hstrands⟩
    exact ⟨m, s, hmode, hcommand, hfocus, hheld, hstrands⟩

theorem not_strands_of_free {m : Vi} (hmode : e.mode = .vi m)
    (hfree : m.focus.any Focus.isHeld = false) : ¬e.Strands stroke := by
  rintro ⟨other, s, hother, -, hsearch, hheld, -⟩
  cases hmode.symm.trans hother
  rw [hsearch, Option.any_some] at hfree
  exact absurd hheld (Bool.eq_false_iff.mp hfree)

/-- **No key takes the cursor out of the line.** -/
theorem sound_press (h : e.desk.buffer.Sound) (stroke : Stroke) :
    (e.press stroke).desk.buffer.Sound := by
  rcases hparse : e.mode.parse stroke with ⟨mode, action?⟩
  have hpressed := pressed hparse
  generalize (e.press stroke).mode = after, (e.press stroke).desk = desk at hpressed ⊢
  cases hpressed with
  | idle => exact h
  | @goesOn action _ _ applied =>
    have happlied := Action.sound_apply h ⟨e.config, mode.isCommandMode⟩ action
    rwa [applied] at happlied
  | @ends action _ _ _ applied =>
    have happlied := Action.sound_apply h ⟨e.config, mode.isCommandMode⟩ action
    rw [applied] at happlied
    exact happlied.replace []

/-- What a key makes of the mode is poised if the dispatcher is, as long as the key that follows is
quoted only while text is typed. -/
theorem poised_mode_press {after : Vi} {action? : Option Action}
    (hparse : e.mode.parse stroke = (.vi after, action?)) (hafter : after.Poised)
    (hquoting : ∀ q, action? = some (.focus (.quoted q)) → after.status = .edit) :
    ∃ m, (e.press stroke).mode = .vi m ∧ m.Poised := by
  have hpressed := pressed hparse
  have htakeBack : ∀ {action applied : Action} {setting : Setting} {reaction : Reaction},
      action? = some action → action.apply setting e.desk = (applied, reaction) →
        Vi.Poised { after with focus := applied.focusAfter after.focus } := by
    intro action applied setting reaction haction happly
    refine ⟨hafter.table, hafter.lastChange, fun q hq => ?_⟩
    cases action with
    | focus f =>
      cases f with
      | quoted q => exact hquoting q haction
      | search s =>
        cases happly
        cases hq
    | _ =>
      cases happly
      exact hafter.quoted q hq
  generalize (e.press stroke).mode = mode, (e.press stroke).desk = desk at hpressed ⊢
  cases hpressed with
  | idle => exact ⟨after, rfl, hafter⟩
  | goesOn applied => exact ⟨_, rfl, htakeBack rfl applied⟩
  | ends => exact ⟨_, rfl, hafter.table, hafter.lastChange, fun q hq => nomatch hq⟩

/-- Carrying an action out does not begin command mode. -/
theorem isCommandMode_of_press {mode : Mode} {action? : Option Action}
    (hparse : e.mode.parse stroke = (mode, action?))
    (h : (e.press stroke).mode.isCommandMode = true) : mode.isCommandMode = true := by
  have hpressed := pressed hparse
  generalize (e.press stroke).mode = after, (e.press stroke).desk = desk at hpressed h
  cases hpressed with
  | idle => exact h
  | goesOn => rwa [Mode.isCommandMode_takeBack] at h
  | ends =>
    rw [Mode.isCommandMode_reset] at h
    exact absurd h Bool.false_ne_true

/-- A key that no action in focus gets leaves the cursor on a character. -/
theorem Poised.onCharacter_press_of_answer (h : e.Poised) {m after : Vi} {action? : Option Action}
    (hbefore : e.mode.isCommandMode = m.isCommandMode)
    (hparse : e.mode.parse stroke = (.vi after, action?)) (hanswer : m.Answer after action?) :
    (e.press stroke).OnCharacter := by
  have hpressed := pressed hparse
  rw [OnCharacter]
  generalize (e.press stroke).mode = mode, (e.press stroke).desk = desk at hpressed ⊢
  cases hpressed with
  | idle =>
    intro hmode
    exact h.onCharacter (hbefore.trans ((hanswer.idle rfl).symm.trans hmode))
  | @goesOn action _ reaction happly =>
    intro hmode
    rw [Mode.isCommandMode_takeBack] at hmode
    have hsuits := hanswer.suits hmode action rfl
    have hdesk : reaction.desk =
        (action.apply ⟨e.config, (Mode.vi after).isCommandMode⟩ e.desk).2.desk := by rw [happly]
    rw [hdesk]
    cases hsuits with
    | begins count => exact LineBuffer.onCharacter_move_back h.sound.cursor
    | goesOn before suits =>
      exact Action.onCharacter_apply hmode h.sound (h.onCharacter (hbefore.trans before)) suits
    | searches before direction => exact h.onCharacter (hbefore.trans before)
  | ends =>
    intro hmode
    rw [Mode.isCommandMode_reset] at hmode
    exact absurd hmode Bool.false_ne_true

/-- A key that a search in focus gets leaves the cursor on a character, unless it strands it. -/
theorem Poised.onCharacter_press_of_search (h : e.Poised) {m : Vi} (hmode : e.mode = .vi m)
    {s : Search} (hfocus : m.focus = some (.search s)) (hheld : s.focused = true)
    (hcommand : m.isCommandMode = true) :
    (e.press stroke).OnCharacter ↔ ¬(s.input (m.textCommand? stroke) stroke).Strands := by
  generalize hinput : s.input (m.textCommand? stroke) stroke = next
  have hparse : e.mode.parse stroke =
      (.vi { m with focus := some (.search next) }, some (.focus (.search next))) := by
    rw [hmode, ← hinput]
    exact Mode.parse_vi (Vi.parse_of_held hfocus hheld stroke)
  have hon : e.desk.buffer.OnCharacter := by
    refine h.onCharacter ?_
    rw [hmode]
    exact hcommand
  have hpressed := pressed hparse
  rw [OnCharacter]
  generalize (e.press stroke).mode = mode, (e.press stroke).desk = desk at hpressed ⊢
  cases hpressed with
  | goesOn happly unfinished =>
    cases happly
    have hstep := (Search.event?_apply_eq_none_iff _ next e.desk).mp unfinished
    have hleaves := Search.onCharacter_apply_iff h.sound hon ⟨e.config, m.isCommandMode⟩ hstep
    exact ⟨fun hafter => hleaves.mp (hafter hcommand), fun hnot _ => hleaves.mpr hnot⟩
  | ends happly finished =>
    cases happly
    have hstep : next.step = .accept := by
      by_contra hne
      have hnone :=
        (Search.event?_apply_eq_none_iff ⟨e.config, m.isCommandMode⟩ next e.desk).mpr hne
      exact absurd (hnone.symm.trans finished) (Option.some_ne_none _).symm
    refine iff_of_true (fun hafter => ?_) ?_
    · rw [Mode.isCommandMode_reset] at hafter
      exact absurd hafter Bool.false_ne_true
    · rw [Search.Strands, hstep]
      exact not_false

theorem Poised.mode_press (h : e.Poised) (stroke : Stroke) :
    ∃ m, (e.press stroke).mode = .vi m ∧ m.Poised := by
  obtain ⟨m, hmode, hm⟩ := h.mode
  have hparse : e.mode.parse stroke = (.vi (m.parse stroke).1, (m.parse stroke).2) := by
    rw [hmode]
    exact Mode.parse_vi rfl
  have hparsed := m.parsed stroke
  generalize m.parse stroke = parsed at hparse hparsed
  obtain ⟨after, action?⟩ := parsed
  cases hparsed with
  | resolved free resolves =>
    have hanswer := hm.released.resolved rfl resolves
    exact poised_mode_press hparse hanswer.poised hanswer.quoting
  | @routed f hfocus hheld =>
    have hquoting : ∀ q, f.input (m.textCommand? stroke) stroke = .quoted q →
        m.status = .edit := by
      intro q hq
      cases f with
      | quoted other => exact hm.quoted other hfocus
      | search s => cases hq
    exact poised_mode_press hparse
      ⟨hm.table, hm.lastChange, fun q hq => hquoting q (Option.some.inj hq)⟩
      fun q hq => hquoting q (Action.focus.inj (Option.some.inj hq))

/-- **A key leaves the cursor on a character, unless it strands it.** -/
theorem Poised.onCharacter_press_iff (h : e.Poised) (stroke : Stroke) :
    (e.press stroke).OnCharacter ↔ ¬e.Strands stroke := by
  obtain ⟨m, hmode, hm⟩ := h.mode
  have hparse : e.mode.parse stroke = (.vi (m.parse stroke).1, (m.parse stroke).2) := by
    rw [hmode]
    exact Mode.parse_vi rfl
  have hparsed := m.parsed stroke
  generalize m.parse stroke = parsed at hparse hparsed
  obtain ⟨after, action?⟩ := parsed
  cases hparsed with
  | resolved free resolves =>
    have hbefore : e.mode.isCommandMode = Vi.isCommandMode { m with focus := none } := by
      rw [hmode]
      rfl
    exact iff_of_true
      (h.onCharacter_press_of_answer hbefore hparse (hm.released.resolved rfl resolves))
      (not_strands_of_free hmode free)
  | @routed f hfocus hheld =>
    rw [strands_iff_of_held hmode hfocus hheld]
    by_cases hcommand : m.isCommandMode = true
    · cases f with
      | quoted q => exact absurd (hm.quoted q hfocus) (Vi.isCommandMode_iff.mp hcommand)
      | search s =>
        rw [h.onCharacter_press_of_search hmode hfocus hheld hcommand]
        refine not_congr ⟨fun hstrands => ⟨hcommand, s, rfl, hstrands⟩, ?_⟩
        rintro ⟨-, other, hother, hstrands⟩
        cases hother
        exact hstrands
    · refine iff_of_true (fun hpressed => ?_) fun hstrands => hcommand hstrands.1
      exact absurd (isCommandMode_of_press hparse hpressed) hcommand

/-! ## Whole runs -/

/-- An editor stays poised as long as each key leaves the cursor on a character. -/
theorem Poised.foldl_press (h : e.Poised) {strokes : List Stroke}
    (hstep : ∀ typed stroke, typed ++ [stroke] <+: strokes → (typed.foldl press e).Poised →
      ((typed.foldl press e).press stroke).OnCharacter) :
    ∀ typed, typed <+: strokes → (typed.foldl press e).Poised := by
  intro typed
  induction typed using List.reverseRecOn with
  | nil => exact fun _ => h
  | append_singleton typed stroke ih =>
    intro hprefix
    have hbefore := ih ((List.prefix_append typed [stroke]).trans hprefix)
    rw [List.foldl_append]
    exact ⟨hbefore.mode_press stroke, sound_press hbefore.sound stroke,
      hstep typed stroke hprefix hbefore⟩

theorem poised_of_start {e : Editor} (hmode : e.mode = .start .vi .ansi)
    (hsound : e.desk.buffer.Sound) : e.Poised := by
  rw [Mode.start_vi_ansi] at hmode
  refine ⟨⟨_, hmode, rfl, fun _ haction => (nomatch haction), fun _ _ => rfl⟩, hsound, ?_⟩
  intro hcommand
  rw [hmode] at hcommand
  exact absurd (show false = true from hcommand) Bool.false_ne_true

/-- **The cursor is out of place only where a search stranded it.**  With the usual keys of the
modal dispatcher, the cursor stands on a character in command mode after every key that is typed,
exactly if no key strands it. -/
theorem onCharacter_prefixes_iff {e : Editor} (hmode : e.mode = .start .vi .ansi)
    (hsound : e.desk.buffer.Sound) (strokes : List Stroke) :
    (∀ typed, typed <+: strokes → (typed.foldl press e).OnCharacter) ↔
      ∀ typed stroke, typed ++ [stroke] <+: strokes → ¬(typed.foldl press e).Strands stroke := by
  have hstart := poised_of_start hmode hsound
  constructor
  · intro hon typed stroke hprefix
    have hafter : ∀ typed stroke, typed ++ [stroke] <+: strokes →
        ((typed.foldl press e).press stroke).OnCharacter := by
      intro typed stroke hprefix
      have hon := hon (typed ++ [stroke]) hprefix
      rwa [List.foldl_append] at hon
    have hpoised := hstart.foldl_press (fun typed stroke hprefix _ => hafter typed stroke hprefix)
      typed ((List.prefix_append typed [stroke]).trans hprefix)
    exact (hpoised.onCharacter_press_iff stroke).mp (hafter typed stroke hprefix)
  · intro hnot typed hprefix
    have hpoised := hstart.foldl_press (fun typed stroke hprefix hbefore =>
      (hbefore.onCharacter_press_iff stroke).mpr (hnot typed stroke hprefix)) typed hprefix
    exact hpoised.onCharacter

/-- A search that is left before anything was found strands the cursor: this is one of the keys
`abc`, escape, `/` and escape again. -/
theorem exists_strands_of_search :
    let e := new { Config.default with editingMode := .vi } (.reliable .utf8)
    let strokes := [Stroke.ofChar 'a', .ofChar 'b', .ofChar 'c', .ofKey .escape, .ofChar '/',
      .ofKey .escape]
    ∃ typed stroke, typed ++ [stroke] <+: strokes ∧ (typed.foldl press e).Strands stroke := by
  intro e strokes
  by_contra hnone
  have hon := (onCharacter_prefixes_iff (e := e) rfl (LineBuffer.sound_empty false) strokes).mpr
    fun typed stroke hprefix hstrands => hnone ⟨typed, stroke, hprefix, hstrands⟩
  have hafter : (strokes.foldl press e).mode.isCommandMode = true ∧
      (strokes.foldl press e).desk.buffer.text ≠ [] ∧
        ¬(strokes.foldl press e).desk.buffer.cursor <
          (strokes.foldl press e).desk.buffer.length := by
    decide +kernel
  exact hafter.2.2 (hon strokes (List.prefix_refl _) hafter.1 hafter.2.1)

/-- Written as `abc`, escape, `/` and escape, they leave the editor in command mode with the cursor
behind the line. -/
theorem write_search_strands_cursor :
    let e := ((new { Config.default with editingMode := .vi } (.reliable .utf8)).write
      [0x61, 0x62, 0x63, 0x1B, 0x2F, 0x1B]).1
    e.mode.isCommandMode = true ∧ e.desk.buffer.text = ['a', 'b', 'c'] ∧
      e.desk.buffer.cursor = 3 := by
  decide +kernel

end Editor

end PromptLine
