import PromptLine.Action.Search
import PromptLine.Proofs.History.Occurrences

/-!
# A search from its start to its end

A search is begun by its first application, and goes on as long as each application leaves it with
the focus.  Between two keys three things have to agree: the search itself, the history's search
cursor, and the line, which is not touched before the end.  `Showing` says how.

A key only picks the next step, and may extend the term.  What it leaves to be carried out is
`Ready`, the part of `Showing` that does not speak about the term and the last hit.
-/

namespace PromptLine

namespace Search

/-- The states of a search that is begun on a desk, each with what the last key was bound to and the
reaction to it.  A key that comes after the search has let go of the focus is not its own. -/
inductive Session (direction : Direction) (start : Desk) :
    Option Command → Search → Reaction → Prop
  | started (setting : Setting) :
      Session direction start none ((new direction).apply setting start).1
        ((new direction).apply setting start).2
  | typed {last : Option Command} {s : Search} {r : Reaction}
      (before : Session direction start last s r) (held : s.focused = true) (setting : Setting)
      (resolved : Option Command) (stroke : Stroke) :
      Session direction start resolved
        ((s.input resolved stroke).apply setting r.desk).1
        ((s.input resolved stroke).apply setting r.desk).2

/-! ## What holds between two keys -/

/-- A search about to carry out a step on a desk. -/
structure Ready (start : Desk) (s : Search) (d : Desk) : Prop where
  held : s.focused = true
  buffer : d.buffer = start.buffer
  kills : d.kills = start.kills
  entries : d.history.entries = start.history.entries
  before : s.before = start.buffer.text
  matched : s.matched = [] ∨ s.matched ∈ start.history.entries
  /-- Nothing is found by looking for nothing. -/
  blank : s.term = [] → s.matched = [] ∧ s.failed = false

/-- A search that goes on, with the reaction to its last step. -/
structure Showing (start : Desk) (s : Search) (r : Reaction) : Prop
    extends Ready start s r.desk where
  /-- The search cursor stands on what was found. -/
  hit : s.term ≠ [] → s.failed = false →
    r.desk.history.get? r.desk.history.searchCursor = some s.matched ∧ s.term <:+: s.matched
  /-- The cursor of the banner stands within it, and on the term if that was found. -/
  banner : ∃ banner, r.banner = some banner ∧ banner.cursor ≤ banner.text.length ∧
    (s.term ≠ [] → s.failed = false → s.term <+: banner.text.drop banner.cursor)
  unfinished : ∀ line, r.outcome ≠ .commit line

/-- A search that has let go of the focus, after a key with the given binding. -/
structure Ended (start : Desk) (last : Option Command) (s : Search) (r : Reaction) : Prop where
  released : s.focused = false
  line : r.desk.buffer.text =
    if last = some .interrupt then [] else if s.matched = [] then start.buffer.text else s.matched
  commit : ∀ line, r.outcome = .commit line → line = r.desk.buffer.text
  saved : r.desk.buffer.saved = start.buffer.saved
  kills : r.desk.kills = start.kills
  entries : r.desk.history.entries = start.history.entries

variable {setting : Setting} {start d : Desk} {s : Search} {r : Reaction}

/-! ## Keys -/

/-- A key picks a step that is not the first one, may turn the search around, and either leaves the
term alone or makes it longer.  Only the key that interrupts calls the search off. -/
theorem input_eq (s : Search) (resolved : Option Command) (stroke : Stroke) :
    ∃ step direction term,
      s.input resolved stroke = { s with step := step, direction := direction, term := term } ∧
        (term = s.term ∨ term ≠ []) ∧ step ≠ .start ∧
          (step = .abort ↔ resolved = some .interrupt) := by
  unfold Search.input
  split
  case h_10 hinterrupt _ _ _ _ =>
    have hresolved : resolved ≠ some .interrupt := hinterrupt
    split
    · next c _ =>
      refine ⟨s.stepOn, s.direction, s.term ++ [c], rfl, .inr ?_, ?_, ?_⟩
      · exact List.append_ne_nil_of_right_ne_nil s.term (List.cons_ne_nil c [])
      · rw [stepOn]
        split <;> exact SearchStep.noConfusion
      · refine ⟨fun h => ?_, fun h => absurd h hresolved⟩
        rw [stepOn] at h
        split at h <;> cases h
    · exact ⟨.leave, s.direction, s.term, rfl, .inl rfl, SearchStep.noConfusion,
        fun h => SearchStep.noConfusion h, fun h => absurd h hresolved⟩
  all_goals exact ⟨_, _, _, rfl, .inl rfl, by decide, by decide⟩

theorem Ready.input (h : Ready start s d) (resolved : Option Command) (stroke : Stroke) :
    Ready start (s.input resolved stroke) d := by
  obtain ⟨step, direction, term, heq, hterm, -, -⟩ := s.input_eq resolved stroke
  rw [heq]
  refine ⟨h.held, h.buffer, h.kills, h.entries, h.before, h.matched, fun hblank => ?_⟩
  rcases hterm with hsame | hne
  · exact h.blank (hsame.symm.trans hblank)
  · exact absurd hblank hne

/-! ## Steps after which the search goes on -/

/-- The banner of a search.  Its cursor is within the text, and what it shows from there on begins
with the term if the term occurs in what was found. -/
theorem cursor_ofSearch (direction : Direction) (failed : Bool) (term matched : Text) :
    let banner := Banner.ofSearch direction failed term matched
    banner.cursor ≤ banner.text.length ∧
      (term <:+: matched → term <+: banner.text.drop banner.cursor) := by
  have hlead : ∀ lead : Text,
      lead.length + (Text.find? term matched).getD 0 ≤ (lead ++ matched).length ∧
        (term <:+: matched →
          term <+: (lead ++ matched).drop (lead.length + (Text.find? term matched).getD 0)) := by
    intro lead
    refine ⟨?_, fun hinfix => ?_⟩
    · rw [List.length_append]
      exact Nat.add_le_add_left (Text.find?_getD_le term matched) _
    · obtain ⟨position, hposition⟩ :=
        Option.isSome_iff_exists.mp (Text.contains_iff_infix.mpr hinfix)
      rw [hposition, Option.getD_some, List.drop_length_add_append]
      exact Text.prefix_drop_of_find? hposition
  exact hlead _

/-- A search whose last hit is where the search cursor is can be shown. -/
theorem Ready.shown (h : Ready start s d) {outcome : Outcome}
    (hhit : s.term ≠ [] → s.failed = false →
      d.history.get? d.history.searchCursor = some s.matched ∧ s.term <:+: s.matched)
    (houtcome : ∀ line, outcome ≠ .commit line) :
    Showing start (s.shown d outcome).1 (s.shown d outcome).2 := by
  obtain ⟨hwithin, hterm⟩ := cursor_ofSearch s.direction s.failed s.term s.matched
  exact ⟨h, hhit, ⟨_, rfl, hwithin, fun hne hfound => hterm (hhit hne hfound).2⟩, houtcome⟩

/-- Looking for the term either finds an entry that contains it, or says that there is none. -/
theorem Ready.lookOn (h : Ready start s d) (setting : Setting) :
    Showing start (s.lookOn setting d).1 (s.lookOn setting d).2 := by
  have hentries : (d.history.setDirection s.direction).entries = start.history.entries := by
    rw [History.entries_setDirection, h.entries]
  rw [Search.lookOn, look]
  dsimp only
  split
  · next hnil =>
    have hready : Ready start { s with failed := false }
        { d with history := d.history.setDirection s.direction } :=
      ⟨h.held, h.buffer, h.kills, hentries, h.before, h.matched,
        fun hblank => ⟨(h.blank hblank).1, rfl⟩⟩
    exact hready.shown (fun hne => absurd hnil hne) (fun line => Outcome.noConfusion)
  · next hterm =>
    have hsearch := History.entries_search (d.history.setDirection s.direction) s.term
    split
    · next after line hfound =>
      rw [hfound] at hsearch
      have hready : Ready start { s with matched := line, failed := false }
          { d with history := after } :=
        ⟨h.held, h.buffer, h.kills, hsearch.trans hentries, h.before,
          .inr (hentries ▸ History.mem_entries_of_search hfound), fun hblank => absurd hblank hterm⟩
      exact hready.shown (fun _ _ => History.search_eq_some hfound)
        (fun line => Outcome.noConfusion)
    · next after hfound =>
      rw [hfound] at hsearch
      have hready : Ready start { s with failed := true } { d with history := after } :=
        ⟨h.held, h.buffer, h.kills, hsearch.trans hentries, h.before, h.matched,
          fun hblank => absurd hblank hterm⟩
      exact hready.shown (fun _ hfailed => Bool.noConfusion hfailed)
        (fun line => Outcome.noConfusion)

/-- The first application only notes the line. -/
theorem showing_started (setting : Setting) (direction : Direction) (start : Desk) :
    Showing start ((new direction).apply setting start).1
      ((new direction).apply setting start).2 := by
  have hready : Ready start { new direction with before := start.buffer.text }
      { start with history := (start.history.setDirection direction).restartSearch } :=
    ⟨rfl, rfl, rfl, History.entries_setDirection _ _, rfl, .inl rfl, fun _ => ⟨rfl, rfl⟩⟩
  exact hready.shown (fun hne => absurd rfl hne) (fun line => Outcome.noConfusion)

/-! ## Steps that end the search -/

/-- The line that a search leaves, apart from where its cursor goes. -/
theorem Ready.text_finish (h : Ready start s d) :
    (s.finish d).2.buffer.text = if s.matched = [] then start.buffer.text else s.matched := by
  rw [finish]
  dsimp only
  split
  · exact h.before
  · rfl

theorem Ready.saved_finish (h : Ready start s d) :
    (s.finish d).2.buffer.saved = start.buffer.saved := by
  rw [← h.buffer, finish]
  dsimp only
  split <;> rfl

/-- Leaving keeps what was found, whatever happens to the cursor then. -/
theorem Ready.finishWith (h : Ready start s d) {last : Option Command}
    (hlast : last ≠ some .interrupt) {f : LineBuffer → LineBuffer}
    (hf : ∀ b, (f b).text = b.text ∧ (f b).saved = b.saved) :
    Ended start last (s.finishWith d f).1 (s.finishWith d f).2 := by
  refine ⟨rfl, ?_, fun line hline => Outcome.noConfusion hline, (hf _).2.trans h.saved_finish,
    h.kills, h.entries⟩
  rw [if_neg hlast]
  exact (hf _).1.trans h.text_finish

/-- Finishing the line hands out just the line that is left. -/
theorem Ready.accept (h : Ready start s d) (setting : Setting) (hstep : s.step = .accept)
    {last : Option Command} (hlast : last ≠ some .interrupt) :
    Ended start last (s.apply setting d).1 (s.apply setting d).2 := by
  rw [Search.apply, hstep]
  refine ⟨rfl, ?_, fun line hline => (Outcome.commit.inj hline).symm, h.saved_finish, h.kills,
    h.entries⟩
  rw [if_neg hlast]
  exact h.text_finish

/-! ## Whole searches -/

/-- Carrying a step out leaves a search that goes on, or one that has ended. -/
theorem Ready.apply (h : Ready start s d) (setting : Setting) (hstep : s.step ≠ .start)
    {last : Option Command} (hlast : s.step = .abort ↔ last = some .interrupt) :
    Showing start (s.apply setting d).1 (s.apply setting d).2 ∨
      Ended start last (s.apply setting d).1 (s.apply setting d).2 := by
  have hleave : ∀ {step}, s.step = step → step ≠ .abort → last ≠ some .interrupt :=
    fun hs hne hinterrupt => hne (hs.symm.trans (hlast.mpr hinterrupt))
  rw [Search.apply]
  split
  · next hs => exact absurd hs hstep
  · exact .inl (h.lookOn setting)
  · exact .inl (h.lookOn setting)
  · left
    dsimp only
    split
    · next hnil =>
      have hready : Ready start
          { s with term := s.term.dropLast, matched := [], failed := false }
          { d with history := d.history.restartSearch } :=
        ⟨h.held, h.buffer, h.kills, h.entries, h.before, .inl rfl, fun _ => ⟨rfl, rfl⟩⟩
      exact hready.shown (fun hne => absurd hnil hne) (fun line h => Outcome.noConfusion h)
    · next hterm =>
      have hready : Ready start { s with term := s.term.dropLast } d :=
        ⟨h.held, h.buffer, h.kills, h.entries, h.before, h.matched,
          fun hblank => absurd hblank hterm⟩
      exact hready.lookOn setting
  · next hs =>
    have haccept := h.accept setting hs (hleave hs (by decide))
    rw [Search.apply, hs] at haccept
    exact .inr haccept
  · next hs => exact .inr (h.finishWith (hleave hs (by decide)) fun b => ⟨rfl, rfl⟩)
  · next hs => exact .inr (h.finishWith (hleave hs (by decide)) fun b => ⟨rfl, rfl⟩)
  · next hs => exact .inr (h.finishWith (hleave hs (by decide)) fun b => ⟨rfl, rfl⟩)
  · next hs => exact .inr (h.finishWith (hleave hs (by decide)) fun b => ⟨rfl, rfl⟩)
  · next hs => exact .inr (h.finishWith (hleave hs (by decide)) fun b => ⟨rfl, rfl⟩)
  · next hs =>
    refine .inr ⟨rfl, ?_, fun line hline => Outcome.noConfusion hline,
      (congrArg LineBuffer.saved h.buffer :), h.kills, h.entries⟩
    rw [if_pos (hlast.mp hs)]
    rfl

/-- **A search from its start to its end.**  As long as it has the focus, the line is not touched,
what was found is an entry at the search cursor that contains the term, and the cursor of the banner
is on the term.  At the end the line is what was found, or what it was before if nothing was; only
an interrupt empties it.  Nothing is deleted, copied or recorded on the way. -/
theorem session_showing_or_ended {direction : Direction} {last : Option Command}
    (h : Session direction start last s r) :
    (s.focused = true → Showing start s r) ∧ (s.focused = false → Ended start last s r) := by
  induction h with
  | started setting =>
    exact ⟨fun _ => showing_started setting direction start, fun hreleased => nomatch hreleased⟩
  | @typed last s r _ held setting resolved stroke ih =>
    have hready := (ih.1 held).toReady.input resolved stroke
    obtain ⟨step, _, _, heq, -, hstart, habort⟩ := s.input_eq resolved stroke
    have hstep : (s.input resolved stroke).step = step := by rw [heq]
    rcases hready.apply setting (hstep ▸ hstart) (hstep ▸ habort) with hshowing | hended
    · exact ⟨fun _ => hshowing, fun hreleased => absurd hshowing.held (by rw [hreleased]; decide)⟩
    · exact ⟨fun hheld => absurd hended.released (by rw [hheld]; decide), fun _ => hended⟩

/-- A term that is found and then misses: the key that finishes the line hands out what was found
before. -/
theorem session_commits_after_miss :
    let start : Desk :=
      ⟨.empty false, .empty 10, { History.empty 10 with entries := [['a', 'b'], ['c']] }⟩
    ∃ s r, Session .reverse start (some .acceptLine) s r ∧ s.focused = false ∧
      s.failed = true ∧ r.outcome = .commit ['a', 'b'] ∧ Ended start (some .acceptLine) s r := by
  intro start
  let setting : Setting := ⟨.default, false⟩
  have hstarted : Session .reverse start none _ _ := .started setting
  have hfound := hstarted.typed (by decide) setting none (.ofChar 'b')
  have hmissed := hfound.typed (by decide) setting none (.ofChar 'z')
  have haccepted := hmissed.typed (by decide) setting (some .acceptLine) (.ofKey .enter)
  exact ⟨_, _, haccepted, by decide, by decide, by decide,
    (session_showing_or_ended haccepted).2 (by decide)⟩

end Search

end PromptLine
