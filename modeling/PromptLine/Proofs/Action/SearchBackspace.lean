import PromptLine.Proofs.Action.SearchSession
import PromptLine.Proofs.History.Hits

/-!
# Going back on a search term

Each key of a search makes the history look for the term, and the history remembers the term that it
found last.  Asked for that term again it goes on to the next entry that holds it; asked for another
one it first tries the entry on which it stands.

A key that takes the last character off the term asks again as well.  If the longer term was found,
the shorter one is another term, and the search stays where it is.  But a longer term that was *not*
found is not remembered.  The history takes the shorter term for the one that it was asked for last,
and goes on: away from the entry that was shown, although that entry holds the term.

So the key keeps the entry exactly if the shorter term was not the last one that was found.
`FoundLast` tells this by the keys alone, and `lastTerm_eq_some_iff` says that it is what the
history remembers.
-/

namespace PromptLine

namespace History

variable {h : History} {term line : Text}

/-! ## Where a search of the history comes to -/

/-- Where a search goes on to from the search cursor: the nearest entry behind it that holds the
term, or nowhere if there is none. -/
def GoesOn (h : History) (term : Text) : Option Nat → Prop
  | some index =>
    h.direction.Before h.searchCursor index ∧ h.holds term index = true ∧
      ∀ other, h.direction.Before h.searchCursor other → h.direction.Before other index →
        h.holds term other = false
  | none => ∀ other, h.direction.Before h.searchCursor other → h.holds term other = false

/-- **Asked again for the term that it found last**, a history goes on. -/
theorem goesOn_of_again (hterm : h.lastTerm = some term) :
    h.GoesOn term ((h.candidates term).find? (h.holds term)) := by
  rw [find?_candidates]
  cases hahead : h.ahead term with
  | nil =>
    intro other hbehind
    by_contra hholds
    have hmem := (mem_ahead_of_again hterm).mpr ⟨hbehind, Bool.eq_true_of_not_eq_false hholds⟩
    rw [hahead] at hmem
    cases hmem
  | cons index rest =>
    obtain ⟨hbehind, hholds⟩ := (mem_ahead_of_again hterm).mp (hahead ▸ List.mem_cons_self)
    refine ⟨hbehind, hholds, fun other hother hbefore => ?_⟩
    by_contra hfound
    have hmem := (mem_ahead_of_again hterm).mpr ⟨hother, Bool.eq_true_of_not_eq_false hfound⟩
    exact not_before_of_ahead hahead hmem hbefore

/-- **Asked for another term**, a history stays where it is if the entry there holds the term. -/
theorem search_of_held (hterm : h.lastTerm ≠ some term)
    (hline : h.get? h.searchCursor = some line) (hoccurs : term <:+: line) :
    h.search term = ({ h with lastTerm := some term }, some line) := by
  have hholds : h.holds term h.searchCursor = true := holds_iff.mpr ⟨line, hline, hoccurs⟩
  have hmem := (mem_ahead_of_other hterm).mpr ⟨.inl rfl, hholds⟩
  cases hahead : h.ahead term with
  | nil => rw [hahead] at hmem; cases hmem
  | cons index rest =>
    obtain ⟨honward, -⟩ := (mem_ahead_of_other hterm).mp (hahead ▸ List.mem_cons_self)
    obtain rfl : h.searchCursor = index :=
      honward.resolve_right (not_before_of_ahead hahead hmem)
    rw [search_of_ahead_cons hahead, hline]

theorem setDirection_self (h : History) : h.setDirection h.direction = h := if_pos rfl

@[simp] theorem direction_setDirection (h : History) (direction : Direction) :
    (h.setDirection direction).direction = direction := by
  rw [setDirection]
  split
  · assumption
  · rfl

/-- Turning around forgets the term. -/
theorem lastTerm_setDirection (h : History) {direction : Direction}
    (hturn : h.direction ≠ direction) :
    (h.setDirection direction).lastTerm = none := by
  rw [setDirection, if_neg hturn]
  rfl

end History

namespace Search

variable {setting : Setting} {start d : Desk} {s : Search} {r : Reaction} {direction : Direction}
  {last : Option Command}

/-! ## What the history remembers of a search -/

/-- What a search and its history agree on between two keys. -/
structure Agrees (s : Search) (h : History) : Prop where
  direction : h.direction = s.direction
  found : s.term ≠ [] → s.failed = false → h.lastTerm = some s.term
  blank : s.term = [] → h.lastTerm = none

/-- Looking for a term that is not empty, spelled out. -/
theorem lookOn_of_ne_nil (setting : Setting) (hterm : s.term ≠ []) (d : Desk) :
    s.lookOn setting d =
      match (d.history.setDirection s.direction).search s.term with
      | (h, some line) =>
        shown { s with matched := line, failed := false } { d with history := h } .proceed
      | (h, none) => shown { s with failed := true } { d with history := h } setting.bell := by
  rw [lookOn, look]
  dsimp only
  rw [if_neg hterm]
  rcases (d.history.setDirection s.direction).search s.term with ⟨h, _ | line⟩ <;> rfl

theorem lookOn_of_nil (setting : Setting) (hterm : s.term = []) (d : Desk) :
    s.lookOn setting d =
      shown { s with failed := false }
        { d with history := d.history.setDirection s.direction } .proceed := by
  rw [lookOn, look]
  dsimp only
  rw [if_pos hterm]

/-- After it has looked, a search and its history agree. -/
theorem agrees_lookOn (setting : Setting) (s : Search) (d : Desk)
    (hblank : s.term = [] → d.history.lastTerm = none) :
    Agrees (s.lookOn setting d).1 (s.lookOn setting d).2.desk.history := by
  by_cases hterm : s.term = []
  · rw [lookOn_of_nil setting hterm]
    refine ⟨History.direction_setDirection _ _, fun hne => absurd hterm hne, fun _ => ?_⟩
    show (d.history.setDirection s.direction).lastTerm = none
    by_cases hturn : d.history.direction = s.direction
    · rw [← hturn, History.setDirection_self]
      exact hblank hterm
    · exact d.history.lastTerm_setDirection hturn
  · have hdirection := (d.history.setDirection s.direction).direction_search s.term
    have hlast : ∀ {after line}, (d.history.setDirection s.direction).search s.term =
        (after, some line) → after.lastTerm = some s.term := by
      intro after line hsearch
      rw [History.search_eq] at hsearch
      split at hsearch
      · cases hsearch
      · cases (Prod.mk.inj hsearch).1
        rfl
    rw [lookOn_of_ne_nil setting hterm]
    rcases hsearch : (d.history.setDirection s.direction).search s.term with ⟨after, _ | line⟩
    · rw [hsearch] at hdirection
      exact ⟨hdirection.trans (History.direction_setDirection _ _), nofun,
        fun hnil => absurd hnil hterm⟩
    · rw [hsearch] at hdirection
      exact ⟨hdirection.trans (History.direction_setDirection _ _), fun _ _ => hlast hsearch,
        fun hnil => absurd hnil hterm⟩

/-- The key that takes a character off the term does nothing else. -/
theorem input_of_shorten {resolved : Option Command} {stroke : Stroke}
    (hstep : (s.input resolved stroke).step = .shorten) :
    s.input resolved stroke = { s with step := .shorten } := by
  revert hstep
  unfold input
  split
  case h_3 => exact fun _ => rfl
  case h_10 =>
    split
    · rw [stepOn]
      split <;> exact fun hstep => by cases hstep
    · exact fun hstep => by cases hstep
  all_goals exact fun hstep => by cases hstep

/-- **A key after which the search goes on** makes it look for its term, or takes the last character
off it. -/
theorem apply_input_of_held {resolved : Option Command} {stroke : Stroke}
    (hheld : ((s.input resolved stroke).apply setting d).1.focused = true) :
    (∃ sought : Search, (s.input resolved stroke).apply setting d = sought.lookOn setting d ∧
        (sought.term = [] → s.term = [])) ∨
      (s.input resolved stroke).apply setting d =
        shown { s with step := .shorten, term := [], matched := [], failed := false }
          { d with history := d.history.restartSearch } .proceed := by
  obtain ⟨step, _, term, heq, hterm, hstart, -⟩ := s.input_eq resolved stroke
  have hgrown : (s.input resolved stroke).term = [] → s.term = [] := by
    rw [heq]
    rintro rfl
    exact (hterm.resolve_right (absurd rfl)).symm
  cases hstep : (s.input resolved stroke).step with
  | start => exact absurd (by rw [← hstep, heq]) hstart
  | older => exact .inl ⟨s.input resolved stroke, by rw [apply, hstep], hgrown⟩
  | newer => exact .inl ⟨s.input resolved stroke, by rw [apply, hstep], hgrown⟩
  | shorten =>
    rw [input_of_shorten hstep, apply]
    dsimp only
    split
    · next hnil =>
      rw [hnil]
      exact .inr rfl
    · next hne => exact .inl ⟨_, rfl, fun hnil => absurd hnil hne⟩
  | _ => rw [apply, hstep] at hheld; cases hheld

/-- **Between two keys** a search and its history agree. -/
theorem Session.agrees (h : Session direction start last s r) (held : s.focused = true) :
    s.Agrees r.desk.history := by
  induction h with
  | started setting =>
    exact ⟨History.direction_setDirection _ _, fun hne => absurd rfl hne, fun _ => rfl⟩
  | @typed last s r before hfocused setting resolved stroke ih =>
    have hbefore := ih hfocused
    rcases apply_input_of_held held with ⟨sought, happly, hblank⟩ | happly
    · rw [happly]
      exact agrees_lookOn setting sought r.desk fun hnil => hbefore.blank (hblank hnil)
    · rw [happly]
      exact ⟨hbefore.direction, fun hne => absurd rfl hne, fun _ => rfl⟩

/-! ## The term that was found last -/

/-- The term was found by a key of the search, and all keys since then have looked in vain, without
turning around. -/
inductive FoundLast (direction : Direction) (start : Desk) (term : Text) :
    Search → Reaction → Prop
  | found {last : Option Command} {s : Search} {r : Reaction}
      (reached : Session direction start last s r) (held : s.focused = true)
      (looked : s.term = term) (hit : s.failed = false) : FoundLast direction start term s r
  | missed {s : Search} {r : Reaction} (before : FoundLast direction start term s r)
      (setting : Setting) (resolved : Option Command) (stroke : Stroke)
      (held : ((s.input resolved stroke).apply setting r.desk).1.focused = true)
      (miss : ((s.input resolved stroke).apply setting r.desk).1.failed = true)
      (ahead : ((s.input resolved stroke).apply setting r.desk).1.direction = s.direction) :
      FoundLast direction start term ((s.input resolved stroke).apply setting r.desk).1
        ((s.input resolved stroke).apply setting r.desk).2

/-- A search that looks in vain changes nothing about the history but its direction. -/
theorem lookOn_of_miss (hmiss : (s.lookOn setting d).1.failed = true) :
    (s.lookOn setting d).1.direction = s.direction ∧
      (s.lookOn setting d).2.desk.history = d.history.setDirection s.direction := by
  by_cases hterm : s.term = []
  · rw [lookOn_of_nil setting hterm] at hmiss
    cases hmiss
  · rw [lookOn_of_ne_nil setting hterm] at hmiss ⊢
    rcases hsearch : (d.history.setDirection s.direction).search s.term with ⟨after, _ | line⟩
    · exact ⟨rfl, History.eq_of_search_none hsearch⟩
    · rw [hsearch] at hmiss
      cases hmiss

theorem FoundLast.exists_session {term : Text} (h : FoundLast direction start term s r) :
    (∃ last, Session direction start last s r) ∧ s.focused = true := by
  induction h with
  | found reached held => exact ⟨⟨_, reached⟩, held⟩
  | missed _ setting resolved stroke held _ _ ih =>
    obtain ⟨⟨last, hreached⟩, hheld⟩ := ih
    exact ⟨⟨_, hreached.typed hheld setting resolved stroke⟩, held⟩

/-- **What the history remembers** is the term that was found last. -/
theorem lastTerm_eq_some_iff (h : Session direction start last s r) (held : s.focused = true)
    {term : Text} (hterm : term ≠ []) :
    r.desk.history.lastTerm = some term ↔ FoundLast direction start term s r := by
  constructor
  · intro hlast
    induction h with
    | started setting => cases hlast
    | @typed last s r before hfocused setting resolved stroke ih =>
      have hreached := before.typed hfocused setting resolved stroke
      have hagrees := hreached.agrees held
      cases hfailed : ((s.input resolved stroke).apply setting r.desk).1.failed with
      | false =>
        have hne : ((s.input resolved stroke).apply setting r.desk).1.term ≠ [] := by
          intro hnil
          rw [hagrees.blank hnil] at hlast
          cases hlast
        have hsame := (hagrees.found hne hfailed).symm.trans hlast
        exact .found hreached held (Option.some.inj hsame) hfailed
      | true =>
        have hbefore := before.agrees hfocused
        rcases apply_input_of_held held with ⟨sought, happly, -⟩ | happly
        · rw [happly] at hfailed hlast
          obtain ⟨hdirection, hhistory⟩ := lookOn_of_miss hfailed
          rw [hhistory] at hlast
          have hahead : r.desk.history.direction = sought.direction := by
            by_contra hturn
            rw [History.lastTerm_setDirection _ hturn] at hlast
            cases hlast
          rw [← hahead, History.setDirection_self] at hlast
          refine .missed (ih hfocused hlast) setting resolved stroke held ?_ ?_
          · rw [happly]
            exact hfailed
          · rw [happly, hdirection, ← hahead, hbefore.direction]
        · rw [happly] at hfailed
          cases hfailed
  · intro hfound
    clear h held
    induction hfound with
    | found reached held looked hit =>
      have hagrees := reached.agrees held
      rw [← looked] at hterm ⊢
      exact hagrees.found hterm hit
    | @missed s r before setting resolved stroke held' miss ahead ih =>
      obtain ⟨⟨last, hreached⟩, hheld⟩ := before.exists_session
      have hagrees := hreached.agrees hheld
      rcases apply_input_of_held held' with ⟨sought, happly, -⟩ | happly
      · rw [happly] at miss ahead ⊢
        obtain ⟨hdirection, hhistory⟩ := lookOn_of_miss miss
        rw [hhistory, ← hdirection, ahead, ← hagrees.direction, History.setDirection_self]
        exact ih
      · rw [happly] at miss
        cases miss

/-! ## The key that goes back -/

/-- Where a search on a desk has landed: on the entry at an index, which it shows without a failure,
or nowhere, and then it rings the bell and shows the entry that it showed before. -/
def Lands (setting : Setting) (s : Search) (d : Desk) (next : Search × Reaction) :
    Option Nat → Prop
  | some index =>
    next.1.failed = false ∧ next.2.outcome = .proceed ∧
      d.history.get? index = some next.1.matched ∧ next.2.desk.history.searchCursor = index
  | none =>
    next.1.failed = true ∧ next.2.outcome = setting.bell ∧ next.1.matched = s.matched ∧
      next.2.desk.history.searchCursor = d.history.searchCursor

/-- Looking again for the term that was found last. -/
theorem lands_of_again (hdirection : d.history.direction = s.direction) (hterm : s.term ≠ [])
    (hagain : d.history.lastTerm = some s.term) (setting : Setting) :
    ∃ index?, d.history.GoesOn s.term index? ∧
      Lands setting s d (s.lookOn setting d) index? := by
  refine ⟨_, History.goesOn_of_again hagain, ?_⟩
  rw [lookOn_of_ne_nil setting hterm, ← hdirection, History.setDirection_self, History.search_eq]
  cases hfind : (d.history.candidates s.term).find? (d.history.holds s.term) with
  | none => exact ⟨rfl, rfl, rfl, rfl⟩
  | some index =>
    have hthere := History.lt_size_of_holds (List.find?_some hfind)
    have hentry : d.history.get? index = some d.history.entries[index] :=
      List.getElem?_eq_getElem hthere
    dsimp only
    rw [hentry]
    exact ⟨rfl, rfl, hentry, rfl⟩

/-- Looking for another term, which the entry at the search cursor holds. -/
theorem lands_of_held (hdirection : d.history.direction = s.direction) (hterm : s.term ≠ [])
    (hother : d.history.lastTerm ≠ some s.term) {line : Text}
    (hline : d.history.get? d.history.searchCursor = some line) (hoccurs : s.term <:+: line)
    (setting : Setting) :
    Lands setting s d (s.lookOn setting d) (some d.history.searchCursor) := by
  rw [lookOn_of_ne_nil setting hterm, ← hdirection, History.setDirection_self,
    History.search_of_held hother hline hoccurs]
  exact ⟨rfl, rfl, hline, rfl⟩

/-- **When going back on a term keeps the entry.**  Let the key leave a term that is not empty and
that the entry at the search cursor holds.  The search stays on that entry, and reports no failure,
exactly if that term is not the one that was found last.  If it is, as it is after a character that
made the search fail, then the search goes on: to the next entry that holds the term, or into a
failure if there is none. -/
theorem shorten_keeps_iff (h : Session direction start last s r) (held : s.focused = true)
    (hterm : s.term.dropLast ≠ []) {line : Text}
    (hline : r.desk.history.get? r.desk.history.searchCursor = some line)
    (hoccurs : s.term.dropLast <:+: line) (setting : Setting) (stroke : Stroke) :
    let history := r.desk.history
    let next := (s.input (some .backwardDeleteChar) stroke).apply setting r.desk
    (Lands setting s r.desk next (some history.searchCursor) ↔
        ¬FoundLast direction start s.term.dropLast s r) ∧
      (FoundLast direction start s.term.dropLast s r →
        ∃ index?, history.GoesOn s.term.dropLast index? ∧
          Lands setting s r.desk next index?) := by
  intro history next
  let sought : Search := { s with step := .shorten, term := s.term.dropLast }
  have hnext : next = sought.lookOn setting r.desk := if_neg hterm
  have hdirection : history.direction = sought.direction := (h.agrees held).direction
  have hlast := lastTerm_eq_some_iff h held hterm
  have hgoes : FoundLast direction start s.term.dropLast s r →
      ∃ index?, history.GoesOn s.term.dropLast index? ∧ Lands setting s r.desk next index? := by
    intro hfound
    rw [hnext]
    exact lands_of_again hdirection hterm (hlast.mpr hfound) setting
  refine ⟨⟨fun hkeeps hfound => ?_, fun hnot => ?_⟩, hgoes⟩
  · obtain ⟨index?, hon, hlands⟩ := hgoes hfound
    cases index? with
    | none => exact absurd (hkeeps.1.symm.trans hlands.1) Bool.false_ne_true
    | some index =>
      have hsame : index = history.searchCursor := hlands.2.2.2.symm.trans hkeeps.2.2.2
      have hbehind := hon.1
      rw [hsame] at hbehind
      exact hbehind.asymm hbehind
  · rw [hnext]
    exact lands_of_held hdirection hterm (fun hagain => hnot (hlast.mp hagain)) hline hoccurs
      setting

/-- A term of two characters, of which the second was typed after the first one was found, and taken
back after that: the search stays where it is. -/
theorem shorten_keeps_found_entry :
    let start : Desk :=
      ⟨.empty false, .empty 10, { History.empty 10 with entries := [['a', 'b'], ['a']] }⟩
    let setting : Setting := ⟨.default, false⟩
    ∃ s r, Session .reverse start none s r ∧ s.focused = true ∧ s.term.dropLast = ['a'] ∧
      r.desk.history.get? r.desk.history.searchCursor = some ['a', 'b'] ∧
        Lands setting s r.desk
          ((s.input (some .backwardDeleteChar) (.ofChar '\x7f')).apply setting r.desk)
          (some 0) := by
  intro start setting
  have hstarted : Session .reverse start none _ _ := .started setting
  have hfirst := hstarted.typed (by decide) setting none (.ofChar 'a')
  have hsecond := hfirst.typed (by decide) setting none (.ofChar 'b')
  generalize hsearch : (((((new .reverse).apply setting start).1.input none (.ofChar 'a')).apply
    setting _).1.input none (.ofChar 'b')).apply setting _ = reached at hsecond
  have hstate : reached.1.focused = true ∧ reached.1.term = ['a', 'b'] ∧
      reached.2.desk.history.get? reached.2.desk.history.searchCursor = some ['a', 'b'] ∧
        reached.2.desk.history.searchCursor = 0 ∧
          reached.2.desk.history.lastTerm = some ['a', 'b'] := by
    rw [← hsearch]
    decide +kernel
  obtain ⟨held, hterm, hline, hcursor, hlast⟩ := hstate
  have hshorter : reached.1.term.dropLast = ['a'] := by rw [hterm]; rfl
  have hne : reached.1.term.dropLast ≠ [] := by rw [hshorter]; decide
  have hoccurs : reached.1.term.dropLast <:+: ['a', 'b'] := hshorter ▸ ⟨[], ['b'], rfl⟩
  have hkeeps := (shorten_keeps_iff hsecond held hne hline hoccurs setting (.ofChar '\x7f')).1
  rw [hcursor] at hkeeps
  refine ⟨_, _, hsecond, held, hshorter, hline, hkeeps.mpr fun hfound => ?_⟩
  have hagain := (lastTerm_eq_some_iff hsecond held hne).mpr hfound
  rw [hlast, hshorter] at hagain
  cases hagain

/-- After a character that was looked for in vain it does not stay: taking the character back leads
on to the older entry, although the one that was shown before holds the term. -/
theorem shorten_leaves_entry_after_miss :
    let start : Desk :=
      ⟨.empty false, .empty 10, { History.empty 10 with entries := [['a', '1'], ['a', '2']] }⟩
    let setting : Setting := ⟨.default, false⟩
    ∃ first second : Search × Reaction, Session .reverse start none first.1 first.2 ∧
      first.1.failed = false ∧ first.1.matched = ['a', '2'] ∧
        second = (first.1.input none (.ofChar 'z')).apply setting first.2.desk ∧
          second.1.focused = true ∧ second.1.failed = true ∧ second.1.matched = ['a', '2'] ∧
            second.2.desk.history.searchCursor = 1 ∧
              let next := (second.1.input (some .backwardDeleteChar) (.ofChar '\x7f')).apply setting
                second.2.desk
              next.1.term = ['a'] ∧ next.1.matched = ['a', '1'] ∧
                next.2.desk.history.searchCursor = 0 := by
  intro start setting
  have hstarted : Session .reverse start none _ _ := .started setting
  have hfirst := hstarted.typed (by decide) setting none (.ofChar 'a')
  refine ⟨(_, _), _, hfirst, ?_, ?_, rfl, ?_⟩ <;> decide +kernel

end Search

end PromptLine
