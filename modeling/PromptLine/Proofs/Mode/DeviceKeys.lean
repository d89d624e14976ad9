import PromptLine.Proofs.Mode.ViInputs

/-!
# Tables that were adapted to a device

The keys that devices send differently are moved one after another.  Each move frees one sequence
and takes another, so what the next move finds depends on those before it: a key can land where an
earlier one stood, but two keys never exchange their sequences, since whichever has its turn first
finds the other in place.  A move that cannot be made leaves everything as it is.

What comes of it can be said for each key by itself.  A key that has not had its turn is where it
always was, since nobody takes a sequence that is bound; so its turn finds it there, and moves it
exactly if what the device sends is free at that moment.  A key that has had its turn is not touched
again, since no later move begins where it is.  All other keys are never touched.
-/

namespace PromptLine

namespace Bindings

variable {α : Type}

/-- Binds entry after entry, as long as none is refused. -/
def bindAll (b : Bindings α) : List (Stroke × α) → Except BindingError (Bindings α)
  | [] => .ok b
  | entry :: rest =>
    match b.bind entry.1 entry.2 with
    | .ok b => b.bindAll rest
    | .error error => .error error

/-- **The entries of a finite map can be bound one after another**, and make up the map. -/
theorem IsMap.bindAll_eq {b : Bindings α} {rest : List (Stroke × α)}
    (h : IsMap ⟨b.entries ++ rest⟩) : b.bindAll rest = .ok ⟨b.entries ++ rest⟩ := by
  induction rest generalizing b with
  | nil =>
    rw [List.append_nil]
    rfl
  | cons entry rest ih =>
    obtain ⟨stroke, value⟩ := entry
    have hsequences : sequences ⟨b.entries ++ (stroke, value) :: rest⟩ =
        b.sequences ++ stroke.sequence :: sequences ⟨rest⟩ := List.map_append
    have hnonempty := h.nonempty
    have hdistinct := h.distinct
    rw [hsequences] at hnonempty hdistinct
    have hfree : b.obstacle? stroke = none := by
      refine obstacle?_eq_none_iff.mpr ⟨fun hnil => hnonempty ?_, fun hmem => ?_⟩
      · exact List.mem_append_right _ (List.mem_cons.mpr (.inl hnil.symm))
      · exact (List.nodup_append.mp hdistinct).2.2 _ hmem _ List.mem_cons_self rfl
    have hbind : b.bind stroke value = .ok ⟨b.entries ++ [(stroke, value)]⟩ := by
      rw [bind, hfree]
    rw [bindAll, hbind]
    have hsplit : b.entries ++ (stroke, value) :: rest =
        b.entries ++ [(stroke, value)] ++ rest := (List.append_assoc _ [(stroke, value)] _).symm
    rw [hsplit] at h ⊢
    exact ih h

/-- A keystroke is moved to a sequence that nothing has. -/
theorem Change.onMap_rebind_of_free {m : Text → Option α} {value : α} (old new : Stroke)
    (hvalue : m old.sequence = some value) (hne : new.sequence ≠ [])
    (hdiffers : new.sequence ≠ old.sequence) (hfree : m new.sequence = none) :
    onMap m (.rebind old new) =
      .ok (Function.update (Function.update m old.sequence none) new.sequence (some value)) := by
  have hfree : Function.update m old.sequence none new.sequence = none := by
    rw [Function.update_of_ne hdiffers, hfree]
  rw [onMap, if_neg (Ne.symm hdiffers), hvalue]
  dsimp only
  rw [extend, if_neg hne, hfree]
  rfl

/-- A keystroke is not moved to a sequence that is bound, be it its own. -/
theorem attempt_rebind_of_taken {b : Bindings α} {old new : Stroke}
    (h : old.sequence = new.sequence ∨ (b.value? new.sequence).isSome = true) :
    b.attempt (.rebind old new) = b := by
  rw [attempt, change, rebind]
  by_cases hsame : old.same new = true
  · rw [if_pos hsame]
  · have hbound := h.resolve_left (mt beq_iff_eq.mpr hsame)
    rw [if_neg hsame]
    cases hobstacle : b.obstacle? new with
    | none =>
      rw [isSome_value?_iff] at hbound
      exact absurd hbound (obstacle?_eq_none_iff.mp hobstacle).2
    | some error =>
      dsimp only
      split
      · next hchange => split at hchange <;> cases hchange
      · rfl

theorem IsMap.bindAll_nil {b : Bindings α} (h : b.IsMap) : nil.bindAll b.entries = .ok b := by
  have hall : IsMap ⟨(nil : Bindings α).entries ++ b.entries⟩ := h
  exact hall.bindAll_eq

/-- Binding one more sequence is refused, or adds an entry. -/
theorem attempt_bindSequence (b : Bindings α) (s : Text) (value : α) :
    b.attempt (.bindSequence s value) = b ∨
      b.obstacle? (.ofSequence s) = none ∧
        b.attempt (.bindSequence s value) = ⟨b.entries ++ [(.ofSequence s, value)]⟩ := by
  rw [attempt, change, bindSequence, bind]
  cases b.obstacle? (.ofSequence s) with
  | none => exact .inr ⟨rfl, rfl⟩
  | some error => exact .inl rfl

/-- A keystroke in the place of another leaves the values as they are. -/
theorem map_snd_rename (entries : List (Stroke × α)) (old new : Stroke) :
    (entries.map (rename old new)).map (·.2) = entries.map (·.2) := by
  rw [List.map_map]
  refine List.map_congr_left fun entry _ => ?_
  rw [Function.comp_apply, rename]
  split <;> rfl

end Bindings

namespace DeviceReport

/-! ## One key -/

/-- What is reported for a key can be read as a sequence. -/
theorem sequence?_eq_some_iff {report : DeviceReport} {key : DeviceKey} {s : Text} :
    report.sequence? key = some s ↔
      ∃ bytes, report.lookup key = some bytes ∧ ((Decoder.start .utf8).decode bytes).error = none ∧
        ((Decoder.start .utf8).decode bytes).text = s ∧ s ≠ [] := by
  rw [sequence?]
  cases report.lookup key with
  | none => simp
  | some bytes =>
    dsimp only
    split
    · next husable =>
      obtain ⟨herror, hne⟩ := husable
      constructor
      · rintro ⟨⟩
        exact ⟨bytes, rfl, herror, rfl, hne⟩
      · rintro ⟨_, ⟨⟩, -, rfl, -⟩
        rfl
    · next hunusable =>
      refine iff_of_false (by simp) ?_
      rintro ⟨_, ⟨⟩, herror, rfl, hne⟩
      exact hunusable ⟨herror, hne⟩

variable {α : Type} {report : DeviceReport} {b now : Bindings α} {entry : DeviceKey × Key}
  {keys : List (DeviceKey × Key)} {value : α} {s t : Text}

/-- The turn of a key moves it to a sequence: the device sends the sequence for it, which can be
read, is not empty, is not the usual one, and is bound to nothing. -/
structure Moves (report : DeviceReport) (now : Bindings α) (entry : DeviceKey × Key) (s : Text) :
    Prop where
  sent : ∃ bytes, report.lookup entry.1 = some bytes ∧
    ((Decoder.start .utf8).decode bytes).error = none ∧
      ((Decoder.start .utf8).decode bytes).text = s
  nonempty : s ≠ []
  differs : s ≠ entry.2.sequence
  free : now.value? s = none

theorem Moves.sequence?_eq (h : report.Moves now entry s) : report.sequence? entry.1 = some s := by
  obtain ⟨bytes, hlookup, herror, htext⟩ := h.sent
  exact sequence?_eq_some_iff.mpr ⟨bytes, hlookup, herror, htext, h.nonempty⟩

/-- The turn of a key is a change of the table, or nothing. -/
theorem moveKey_eq (report : DeviceReport) (b : Bindings α) (entry : DeviceKey × Key) :
    report.moveKey b entry =
      match report.sequence? entry.1 with
      | none => b
      | some s => b.attempt (.rebind (.ofKey entry.2) ⟨s, entry.2.label⟩) := by
  rw [moveKey]
  cases report.sequence? entry.1 with
  | none => rfl
  | some s => rfl

/-- A key that is moved frees its sequence, and takes the other one. -/
theorem Moves.value?_moveKey (h : report.Moves now entry s) (hmap : now.IsMap)
    (hvalue : now.value? entry.2.sequence = some value) :
    (report.moveKey now entry).value? =
      Function.update (Function.update now.value? entry.2.sequence none) s (some value) := by
  have hmoved := Bindings.Change.onMap_rebind_of_free (.ofKey entry.2) ⟨s, entry.2.label⟩ hvalue
    h.nonempty h.differs h.free
  rw [moveKey_eq, h.sequence?_eq]
  dsimp only
  rw [hmap.value?_attempt, Bindings.Change.attempt, hmoved]
  rfl

/-- A key that is not moved leaves the table as it is. -/
theorem moveKey_of_not_moves (h : ¬∃ s, report.Moves now entry s) :
    report.moveKey now entry = now := by
  rw [moveKey_eq]
  cases hsequence : report.sequence? entry.1 with
  | none => rfl
  | some s =>
    obtain ⟨bytes, hlookup, herror, htext, hne⟩ := sequence?_eq_some_iff.mp hsequence
    refine Bindings.attempt_rebind_of_taken ?_
    by_contra htaken
    obtain ⟨hdiffers, hfree⟩ := not_or.mp htaken
    exact h ⟨s, ⟨bytes, hlookup, herror, htext⟩, hne, Ne.symm hdiffers,
      Option.not_isSome_iff_eq_none.mp hfree⟩

theorem isMap_moveKey (hmap : now.IsMap) (report : DeviceReport) (entry : DeviceKey × Key) :
    (report.moveKey now entry).IsMap := by
  rw [moveKey_eq]
  split
  · exact hmap
  · exact hmap.attempt _

/-- A bound sequence keeps its value in the turn of another key. -/
theorem value?_moveKey_of_ne (hmap : now.IsMap) (ht : now.value? t = some value)
    (hother : entry.2.sequence ≠ t) : (report.moveKey now entry).value? t = some value := by
  rw [moveKey_eq]
  split
  · exact ht
  · rw [hmap.value?_attempt]
    refine Bindings.Change.attempt_of_some ht fun old new hrebind => ?_
    cases hrebind
    exact hother

/-! ## Turn after turn -/

/-- **A bound sequence keeps its value** in the turns of other keys. -/
theorem value?_foldl_moveKey (hmap : now.IsMap) (ht : now.value? t = some value)
    (hothers : ∀ entry ∈ keys, entry.2.sequence ≠ t) :
    (keys.foldl report.moveKey now).value? t = some value := by
  induction keys generalizing now with
  | nil => exact ht
  | cons entry keys ih =>
    obtain ⟨hother, hothers⟩ := List.forall_mem_cons.mp hothers
    exact ih (isMap_moveKey hmap report entry) (value?_moveKey_of_ne hmap ht hother) hothers

/-- The keys that have not had their turn are where they were at first. -/
structure Untouched (b now : Bindings α) (keys : List (DeviceKey × Key)) : Prop where
  isMap : now.IsMap
  distinct : keys.Pairwise fun entry other => entry.2.sequence ≠ other.2.sequence
  bound : ∀ entry ∈ keys, ∃ value, b.value? entry.2.sequence = some value ∧
    now.value? entry.2.sequence = some value

/-- A turn leaves the keys alone that come after it. -/
theorem Untouched.moveKey (h : Untouched b now (entry :: keys)) (report : DeviceReport) :
    Untouched b (report.moveKey now entry) keys := by
  obtain ⟨hnew, hdistinct⟩ := List.pairwise_cons.mp h.distinct
  refine ⟨isMap_moveKey h.isMap report entry, hdistinct, fun other hother => ?_⟩
  obtain ⟨value, hfirst, hnow⟩ := h.bound other (List.mem_cons_of_mem entry hother)
  exact ⟨value, hfirst, value?_moveKey_of_ne h.isMap hnow (hnew other hother)⟩

theorem Untouched.foldl {earlier : List (DeviceKey × Key)} (h : Untouched b now (earlier ++ keys))
    (report : DeviceReport) : Untouched b (earlier.foldl report.moveKey now) keys := by
  induction earlier generalizing now with
  | nil => exact h
  | cons entry earlier ih => exact ih (h.moveKey report)

/-- A value comes to no other place in the turns of keys with other values. -/
theorem Untouched.value?_foldl_ne (h : Untouched b now keys) (ht : now.value? t ≠ some value)
    (hothers : ∀ entry ∈ keys, b.value? entry.2.sequence ≠ some value) :
    (keys.foldl report.moveKey now).value? t ≠ some value := by
  induction keys generalizing now with
  | nil => exact ht
  | cons entry keys ih =>
    obtain ⟨hother, hothers⟩ := List.forall_mem_cons.mp hothers
    obtain ⟨found, hfirst, hnow⟩ := h.bound entry List.mem_cons_self
    refine ih (h.moveKey report) ?_ hothers
    by_cases hmoves : ∃ s, report.Moves now entry s
    · obtain ⟨s, hs⟩ := hmoves
      rw [hs.value?_moveKey h.isMap hnow]
      by_cases hts : t = s
      · rw [hts, Function.update_self, ← hfirst]
        exact hother
      · rw [Function.update_of_ne hts]
        by_cases hold : t = entry.2.sequence
        · rw [hold, Function.update_self]
          exact (Option.some_ne_none value).symm
        · rw [Function.update_of_ne hold]
          exact ht
    · rw [moveKey_of_not_moves hmoves]
      exact ht

/-- **Where a key is after all turns** hangs on its own turn: at the sequence that it was moved to,
and no longer at its old one, or where it was at first. -/
theorem Untouched.placed (h : Untouched b now (entry :: keys))
    (hvalue : b.value? entry.2.sequence = some value)
    (hothers : ∀ other ∈ keys, b.value? other.2.sequence ≠ some value) :
    let last := (entry :: keys).foldl report.moveKey now
    (∀ s, report.Moves now entry s →
      last.value? s = some value ∧ last.value? entry.2.sequence ≠ some value) ∧
      ((¬∃ s, report.Moves now entry s) → last.value? entry.2.sequence = some value) := by
  intro last
  obtain ⟨found, hfirst, hnow⟩ := h.bound entry List.mem_cons_self
  obtain rfl : found = value := Option.some.inj (hfirst.symm.trans hvalue)
  have hafter := h.moveKey report
  refine ⟨fun s hs => ⟨?_, ?_⟩, fun hstays => ?_⟩
  · have hlands : (report.moveKey now entry).value? s = some found := by
      rw [hs.value?_moveKey h.isMap hnow, Function.update_self]
    change (keys.foldl report.moveKey (report.moveKey now entry)).value? s = some found
    refine value?_foldl_moveKey hafter.isMap hlands fun other hother hsame => ?_
    obtain ⟨_, -, hbound⟩ := h.bound other (List.mem_cons_of_mem entry hother)
    rw [hsame, hs.free] at hbound
    cases hbound
  · refine hafter.value?_foldl_ne ?_ hothers
    rw [hs.value?_moveKey h.isMap hnow, Function.update_of_ne (Ne.symm hs.differs),
      Function.update_self]
    exact (Option.some_ne_none found).symm
  · have hnew := (List.pairwise_cons.mp h.distinct).1
    change (keys.foldl report.moveKey (report.moveKey now entry)).value? _ = _
    rw [moveKey_of_not_moves hstays]
    exact value?_foldl_moveKey h.isMap hnow fun other hother => (hnew other hother).symm

theorem map_snd_moveKey (report : DeviceReport) (now : Bindings α) (entry : DeviceKey × Key) :
    (report.moveKey now entry).entries.map (·.2) = now.entries.map (·.2) := by
  rw [moveKey_eq]
  split
  · rfl
  · rw [Bindings.attempt]
    split
    · next hchange =>
      cases Bindings.changed hchange with
      | same => rfl
      | added bound => cases bound
      | moved => exact Bindings.map_snd_rename _ _ _
    · rfl

theorem map_snd_foldl_moveKey (report : DeviceReport) (now : Bindings α)
    (keys : List (DeviceKey × Key)) :
    (keys.foldl report.moveKey now).entries.map (·.2) = now.entries.map (·.2) := by
  induction keys generalizing now with
  | nil => rfl
  | cons entry keys ih =>
    exact (ih (report.moveKey now entry)).trans (map_snd_moveKey report now entry)

/-! ## The whole table -/

/-- Bindings in which every key that can move is bound, to a value that no other of them has. -/
structure Movable (b : Bindings α) (kill : α) : Prop where
  isMap : b.IsMap
  bound : ∀ entry ∈ DeviceKey.movable, (b.value? entry.2.sequence).isSome = true
  apart : DeviceKey.movable.Pairwise fun entry other =>
    b.value? entry.2.sequence ≠ b.value? other.2.sequence
  kill : ∀ entry ∈ DeviceKey.movable, b.value? entry.2.sequence ≠ some kill

/-- What the bindings of a table have become on a device. -/
structure Remapped (report : DeviceReport) (kill : α) (b after : Bindings α) : Prop where
  isMap : after.IsMap
  /-- No value is lost, and at most one is new. -/
  values : after.entries.map (·.2) = b.entries.map (·.2) ∨
    after.entries.map (·.2) = b.entries.map (·.2) ++ [kill]
  /-- All other keys are where they were. -/
  fixed : ∀ s, (∀ entry ∈ DeviceKey.movable, entry.2.sequence ≠ s) →
    ∀ value, b.value? s = some value → after.value? s = some value
  /-- A key that can move is where its turn put it, and nowhere else if it was moved. -/
  placed : ∀ earlier entry later, DeviceKey.movable = earlier ++ entry :: later →
    ∃ value, b.value? entry.2.sequence = some value ∧
      let now := earlier.foldl report.moveKey b
      (∀ s, report.Moves now entry s →
        after.value? s = some value ∧ after.value? entry.2.sequence ≠ some value) ∧
        ((¬∃ s, report.Moves now entry s) → after.value? entry.2.sequence = some value)

/-- All keys had their turn, and then the key for deleting to the end of the line may be bound. -/
theorem remap_eq (report : DeviceReport) (kill : α) (b : Bindings α) :
    let moved := DeviceKey.movable.foldl report.moveKey b
    report.remap (some kill) b = moved ∨
      ∃ s, moved.value? s = none ∧
        (report.remap (some kill) b).value? = Function.update moved.value? s (some kill) ∧
        (report.remap (some kill) b).entries = moved.entries ++ [(.ofSequence s, kill)] := by
  intro moved
  have hremap : report.remap (some kill) b =
      match report.sequence? .killToEol with
      | none => moved
      | some s => moved.attempt (.bindSequence s kill) := by
    unfold remap
    cases report.sequence? .killToEol <;> rfl
  rw [hremap]
  cases report.sequence? .killToEol with
  | none => exact .inl rfl
  | some s =>
    rcases moved.attempt_bindSequence s kill with hrefused | ⟨hfree, hadded⟩
    · exact .inl hrefused
    · have hunbound := (Bindings.obstacle?_eq_none_iff.mp hfree).2
      rw [Stroke.sequence_ofSequence, ← Bindings.isSome_value?_iff,
        Option.not_isSome_iff_eq_none] at hunbound
      have hvalue := Bindings.value?_append hfree kill
      rw [← hadded] at hvalue
      exact .inr ⟨s, hunbound, hvalue, congrArg Bindings.entries hadded⟩

section Whole

variable {kill : α} (h : Movable b kill) (report : DeviceReport)

include h

theorem Movable.untouched : Untouched b b DeviceKey.movable := by
  refine ⟨h.isMap, by decide, fun entry hentry => ?_⟩
  obtain ⟨value, hvalue⟩ := Option.isSome_iff_exists.mp (h.bound entry hentry)
  exact ⟨value, hvalue, hvalue⟩

/-- When all keys had their turn, each is where its turn put it. -/
theorem Movable.placed {earlier later : List (DeviceKey × Key)}
    (hsplit : DeviceKey.movable = earlier ++ entry :: later)
    (hvalue : b.value? entry.2.sequence = some value) :
    let now := earlier.foldl report.moveKey b
    let last := DeviceKey.movable.foldl report.moveKey b
    (∀ s, report.Moves now entry s →
      last.value? s = some value ∧ last.value? entry.2.sequence ≠ some value) ∧
      ((¬∃ s, report.Moves now entry s) → last.value? entry.2.sequence = some value) := by
  intro now last
  have hlast : last = (entry :: later).foldl report.moveKey now := by
    change DeviceKey.movable.foldl report.moveKey b = _
    rw [hsplit, List.foldl_append]
  have hbegin := h.untouched
  have hapart := h.apart
  rw [hsplit] at hbegin hapart
  have hothers := (List.pairwise_cons.mp (List.pairwise_append.mp hapart).2.1).1
  rw [hlast]
  refine (hbegin.foldl report).placed hvalue fun other hother hsame => ?_
  exact hothers other hother (hvalue.trans hsame.symm)

/-- **Adapting a table to a device loses nothing and overwrites nothing.** -/
theorem Movable.remapped : Remapped report kill b (report.remap (some kill) b) := by
  have hmap : (report.remap (some kill) b).IsMap :=
    report.remap_induction h.isMap (fun _ h _ _ _ => h.attempt _) fun _ h _ _ _ => h.attempt _
  have hvalues := map_snd_foldl_moveKey report b DeviceKey.movable
  have hfixed : ∀ s, (∀ entry ∈ DeviceKey.movable, entry.2.sequence ≠ s) →
      ∀ value, b.value? s = some value →
        (DeviceKey.movable.foldl report.moveKey b).value? s = some value :=
    fun s hs value hvalue => value?_foldl_moveKey h.isMap hvalue hs
  have hbound : ∀ earlier entry later, DeviceKey.movable = earlier ++ entry :: later →
      entry ∈ DeviceKey.movable ∧ ∃ value, b.value? entry.2.sequence = some value := by
    intro earlier entry later hsplit
    have hmem : entry ∈ DeviceKey.movable := by
      rw [hsplit]
      exact List.mem_append_right _ List.mem_cons_self
    exact ⟨hmem, Option.isSome_iff_exists.mp (h.bound entry hmem)⟩
  rcases remap_eq report kill b with hremap | ⟨s, hfree, hremap, hentries⟩
  · rw [hremap] at hmap ⊢
    refine ⟨hmap, .inl hvalues, hfixed, fun earlier entry later hsplit => ?_⟩
    obtain ⟨-, value, hvalue⟩ := hbound earlier entry later hsplit
    exact ⟨value, hvalue, h.placed report hsplit hvalue⟩
  · -- the last binding takes a free sequence, so what was bound before it stays
    have hkeeps : ∀ {t value}, (DeviceKey.movable.foldl report.moveKey b).value? t = some value →
        (report.remap (some kill) b).value? t = some value := by
      intro t value ht
      have hne : t ≠ s := by
        rintro rfl
        cases hfree.symm.trans ht
      rw [hremap, Function.update_of_ne hne, ht]
    refine ⟨hmap, .inr ?_, fun s hs value hvalue => hkeeps (hfixed s hs value hvalue),
      fun earlier entry later hsplit => ?_⟩
    · rw [hentries, List.map_append, hvalues]
      rfl
    · obtain ⟨hmem, value, hvalue⟩ := hbound earlier entry later hsplit
      obtain ⟨hmoved, hstays⟩ := h.placed report hsplit hvalue
      refine ⟨value, hvalue, fun t ht => ⟨hkeeps (hmoved t ht).1, ?_⟩, fun hnot =>
        hkeeps (hstays hnot)⟩
      rw [hremap]
      by_cases hsame : entry.2.sequence = s
      · rw [hsame, Function.update_self]
        exact fun hkill => h.kill entry hmem (hvalue.trans hkill.symm)
      · rw [Function.update_of_ne hsame]
        exact (hmoved t ht).2

end Whole

end DeviceReport

/-! ## The tables of both dispatchers -/

namespace Emacs

theorem isMap_defaults : defaults.IsMap where
  nonempty := by decide
  distinct := by decide

theorem movable_defaults : DeviceReport.Movable defaults .killLine where
  isMap := isMap_defaults
  bound := by decide
  apart := by decide
  kill := by decide

end Emacs

namespace Vi

theorem movable_defaults : DeviceReport.Movable defaults killToEol := by
  have hvalues : (∀ entry ∈ DeviceKey.movable, (defaults.value? entry.2.sequence).isSome = true) ∧
      (DeviceKey.movable.Pairwise fun entry other =>
        defaults.value? entry.2.sequence ≠ defaults.value? other.2.sequence) ∧
      ∀ entry ∈ DeviceKey.movable, defaults.value? entry.2.sequence ≠ some killToEol := by
    decide +kernel
  exact ⟨isMap_defaults, hvalues.1, hvalues.2.1, hvalues.2.2⟩

/-- Declarations of one sequence are of one key. -/
theorem eq_of_sequence_eq {declaration other : Declaration} (h : declaration ∈ declarations)
    (hother : other ∈ declarations) (hsame : declaration.1.sequence = other.1.sequence) :
    declaration.1 = other.1 := by
  have hbound : ∀ declaration ∈ declarations, declaration.1 ∈ defaults.strokes := by
    decide +kernel
  have hdistinct := nodup_sequences_defaults
  rw [← Bindings.map_sequence_strokes] at hdistinct
  exact List.inj_on_of_nodup_map hdistinct (hbound _ h) (hbound _ hother) hsame

end Vi

/-- **No device makes a binding disappear.**  Whatever a device reports, the usual bindings of both
dispatchers can be made, and are adapted to it: no value is lost, at most the key that deletes to
the end of the line is new, and all but the seven keys that can move are where they were.  Each of
the seven is at its usual sequence or at the one that the device sends for it; it is at the latter
exactly if what is sent can be read, is not empty, is not the usual sequence, and was free in the
key's turn. -/
theorem DeviceReport.remaps_usual (report : DeviceReport) :
    (Bindings.nil.bindAll Emacs.defaults.entries = .ok Emacs.defaults ∧
      Remapped report .killLine Emacs.defaults (Emacs.start report).table.bindings) ∧
    (Bindings.nil.bindAll Vi.defaults.entries = .ok Vi.defaults ∧
      (∀ declaration ∈ Vi.declarations, ∀ other ∈ Vi.declarations,
        declaration.1.sequence = other.1.sequence → declaration.1 = other.1) ∧
      Remapped report Vi.killToEol Vi.defaults (Vi.start report).table.bindings) := by
  refine ⟨⟨Emacs.isMap_defaults.bindAll_nil, ?_⟩, Vi.isMap_defaults.bindAll_nil, ?_, ?_⟩
  · exact Emacs.movable_defaults.remapped report
  · exact fun _ h _ hother hsame => Vi.eq_of_sequence_eq h hother hsame
  · exact Vi.movable_defaults.remapped report

end PromptLine
