import PromptLine.Proofs.Key.MoreInput

/-!
# Nothing that is typed is lost

Whatever is asked of a key input, and whatever trie it is given in between, the keystrokes that were
taken and the code points that are still pending make up what was fed, in the order in which it was
fed.  That needs one thing of a trie only: a keystroke that is ready is what the input starts with.

Draining ends because each keystroke takes at least one code point.  What it leaves is the beginning
of a bound sequence, so the pending input never grows as long as the longest of them unless it is
fed without being drained.
-/

namespace PromptLine

namespace Trie

/-- No bound sequence is longer than the longest. -/
theorem length_le_maxLength {strokes : List Stroke} {stroke : Stroke} (h : stroke ∈ strokes) :
    stroke.length ≤ (ofList strokes).maxLength := by
  induction strokes using List.reverseRecOn with
  | nil => cases h
  | append_singleton strokes last ih =>
    rw [ofList_concat, maxLength_insert]
    rcases List.mem_append.mp h with hbefore | hlast
    · exact (ih hbefore).trans (Nat.le_max_left _ _)
    · rw [List.mem_singleton.mp hlast]
      exact Nat.le_max_right _ _

/-- The beginning of a bound sequence is shorter than the longest one. -/
theorem Begins.length_lt_maxLength {strokes : List Stroke} {text : Text} (h : Begins strokes text) :
    text.length < (ofList strokes).maxLength := by
  obtain ⟨stroke, hstroke, hbegins, hproper⟩ := h
  have hshorter : text.length ≠ stroke.sequence.length := fun heq =>
    hproper (hbegins.eq_of_length heq)
  exact (Nat.lt_of_le_of_ne hbegins.length_le hshorter).trans_le (length_le_maxLength hstroke)

end Trie

namespace KeyInput

variable {k after : KeyInput} {strokes : List Stroke} {stroke : Stroke}

/-! ## One keystroke -/

/-- **A keystroke and what is left after it** are what was pending. -/
theorem sequence_append_pending (htrie : k.trie = .ofList strokes)
    (h : k.next? = some (stroke, after)) : stroke.sequence ++ after.pending = k.pending := by
  obtain ⟨hready, -, rfl⟩ := next?_eq_some h
  rw [peek?, resolve, htrie] at hready
  obtain ⟨rest, hrest⟩ := ((Trie.resolves_resolve strokes k.pending).starts hready).2
  rw [← hrest]
  exact congrArg (stroke.sequence ++ ·) List.drop_left

theorem trie_of_next? (h : k.next? = some (stroke, after)) : after.trie = k.trie := by
  obtain ⟨-, -, rfl⟩ := next?_eq_some h
  rfl

/-- What can be taken is what is ready: a keystroke that is ready takes something. -/
theorem next?_eq_map_peek? (htrie : k.trie = .ofList strokes) :
    k.next? =
      k.peek?.map fun stroke => (stroke, { k with pending := k.pending.drop stroke.length }) := by
  cases hpeek : k.peek? with
  | none => rw [next?, hpeek]; rfl
  | some stroke =>
    have hready := hpeek
    rw [peek?, resolve, htrie] at hready
    have hne := ((Trie.resolves_resolve strokes k.pending).starts hready).1
    rw [next?, hpeek]
    exact if_neg (mt List.length_eq_zero_iff.mp hne)

theorem isReady_eq_isSome_next? (htrie : k.trie = .ofList strokes) :
    k.isReady = k.next?.isSome := by
  rw [next?_eq_map_peek? htrie, Option.isSome_map, isReady, Resolution.consumed]
  change decide (0 < (k.peek?.map Stroke.length).getD 0) = k.peek?.isSome
  cases hpeek : k.peek? with
  | none => rfl
  | some stroke =>
    have hready := hpeek
    rw [peek?, resolve, htrie] at hready
    have hne := ((Trie.resolves_resolve strokes k.pending).starts hready).1
    exact decide_eq_true (List.length_pos_iff.mpr hne)

/-! ## Draining -/

/-- Taking keystrokes until none can be taken. -/
inductive Drains : KeyInput → List Stroke → KeyInput → Prop
  | waits {k : KeyInput} (waits : k.next? = none) : Drains k [] k
  | takes {k after last : KeyInput} {stroke : Stroke} {rest : List Stroke}
      (next : k.next? = some (stroke, after)) (drains : Drains after rest last) :
      Drains k (stroke :: rest) last

theorem drains_drainWithin {fuel : Nat} (h : k.pending.length ≤ fuel) :
    Drains k (drainWithin fuel k).1 (drainWithin fuel k).2 := by
  induction fuel generalizing k with
  | zero =>
    cases hnext : k.next? with
    | none => exact .waits hnext
    | some taken => exact absurd (length_pending_lt_of_next? hnext) (by omega)
  | succ fuel ih =>
    cases hnext : k.next? with
    | none =>
      rw [drainWithin, hnext]
      exact .waits hnext
    | some taken =>
      obtain ⟨stroke, after⟩ := taken
      have hshorter := length_pending_lt_of_next? hnext
      rw [drainWithin, hnext]
      exact .takes hnext (ih (by omega))

/-- **Draining comes to an end**, and with the keystrokes that it is meant to take. -/
theorem drains_drain (k : KeyInput) : Drains k k.drain.1 k.drain.2 :=
  drains_drainWithin (Nat.le_refl _)

theorem Drains.waits_last {taken : List Stroke} {last : KeyInput} (h : Drains k taken last) :
    last.next? = none := by
  induction h with
  | waits waits => exact waits
  | takes _ _ ih => exact ih

theorem Drains.trie_eq {taken : List Stroke} {last : KeyInput} (h : Drains k taken last) :
    last.trie = k.trie := by
  induction h with
  | waits => rfl
  | takes next _ ih => exact ih.trans (trie_of_next? next)

theorem Drains.flatMap_append_pending {taken : List Stroke} {last : KeyInput}
    (h : Drains k taken last) (htrie : k.trie = .ofList strokes) :
    taken.flatMap Stroke.sequence ++ last.pending = k.pending := by
  induction h with
  | waits => rfl
  | takes next _ ih =>
    rw [List.flatMap_cons, List.append_assoc, ih ((trie_of_next? next).trans htrie),
      sequence_append_pending htrie next]

/-! ## Everything that can be asked of a key input -/

/-- What can be asked of a key input. -/
inductive Request
  | feed (c : Char)
  | feedAll (text : Text)
  /-- The trie of a table of bindings takes the place of the one in use. -/
  | setTable (strokes : List Stroke)
  | isReady
  | peek
  | next
  | drain

namespace Request

/-- What a request feeds. -/
def fed : Request → Text
  | feed c => [c]
  | feedAll text => text
  | _ => []

/-- The table in use after a request. -/
def table (strokes : List Stroke) : Request → List Stroke
  | setTable other => other
  | _ => strokes

end Request

/-- Does what is asked, and hands out the keystrokes that are taken. -/
def serve (k : KeyInput) : Request → List Stroke × KeyInput
  | .feed c => ([], k.feed [c])
  | .feedAll text => ([], k.feed text)
  | .setTable strokes => ([], k.setTrie (.ofList strokes))
  | .isReady => ([], k)
  | .peek => ([], k)
  | .next =>
    match k.next? with
    | none => ([], k)
    | some (stroke, after) => ([stroke], after)
  | .drain => k.drain

/-- Does what is asked, one request after another. -/
def serveAll (k : KeyInput) : List Request → List Stroke × KeyInput
  | [] => ([], k)
  | request :: rest =>
    let (taken, k) := k.serve request
    let (later, k) := k.serveAll rest
    (taken ++ later, k)

/-- The trie changes with the table and in no other way. -/
theorem trie_serve (htrie : k.trie = .ofList strokes) (request : Request) :
    (k.serve request).2.trie = .ofList (request.table strokes) := by
  cases request with
  | setTable => rfl
  | next =>
    rw [serve]
    split
    · exact htrie
    · next taken => exact (trie_of_next? taken).trans htrie
  | drain => exact k.drains_drain.trie_eq.trans htrie
  | _ => exact htrie

/-- A request moves code points from what is pending to what is taken, and adds what it feeds. -/
theorem flatMap_serve_append_pending (htrie : k.trie = .ofList strokes) (request : Request) :
    (k.serve request).1.flatMap Stroke.sequence ++ (k.serve request).2.pending =
      k.pending ++ request.fed := by
  cases request with
  | feed => rfl
  | feedAll => rfl
  | next =>
    refine Eq.trans ?_ (List.append_nil k.pending).symm
    rw [serve]
    split
    · rfl
    · next stroke after taken =>
      rw [List.flatMap_singleton]
      exact sequence_append_pending htrie taken
  | drain => exact (k.drains_drain.flatMap_append_pending htrie).trans (List.append_nil _).symm
  | _ => exact (List.append_nil _).symm

theorem trie_serveAll (htrie : k.trie = .ofList strokes) (requests : List Request) :
    (k.serveAll requests).2.trie = .ofList (requests.foldl Request.table strokes) := by
  induction requests generalizing k strokes with
  | nil => exact htrie
  | cons request rest ih => exact ih (trie_serve htrie request)

theorem flatMap_serveAll_append_pending (htrie : k.trie = .ofList strokes)
    (requests : List Request) :
    (k.serveAll requests).1.flatMap Stroke.sequence ++ (k.serveAll requests).2.pending =
      k.pending ++ requests.flatMap Request.fed := by
  induction requests generalizing k strokes with
  | nil => exact (List.append_nil _).symm
  | cons request rest ih =>
    rw [serveAll, List.flatMap_append, List.append_assoc, ih (trie_serve htrie request),
      ← List.append_assoc, flatMap_serve_append_pending htrie, List.flatMap_cons,
      List.append_assoc]

/-- **Nothing that is typed is lost, repeated or reordered**, whatever is asked of a key input and
whatever tables it is given.  At any time it says that a keystroke is ready exactly if one can be
taken, and shows the one that would be taken.  Draining comes to an end, and leaves nothing, or the
beginning of a sequence of the table in use, which is shorter than its longest one. -/
theorem serveAll_conserves (strokes : List Stroke) (requests : List Request) :
    let taken := ((start (.ofList strokes)).serveAll requests).1
    let k := ((start (.ofList strokes)).serveAll requests).2
    let table := requests.foldl Request.table strokes
    taken.flatMap Stroke.sequence ++ k.pending = requests.flatMap Request.fed ∧
      k.isReady = k.peek?.isSome ∧ k.next?.map Prod.fst = k.peek? ∧
      Drains k k.drain.1 k.drain.2 ∧
      (k.drain.2.pending = [] ∨ Trie.Begins table k.drain.2.pending ∧
        k.drain.2.pending.length < k.drain.2.trie.maxLength) := by
  intro taken k table
  have htrie : k.trie = .ofList table := trie_serveAll rfl requests
  have hdrains := k.drains_drain
  have hlast : k.drain.2.trie = .ofList table := hdrains.trie_eq.trans htrie
  have hnext : k.next?.map Prod.fst = k.peek? := by
    rw [next?_eq_map_peek? htrie, Option.map_map]
    exact Option.map_id'
  refine ⟨flatMap_serveAll_append_pending rfl requests, ?_, hnext, hdrains, ?_⟩
  · rw [isReady_eq_isSome_next? htrie, ← hnext, Option.isSome_map]
  · rcases pending_of_next?_eq_none hlast hdrains.waits_last with hnil | ⟨hbegins, -⟩
    · exact .inl hnil
    · rw [hlast]
      exact .inr ⟨hbegins, hbegins.length_lt_maxLength⟩

/-- Another table is given while an escape and a bracket wait: they become part of its arrow key. -/
example :
    (start (.ofList [.ofKey .delete])).serveAll
      [.feedAll [escape, '['], .drain, .setTable [.ofKey .left], .feedAll ['D', 'x'], .drain] =
    ([.ofKey .left, .ofChar 'x'], start (.ofList [.ofKey .left])) := by
  decide

end KeyInput

end PromptLine
