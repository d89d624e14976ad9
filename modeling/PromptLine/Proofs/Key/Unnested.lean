import PromptLine.Proofs.Key.Conservation

/-!
# Tables in which no sequence begins another one

A keystroke that was taken is not called back.  So when input arrives in chunks, and keystrokes are
taken after each of them, a chunk that ends in a bound sequence decides for it, though the next one
might have made a longer sequence of it.  This is the only way in which chunks can matter.  If no
bound sequence begins another one, then all input is settled: what is taken from the first chunks is
what would be taken in the end.

Two nested sequences are also enough to see the difference.  The longer one, fed at once, is taken
as a whole; cut behind the shorter one it is not.
-/

namespace PromptLine

namespace Trie

/-- No bound sequence begins another one.  The empty sequence, which no input is resolved to, may
be bound. -/
def Unnested (strokes : List Stroke) : Prop :=
  ∀ short ∈ strokes, ∀ long ∈ strokes, short.sequence <+: long.sequence →
    short.sequence = [] ∨ short.sequence = long.sequence

instance (strokes : List Stroke) : Decidable (Unnested strokes) :=
  inferInstanceAs (Decidable (∀ short ∈ strokes, ∀ long ∈ strokes, _ → _))

/-- **Without nested sequences nothing is ambiguous.** -/
theorem Unnested.settled {strokes : List Stroke} (h : Unnested strokes) (text : Text) :
    Settled strokes text := by
  rintro rest - ⟨long, hlong, hbegins, hproper⟩ short hshort hstarts
  refine (h short hshort long hlong (hstarts.trans hbegins)).resolve_right fun hsame => ?_
  -- the rest lies between the two sequences
  have hlength := hstarts.length_le
  rw [hsame] at hlength
  exact hproper (hbegins.eq_of_length_le hlength)

end Trie

namespace KeyInput

variable {k middle last : KeyInput} {strokes : List Stroke} {taken : List Stroke}

/-! ## Draining, and draining again -/

/-- There is only one way to take keystrokes until none can be taken. -/
theorem Drains.unique {other : List Stroke} (h : Drains k taken last) (h' : Drains k other middle) :
    taken = other ∧ last = middle := by
  induction h generalizing other with
  | waits waits =>
    cases h' with
    | waits => exact ⟨rfl, rfl⟩
    | takes next => rw [waits] at next; cases next
  | takes next _ ih =>
    cases h' with
    | waits waits => rw [waits] at next; cases next
    | takes next' drains =>
      cases next.symm.trans next'
      obtain ⟨rfl, rfl⟩ := ih drains
      exact ⟨rfl, rfl⟩

theorem Drains.drain_eq (h : Drains k taken last) : k.drain = (taken, last) := by
  obtain ⟨htaken, hlast⟩ := k.drains_drain.unique h
  exact Prod.ext htaken hlast

/-- **Draining settled input before and after more arrives is draining all of it.** -/
theorem Drains.append {later : List Stroke} {ys : Text} (htrie : k.trie = .ofList strokes)
    (hsettled : Trie.Settled strokes k.pending) (h : Drains k taken middle)
    (hlater : Drains (middle.feed ys) later last) : Drains (k.feed ys) (taken ++ later) last := by
  induction h with
  | waits => exact hlater
  | takes next _ ih =>
    have hrest := ih ((trie_of_next? next).trans htrie)
      (hsettled.of_suffix (pending_suffix_of_next? next)) hlater
    exact .takes (next?_feed htrie hsettled next ys) hrest

theorem feed_nil (k : KeyInput) : k.feed [] = k := by
  rw [feed, List.append_nil]

theorem feed_feed (k : KeyInput) (xs ys : Text) : (k.feed xs).feed ys = k.feed (xs ++ ys) := by
  rw [feed, feed, feed, List.append_assoc]

/-! ## Chunk after chunk -/

/-- Feeding chunk after chunk, and draining after each of them. -/
def chunkwise (chunks : List Text) : List Request :=
  chunks.flatMap fun chunk => [.feedAll chunk, .drain]

theorem serveAll_chunkwise_cons (k : KeyInput) (chunk : Text) (chunks : List Text) :
    k.serveAll (chunkwise (chunk :: chunks)) =
      ((k.feed chunk).drain.1 ++ ((k.feed chunk).drain.2.serveAll (chunkwise chunks)).1,
        ((k.feed chunk).drain.2.serveAll (chunkwise chunks)).2) := rfl

/-- Input that waits, and is fed chunk after chunk, drains as if all of it had been there. -/
theorem drains_chunkwise (hunnested : Trie.Unnested strokes) (htrie : k.trie = .ofList strokes)
    (hwaits : k.next? = none) (chunks : List Text) :
    Drains (k.feed chunks.flatten) (k.serveAll (chunkwise chunks)).1
      (k.serveAll (chunkwise chunks)).2 := by
  induction chunks generalizing k with
  | nil =>
    rw [List.flatten_nil, feed_nil]
    exact .waits hwaits
  | cons chunk chunks ih =>
    have hfirst := (k.feed chunk).drains_drain
    have hrest := ih (hfirst.trie_eq.trans htrie) hfirst.waits_last
    rw [List.flatten_cons, ← feed_feed, serveAll_chunkwise_cons]
    exact hfirst.append htrie (hunnested.settled _) hrest

theorem serveAll_chunkwise_singleton (k : KeyInput) (text : Text) :
    k.serveAll (chunkwise [text]) = (k.feed text).drain :=
  Prod.ext (List.append_nil _) rfl

theorem next?_start (trie : Trie) : (start trie).next? = none := next?_of_pending_eq_nil rfl

/-- A bound sequence that is fed to a key input without anything else is one keystroke. -/
theorem exists_drain_of_mem {s : Text} (hne : s ≠ []) (hmem : s ∈ strokes.map Stroke.sequence) :
    ∃ stroke, stroke.sequence = s ∧
      ((start (.ofList strokes)).feed s).drain = ([stroke], start (.ofList strokes)) := by
  obtain ⟨stroke, hsequence, hnext⟩ :=
    next?_of_mem (k := (start (.ofList strokes)).feed s) rfl hne hmem
  exact ⟨stroke, hsequence, Drains.drain_eq (.takes hnext (.waits (next?_start _)))⟩

/-- **Where input is cut into chunks matters exactly if bound sequences are nested.**  Without
nested sequences, all input gives the same keystrokes and leaves the same input pending, whether it
is fed in any chunks, with keystrokes taken after each of them, or all at once. -/
theorem serveAll_chunkwise_iff (strokes : List Stroke) :
    Trie.Unnested strokes ↔
      ∀ chunks : List Text,
        (start (.ofList strokes)).serveAll (chunkwise chunks) =
          (start (.ofList strokes)).serveAll (chunkwise [chunks.flatten]) := by
  constructor
  · intro hunnested chunks
    rw [serveAll_chunkwise_singleton]
    exact (drains_chunkwise hunnested rfl (next?_start _) chunks).drain_eq.symm
  · intro hchunks short hshort long hlong hbegins
    by_contra! hnested
    obtain ⟨hne, hproper⟩ := hnested
    obtain ⟨tail, htail⟩ := hbegins
    -- the longer sequence at once, and cut behind the shorter one
    obtain ⟨whole, hwhole, hdrain⟩ := exists_drain_of_mem (s := long.sequence)
      (htail ▸ List.append_ne_nil_of_left_ne_nil hne tail) (List.mem_map_of_mem hlong)
    obtain ⟨first, hfirst, hdrain'⟩ := exists_drain_of_mem hne (List.mem_map_of_mem hshort)
    have hcut := hchunks [short.sequence, tail]
    rw [List.flatten_cons, List.flatten_singleton, htail, serveAll_chunkwise_singleton, hdrain,
      serveAll_chunkwise_cons, hdrain', Prod.mk.injEq, List.singleton_append, List.cons.injEq] at hcut
    obtain ⟨⟨rfl, -⟩, -⟩ := hcut
    exact hproper (hfirst.symm.trans hwhole)

/-- The sequence of the delete key in three chunks, and an escape that leads nowhere. -/
example :
    let strokes := [Stroke.ofKey .delete, .ofKey .left]
    Trie.Unnested strokes ∧
      (start (.ofList strokes)).serveAll
        (chunkwise [['x', escape], ['[', '3'], ['~', escape, 'x']]) =
      ([.ofChar 'x', .ofKey .delete, .ofChar escape, .ofChar 'x'], start (.ofList strokes)) := by
  decide

end KeyInput

end PromptLine
