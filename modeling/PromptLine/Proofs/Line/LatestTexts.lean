import Mathlib.Data.List.Perm.Subperm
import Mathlib.Data.List.Rotate
import Mathlib.Logic.Function.Iterate
import PromptLine.Line.KillRing

/-!
# Which texts a kill ring holds

A ring that is full gives up a text for each one that is added, and what it gives up is the text
farthest from the current one.  As long as nobody turns the ring that is the oldest text, and the
ring holds the latest ones.  Turning the ring takes the newest text to where the oldest was, and if
a text is added then, the newest is lost and an older one stays.

So what can be said of every run is how many texts there are, that each of them was added, which one
is current, and that a whole turn changes nothing.  That the texts are the latest ones is said of
exactly those runs in which the oldest text is the one that is next to go whenever the ring is full
and a text is added (`holdsLatest_iff`).
-/

namespace PromptLine

/-- Of two lists with the same members, what is left without the last has the same members exactly
if the last are the same. -/
theorem perm_dropLast_iff {α : Type} {xs ys : List α} (h : xs.Perm ys) :
    xs.dropLast.Perm ys.dropLast ↔ xs.getLast? = ys.getLast? := by
  by_cases hxs : xs = []
  · subst hxs
    rw [← h.nil_eq]
    exact iff_of_true .nil rfl
  · have hys : ys ≠ [] := fun hnil => hxs (h.trans (hnil ▸ .nil)).eq_nil
    rw [List.getLast?_eq_some_getLast hxs, List.getLast?_eq_some_getLast hys, Option.some_inj]
    rw [← List.dropLast_append_getLast hxs, ← List.dropLast_append_getLast hys] at h
    constructor
    · intro hrest
      have hlast := (List.perm_append_left_iff _).mp ((hrest.symm.append_right _).trans h)
      exact List.singleton_perm_singleton.mp hlast
    · intro hlast
      rw [hlast] at h
      exact (List.perm_append_right_iff _).mp h

namespace KillRing

/-! ## Runs -/

/-- What can be done to a ring. -/
inductive Operation
  | add (text : Text)
  | rotate
  deriving DecidableEq, Repr

/-- The text that an operation adds, if it is worth keeping. -/
def Operation.text? : Operation → Option Text
  | add text => if text = [] then none else some text
  | rotate => none

/-- Carries an operation out. -/
def perform (ring : KillRing) : Operation → KillRing
  | .add text => ring.add text
  | .rotate => ring.rotate

/-- The ring after a run. -/
def after (ring : KillRing) (run : List Operation) : KillRing := run.foldl perform ring

/-- The texts that a run has added, the latest first. -/
def added (run : List Operation) : List Text := (run.filterMap Operation.text?).reverse

/-- As many of the texts that a run has added as a ring has room for, the latest first. -/
def latest (capacity : Nat) (run : List Operation) : List Text :=
  (added run).take (max capacity 1)

/-- The ring holds the latest texts, in whatever order. -/
def HoldsLatest (capacity : Nat) (run : List Operation) : Prop :=
  ((empty capacity).after run).texts.Perm (latest capacity run)

/-- If the ring is full, the text that it gives up next is the oldest of the latest ones. -/
def OldestIsNext (capacity : Nat) (run : List Operation) : Prop :=
  let ring := (empty capacity).after run
  ring.length = ring.capacity → ring.texts.getLast? = (latest capacity run).getLast?

variable {capacity : Nat} {ring : KillRing} {run : List Operation} {text : Text}

theorem after_concat (ring : KillRing) (run : List Operation) (operation : Operation) :
    ring.after (run ++ [operation]) = (ring.after run).perform operation := by
  rw [after, List.foldl_concat]
  rfl

theorem added_concat (run : List Operation) (operation : Operation) :
    added (run ++ [operation]) = operation.text?.toList ++ added run := by
  rw [added, List.filterMap_append, List.reverse_append]
  cases h : operation.text? <;> simp [h, added]

theorem added_concat_add (htext : text ≠ []) (run : List Operation) :
    added (run ++ [.add text]) = text :: added run := by
  rw [added_concat, Operation.text?, if_neg htext]
  rfl

theorem text?_eq_none_or (operation : Operation) :
    operation.text? = none ∨ ∃ text, text ≠ [] ∧ operation = .add text := by
  cases operation with
  | rotate => exact .inl rfl
  | add text =>
    by_cases htext : text = []
    · exact .inl (if_pos htext)
    · exact .inr ⟨text, htext, rfl⟩

/-! ## Turning -/

theorem texts_rotate (ring : KillRing) : ring.rotate.texts = ring.texts.rotate 1 := by
  rw [rotate]
  cases htexts : ring.texts with
  | nil => rw [htexts]; rfl
  | cons text rest => rw [List.rotate_cons_succ, List.rotate_zero]

theorem capacity_rotate (ring : KillRing) : ring.rotate.capacity = ring.capacity := by
  rw [rotate]
  split <;> rfl

theorem iterate_rotate (ring : KillRing) (turns : Nat) :
    (rotate^[turns] ring).texts = ring.texts.rotate turns ∧
      (rotate^[turns] ring).capacity = ring.capacity := by
  induction turns with
  | zero => exact ⟨(List.rotate_zero _).symm, rfl⟩
  | succ turns ih =>
    obtain ⟨htexts, hcapacity⟩ := ih
    rw [Function.iterate_succ_apply', texts_rotate, htexts, List.rotate_rotate, capacity_rotate]
    exact ⟨rfl, hcapacity⟩

theorem eq_of_texts {first second : KillRing} (htexts : first.texts = second.texts)
    (hcapacity : first.capacity = second.capacity) : first = second := by
  cases first
  cases second
  cases htexts
  cases hcapacity
  rfl

/-- A whole turn changes nothing. -/
theorem iterate_rotate_length (ring : KillRing) : rotate^[ring.length] ring = ring := by
  obtain ⟨htexts, hcapacity⟩ := ring.iterate_rotate ring.length
  rw [length, List.rotate_length] at htexts
  exact eq_of_texts htexts hcapacity

/-- An operation that adds nothing keeps the texts. -/
theorem perm_perform (ring : KillRing) {operation : Operation} (h : operation.text? = none) :
    (ring.perform operation).texts.Perm ring.texts := by
  cases operation with
  | rotate =>
    rw [perform, texts_rotate]
    exact List.rotate_perm _ 1
  | add text =>
    have htext : text = [] := by
      by_contra hne
      rw [Operation.text?, if_neg hne] at h
      cases h
    rw [perform, htext, add_nil]

/-! ## Adding -/

theorem texts_add (htext : text ≠ []) (ring : KillRing) :
    (ring.add text).texts = (text :: ring.texts).take ring.capacity := by
  rw [add, if_neg htext]

theorem capacity_perform (ring : KillRing) (operation : Operation) :
    (ring.perform operation).capacity = ring.capacity := by
  cases operation with
  | rotate => exact ring.capacity_rotate
  | add text =>
    rw [perform, add]
    split <;> rfl

theorem capacity_after (capacity : Nat) (run : List Operation) :
    ((empty capacity).after run).capacity = max capacity 1 := by
  induction run using List.reverseRecOn with
  | nil => rfl
  | append_singleton run operation ih => rw [after_concat, capacity_perform, ih]

/-- What a list of bounded length becomes with one more in front. -/
theorem take_cons_of_length_le {α : Type} {a : α} {xs : List α} {room : Nat}
    (hroom : 0 < room) (h : xs.length ≤ room) :
    (a :: xs).take room = a :: if xs.length = room then xs.dropLast else xs := by
  obtain ⟨others, rfl⟩ := Nat.exists_eq_succ_of_ne_zero (Nat.ne_of_gt hroom)
  rw [List.take_succ_cons]
  split
  · next hfull => rw [List.dropLast_eq_take, hfull, Nat.succ_sub_one]
  · next hfree => rw [List.take_of_length_le (by omega)]

/-- There are as many texts as were added, as long as there is room. -/
theorem length_after (capacity : Nat) (run : List Operation) :
    ((empty capacity).after run).length = min (max capacity 1) (added run).length := by
  induction run using List.reverseRecOn with
  | nil => exact (Nat.min_zero _).symm
  | append_singleton run operation ih =>
    rw [after_concat, added_concat]
    rcases text?_eq_none_or operation with hnone | ⟨text, htext, rfl⟩
    · rw [length, (perm_perform _ hnone).length_eq, hnone]
      exact ih
    · have hcapacity := capacity_after capacity run
      rw [length] at ih
      rw [perform, length, texts_add htext, hcapacity, List.length_take, List.length_cons, ih,
        Operation.text?, if_neg htext, Option.toList_some, List.singleton_append, List.length_cons]
      omega

/-- Every text was added, and none is there more often than it was. -/
theorem subperm_added (capacity : Nat) (run : List Operation) :
    ((empty capacity).after run).texts.Subperm (added run) := by
  induction run using List.reverseRecOn with
  | nil => exact List.nil_subperm
  | append_singleton run operation ih =>
    rw [after_concat]
    rcases text?_eq_none_or operation with hnone | ⟨text, htext, rfl⟩
    · rw [added_concat, hnone]
      exact (perm_perform _ hnone).subperm.trans ih
    · rw [perform, texts_add htext, added_concat_add htext]
      exact (List.take_sublist _ _).subperm.trans ((List.subperm_cons text).mpr ih)

/-! ## Holding the latest -/

theorem holdsLatest_nil (capacity : Nat) : HoldsLatest capacity [] := by
  rw [HoldsLatest, latest, added, List.filterMap_nil, List.reverse_nil, List.take_nil]
  exact .nil

/-- An operation that adds nothing makes no difference to what the ring should hold. -/
theorem HoldsLatest.concat (h : HoldsLatest capacity run) {operation : Operation}
    (hnone : operation.text? = none) : HoldsLatest capacity (run ++ [operation]) := by
  have hlatest : latest capacity (run ++ [operation]) = latest capacity run := by
    rw [latest, added_concat, hnone]
    rfl
  rw [HoldsLatest, after_concat, hlatest]
  exact (perm_perform _ hnone).trans h

/-- **One more text.**  The ring goes on holding the latest texts exactly if it has room, or gives
up the oldest of them. -/
theorem HoldsLatest.concat_add_iff (h : HoldsLatest capacity run) (htext : text ≠ []) :
    HoldsLatest capacity (run ++ [.add text]) ↔ OldestIsNext capacity run := by
  have hcapacity := capacity_after capacity run
  have hroom : 0 < max capacity 1 := Nat.le_max_right capacity 1
  have hlength : ((empty capacity).after run).texts.length ≤ max capacity 1 :=
    Nat.le_trans (Nat.le_of_eq (length_after capacity run)) (Nat.min_le_left _ _)
  have hlatest : latest capacity (run ++ [.add text]) =
      (text :: latest capacity run).take (max capacity 1) := by
    obtain ⟨others, hothers⟩ := Nat.exists_eq_succ_of_ne_zero (Nat.ne_of_gt hroom)
    rw [latest, latest, added_concat_add htext, hothers, List.take_succ_cons, List.take_succ_cons,
      List.take_take, Nat.min_eq_left (Nat.le_succ others)]
  rw [HoldsLatest] at h
  rw [HoldsLatest, after_concat, perform, texts_add htext, hcapacity, hlatest,
    take_cons_of_length_le hroom hlength, take_cons_of_length_le hroom (h.length_eq ▸ hlength),
    ← h.length_eq, List.perm_cons, OldestIsNext, length, hcapacity]
  by_cases hfull : ((empty capacity).after run).texts.length = max capacity 1
  · rw [if_pos hfull, if_pos hfull, perm_dropLast_iff h]
    exact ⟨fun hlast _ => hlast, fun hlast => hlast hfull⟩
  · rw [if_neg hfull, if_neg hfull]
    exact iff_of_true h fun hyes => absurd hyes hfull

/-- **What a ring holds.**  A ring holds the latest texts at every moment of a run exactly if, each
time a text is added to it while it is full, the oldest text is the one farthest from the current.
Always, there are as many texts as were added or fit in; each of them was added; a text that is
added is current; and a whole turn changes nothing. -/
theorem holdsLatest_iff (capacity : Nat) (run : List Operation) :
    let ring := (empty capacity).after run
    ((∀ before, before <+: run → HoldsLatest capacity before) ↔
        ∀ before text, before ++ [.add text] <+: run → text ≠ [] →
          OldestIsNext capacity before) ∧
      ring.length = min (max capacity 1) (added run).length ∧
      ring.texts.Subperm (added run) ∧
      (∀ text, text ≠ [] → (ring.add text).current? = some text) ∧
      rotate^[ring.length] ring = ring := by
  intro ring
  refine ⟨⟨?_, ?_⟩, length_after capacity run, subperm_added capacity run,
    fun text htext => current?_add htext, iterate_rotate_length ring⟩
  · intro hholds before text hbefore htext
    have hfirst := hholds before ((List.prefix_append before _).trans hbefore)
    exact (hfirst.concat_add_iff htext).mp (hholds _ hbefore)
  · intro holdest before
    induction before using List.reverseRecOn with
    | nil => exact fun _ => holdsLatest_nil capacity
    | append_singleton before operation ih =>
      intro hbefore
      have hfirst := ih ((List.prefix_append before _).trans hbefore)
      rcases text?_eq_none_or operation with hnone | ⟨text, htext, rfl⟩
      · exact hfirst.concat hnone
      · exact (hfirst.concat_add_iff htext).mpr (holdest before text hbefore htext)

/-- Two texts fit in.  The ring is turned once, so that the older one is current, and a third text
is added: the second one is lost, and the first one stays. -/
theorem holds_older_text :
    let run : List Operation := [.add ['a'], .add ['b'], .rotate, .add ['c']]
    ((empty 2).after run).texts = [['c'], ['a']] ∧ latest 2 run = [['c'], ['b']] ∧
      ¬HoldsLatest 2 run := by
  intro run
  rw [HoldsLatest]
  decide

end KillRing

end PromptLine
