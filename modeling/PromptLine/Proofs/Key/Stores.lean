import PromptLine.Proofs.Key.FiniteMap

/-!
# The two stores of a key table

A key table can be kept in two stores: the keystrokes of named keys in a hash map, and the sequences
that no key has in a list.  A keystroke is looked up in the one and then in the other, and freezing
the table takes the hash map in whatever order it happens to have.  `Stores` keeps a table in this
way, and is proved to be the table with one list of entries.

Every change of the stores does to their entries what the same change does to the entries of the
table, but for their order, and is refused with the same error (`Stores.Keeps.step`).  So the stores
that a list of changes leads to are a finite map, however the hash map is reordered in between.
-/

namespace PromptLine

namespace Bindings

variable {α : Type} {b : Bindings α} {stroke old new : Stroke} {value : α}

/-! ## A hash map of bindings -/

/-- Puts a value under a keystroke, over the value that is there. -/
def insert (b : Bindings α) (stroke : Stroke) (value : α) : Bindings α :=
  if b.contains stroke then
    ⟨b.entries.map fun entry => if entry.1.same stroke then (entry.1, value) else entry⟩
  else ⟨(stroke, value) :: b.entries⟩

/-- Removes what is under a keystroke. -/
def remove (b : Bindings α) (stroke : Stroke) : Bindings α :=
  ⟨b.entries.filter fun entry => !entry.1.same stroke⟩

/-- Gives the first entry of a keystroke to another. -/
def renameFirst (old new : Stroke) : List (Stroke × α) → List (Stroke × α)
  | [] => []
  | entry :: rest =>
    if entry.1.same old then (new, entry.2) :: rest else entry :: renameFirst old new rest

theorem contains_eq_false_iff :
    b.contains stroke = false ↔ ∀ entry ∈ b.entries, entry.1.sequence ≠ stroke.sequence := by
  rw [contains, List.any_eq_false]
  exact forall₂_congr fun entry _ => not_congr beq_iff_eq

theorem insert_of_not_contains (h : b.contains stroke = false) (value : α) :
    b.insert stroke value = ⟨(stroke, value) :: b.entries⟩ :=
  if_neg (Bool.eq_false_iff.mp h)

theorem contains_remove (h : b.contains stroke = false) :
    (b.remove old).contains stroke = false := by
  rw [contains_eq_false_iff] at h ⊢
  exact fun entry hentry => h entry (List.mem_of_mem_filter hentry)

theorem remove_of_not_contains (h : b.contains old = false) : b.remove old = b := by
  rw [contains, List.any_eq_false] at h
  have hkept : ∀ entry ∈ b.entries, (!entry.1.same old) = true := by
    intro entry hentry
    rw [Bool.eq_false_iff.mpr (h entry hentry), Bool.not_false]
  rw [remove, List.filter_eq_self.mpr hkept]

/-! ### Renaming with distinct sequences -/

theorem map_rename_of_not_contains (new : Stroke) (h : b.contains old = false) :
    b.entries.map (rename old new) = b.entries := by
  rw [contains_eq_false_iff] at h
  calc b.entries.map (rename old new) = b.entries.map id :=
        List.map_congr_left fun entry hentry => rename_of_ne new (h entry hentry)
    _ = b.entries := List.map_id _

/-- With distinct sequences, an entry is the only one of its keystroke. -/
theorem not_contains_rest {entry : Stroke × α} {rest : List (Stroke × α)}
    (h : (sequences ⟨entry :: rest⟩).Nodup) (hold : entry.1.sequence = old.sequence) :
    contains ⟨rest⟩ old = false := by
  obtain ⟨hfirst, -⟩ := List.nodup_cons.mp h
  rw [contains_eq_false_iff]
  intro other hother heq
  exact hfirst (List.mem_map.mpr ⟨other, hother, heq.trans hold.symm⟩)

theorem renameFirst_eq_map (old new : Stroke) {entries : List (Stroke × α)}
    (h : (sequences ⟨entries⟩).Nodup) :
    renameFirst old new entries = entries.map (rename old new) := by
  induction entries with
  | nil => rfl
  | cons entry rest ih =>
    rw [renameFirst, List.map_cons]
    by_cases hold : entry.1.sequence = old.sequence
    · have hothers : rest.map (rename old new) = rest :=
        map_rename_of_not_contains new (not_contains_rest h hold)
      have hsame : entry.1.same old = true := beq_iff_eq.mpr hold
      rw [if_pos hsame, rename_of_eq new hold, hothers]
    · have hsame : ¬ entry.1.same old = true := mt beq_iff_eq.mp hold
      rw [if_neg hsame, rename_of_ne new hold, ih (List.nodup_cons.mp h).2]

/-- Taking a value out and putting it back under another keystroke renames its entry. -/
theorem cons_remove_perm (new : Stroke) {entries : List (Stroke × α)}
    (h : (sequences ⟨entries⟩).Nodup) (hvalue : get? ⟨entries⟩ old = some value) :
    ((new, value) :: (remove ⟨entries⟩ old).entries).Perm (entries.map (rename old new)) := by
  induction entries with
  | nil => cases hvalue
  | cons entry rest ih =>
    rw [get?_cons] at hvalue
    rw [remove, List.map_cons]
    by_cases hold : entry.1.sequence = old.sequence
    · have hsame : entry.1.same old = true := beq_iff_eq.mpr hold
      have hothers := not_contains_rest h hold
      have hrest : (rest.filter fun entry => !entry.1.same old) = rest :=
        congrArg entries (remove_of_not_contains hothers)
      have hrenamed : rest.map (rename old new) = rest := map_rename_of_not_contains new hothers
      rw [if_pos hsame] at hvalue
      cases hvalue
      rw [List.filter_cons_of_neg (by rw [hsame]; decide), hrest, rename_of_eq new hold, hrenamed]
    · have hsame : ¬ entry.1.same old = true := mt beq_iff_eq.mp hold
      rw [if_neg hsame] at hvalue
      rw [List.filter_cons_of_pos (by rw [Bool.eq_false_iff.mpr hsame]; rfl),
        rename_of_ne new hold]
      exact (List.Perm.swap _ _ _).trans ((ih (List.nodup_cons.mp h).2 hvalue).cons entry)

end Bindings

open Bindings (Change)

/-- The two stores of a table. -/
structure Stores (α : Type) where
  /-- The keystrokes of named keys, in the order in which the hash map happens to have them. -/
  named : Bindings α
  raw : Bindings α

namespace Stores

variable {α : Type}

/-- Nothing is bound. -/
def nil : Stores α := ⟨.nil, .nil⟩

/-- All that is bound, as it is listed when the table is frozen. -/
def bindings (s : Stores α) : Bindings α := ⟨s.named.entries ++ s.raw.entries⟩

/-- How many sequences are bound. -/
def length (s : Stores α) : Nat := s.named.length + s.raw.length

theorem length_bindings (s : Stores α) : s.bindings.length = s.length := List.length_append

/-- Whether a keystroke is bound, in either store. -/
def contains (s : Stores α) (stroke : Stroke) : Bool :=
  s.named.contains stroke || s.raw.contains stroke

/-- The value bound to a keystroke: the named keys are looked up first. -/
def get? (s : Stores α) (stroke : Stroke) : Option α :=
  (s.named.get? stroke).or (s.raw.get? stroke)

/-- Why a keystroke cannot be bound anew. -/
def obstacle? (s : Stores α) (stroke : Stroke) : Option BindingError :=
  if stroke.sequence = [] then some .empty
  else if s.contains stroke then some (.duplicate (caretText stroke.sequence))
  else none

/-- Binds the keystroke of a named key. -/
def bind (s : Stores α) (key : Key) (value : α) : Option BindingError × Stores α :=
  match s.obstacle? (.ofKey key) with
  | some error => (some error, s)
  | none => (none, { s with named := s.named.insert (.ofKey key) value })

/-- Binds a sequence that no key has. -/
def bindSequence (s : Stores α) (sequence : Text) (value : α) : Option BindingError × Stores α :=
  match s.obstacle? (.ofSequence sequence) with
  | some error => (some error, s)
  | none => (none, { s with raw := ⟨s.raw.entries ++ [(.ofSequence sequence, value)]⟩ })

/-- Moves the value of one keystroke to another, in the store in which it is. -/
def rebind (s : Stores α) (old new : Stroke) : Option BindingError × Stores α :=
  if old.same new then (none, s)
  else if s.contains old = false then (some (.missing (caretText old.sequence)), s)
  else
    match s.obstacle? new with
    | some error => (some error, s)
    | none =>
      match s.named.get? old with
      | some value => (none, { s with named := (s.named.remove old).insert new value })
      | none => (none, { s with raw := ⟨Bindings.renameFirst old new s.raw.entries⟩ })

/-- Makes a change, and gives the error it is refused with.  Freezing and thawing keeps both
stores. -/
def step (s : Stores α) : Change α → Option BindingError × Stores α
  | .bind key value => s.bind key value
  | .bindSequence sequence value => s.bindSequence sequence value
  | .rebind old new => s.rebind old new
  | .refreeze => (none, s)

/-- The stores that changes lead to.  After every change the hash map may be in another order. -/
inductive Reached : List (Change α) → Stores α → Prop
  | start : Reached [] nil
  | step {changes : List (Change α)} {s : Stores α} {named : Bindings α} (c : Change α)
      (reached : Reached changes s) (perm : named.entries.Perm (s.step c).2.named.entries) :
      Reached (changes ++ [c]) { (s.step c).2 with named }

/-! ## The stores of a table -/

/-- The stores have the entries of a table, in an order of their own. -/
def Keeps (s : Stores α) (b : Bindings α) : Prop := s.bindings.entries.Perm b.entries

/-- What stores make of a change if their table makes a result of it. -/
inductive Follows (s : Stores α) :
    Except BindingError (Bindings α) → Option BindingError × Stores α → Prop
  /-- It is refused, and nothing is changed. -/
  | refused (error : BindingError) : Follows s (.error error) (some error, s)
  /-- It is made. -/
  | made {after : Bindings α} {t : Stores α} (keeps : t.Keeps after) :
      Follows s (.ok after) (none, t)

namespace Keeps

variable {s : Stores α} {b : Bindings α}

theorem contains_eq (h : s.Keeps b) (stroke : Stroke) : s.contains stroke = b.contains stroke := by
  rw [contains, Bindings.contains, Bindings.contains, ← List.any_append]
  exact h.any_eq

theorem obstacle?_eq (h : s.Keeps b) (stroke : Stroke) :
    s.obstacle? stroke = b.obstacle? stroke := by
  rw [obstacle?, Bindings.obstacle?, h.contains_eq]

theorem get?_eq (h : s.Keeps b) (hmap : b.IsMap) (stroke : Stroke) :
    s.get? stroke = b.value? stroke.sequence := by
  rw [← hmap.value?_of_perm h, ← Bindings.get?_eq_value?, get?, Bindings.get?, Bindings.get?,
    ← Option.map_or, ← List.find?_append]
  rfl

/-! ### Every change -/

/-- Neither store has a keystroke that can be bound anew. -/
theorem not_contains (h : s.Keeps b) {stroke : Stroke} (hfree : b.obstacle? stroke = none) :
    s.named.contains stroke = false ∧ s.raw.contains stroke = false := by
  obtain ⟨-, hnew⟩ := Bindings.obstacle?_eq_none_iff.mp hfree
  rw [← Bindings.isSome_value?_iff, ← Bindings.contains_eq, Bool.not_eq_true, ← h.contains_eq,
    contains, Bool.or_eq_false_iff] at hnew
  exact hnew

theorem bind (h : s.Keeps b) (key : Key) (value : α) :
    s.Follows (b.bind (.ofKey key) value) (s.bind key value) := by
  rw [Bindings.bind, Stores.bind, h.obstacle?_eq]
  cases hfree : b.obstacle? (.ofKey key) with
  | some error => exact .refused error
  | none =>
    refine .made ?_
    rw [Bindings.insert_of_not_contains (h.not_contains hfree).1]
    exact (List.Perm.cons _ h).trans (List.perm_append_singleton _ _).symm

theorem bindSequence (h : s.Keeps b) (sequence : Text) (value : α) :
    s.Follows (b.bindSequence sequence value) (s.bindSequence sequence value) := by
  rw [Bindings.bindSequence, Bindings.bind, Stores.bindSequence, h.obstacle?_eq]
  cases b.obstacle? (.ofSequence sequence) with
  | some error => exact .refused error
  | none =>
    refine .made ?_
    rw [Keeps, bindings, ← List.append_assoc]
    exact List.Perm.append_right _ h

theorem distinct (h : s.Keeps b) (hmap : b.IsMap) :
    (s.named.sequences ++ s.raw.sequences).Nodup := by
  rw [Bindings.sequences, Bindings.sequences, ← List.map_append]
  exact (hmap.of_perm h).distinct

/-- A keystroke in one store is not in the other. -/
theorem raw_not_contains (h : s.Keeps b) (hmap : b.IsMap) {stroke : Stroke}
    (hnamed : s.named.contains stroke = true) : s.raw.contains stroke = false := by
  rw [Bindings.contains_eq, Bindings.isSome_value?_iff] at hnamed
  rw [Bindings.contains_eq, Bool.eq_false_iff, ne_eq, Bindings.isSome_value?_iff]
  exact List.disjoint_of_nodup_append (h.distinct hmap) hnamed

theorem rebind (h : s.Keeps b) (hmap : b.IsMap) (old new : Stroke) :
    s.Follows (b.rebind old new) (s.rebind old new) := by
  rw [Bindings.rebind, Stores.rebind, h.contains_eq, h.obstacle?_eq]
  split
  · exact .made h
  · split
    · exact .refused _
    · cases hfree : b.obstacle? new with
      | some error => exact .refused error
      | none =>
        have hrenamed : (s.named.entries.map (Bindings.rename old new) ++
            s.raw.entries.map (Bindings.rename old new)).Perm
              (b.entries.map (Bindings.rename old new)) := by
          rw [← List.map_append]
          exact List.Perm.map _ h
        have hdistinct := List.nodup_append.mp (h.distinct hmap)
        -- Only the store that has the keystroke is changed, and renaming leaves the other alone.
        cases hvalue : s.named.get? old with
        | some value =>
          have hnamed : s.named.contains old = true := by
            rw [Bindings.contains_eq, ← Bindings.get?_eq_value?, hvalue]
            rfl
          rw [Bindings.map_rename_of_not_contains new (h.raw_not_contains hmap hnamed)] at hrenamed
          refine .made (List.Perm.trans ?_ hrenamed)
          rw [Bindings.insert_of_not_contains
            (Bindings.contains_remove (h.not_contains hfree).1)]
          exact (Bindings.cons_remove_perm new hdistinct.1 hvalue).append_right _
        | none =>
          have hnamed : s.named.contains old = false := by
            rw [Bindings.contains_eq, ← Bindings.get?_eq_value?, hvalue]
            rfl
          rw [Bindings.map_rename_of_not_contains new hnamed,
            ← Bindings.renameFirst_eq_map old new hdistinct.2.1] at hrenamed
          exact .made hrenamed

/-- **The stores make of a change what their table makes of it.** -/
theorem step (h : s.Keeps b) (hmap : b.IsMap) (c : Change α) :
    s.Follows (b.change c) (s.step c) := by
  cases c with
  | bind key value => exact h.bind key value
  | bindSequence sequence value => exact h.bindSequence sequence value
  | rebind old new => exact h.rebind hmap old new
  | refreeze => exact .made h

theorem attempt (h : s.Keeps b) (hmap : b.IsMap) (c : Change α) :
    (s.step c).2.Keeps (b.attempt c) := by
  have hfollows := h.step hmap c
  rw [Bindings.attempt]
  generalize b.change c = result, s.step c = answer at hfollows
  cases hfollows with
  | refused error => exact h
  | made keeps => exact keeps

/-- A change that the map refuses is refused by the stores. -/
theorem step_of_error (h : s.Keeps b) (hmap : b.IsMap) {c : Change α} {error : BindingError}
    (herror : c.onMap b.value? = .error error) : s.step c = (some error, s) := by
  have hfollows := h.step hmap c
  rw [← hmap.map_value?_change] at herror
  generalize b.change c = result, s.step c = answer at hfollows herror
  cases hfollows with
  | refused =>
    cases herror
    rfl
  | made => cases herror

/-- A change that the map makes is made by the stores. -/
theorem step_of_ok (h : s.Keeps b) (hmap : b.IsMap) {c : Change α} {m : Text → Option α}
    (hok : c.onMap b.value? = .ok m) :
    (s.step c).1 = none ∧ (s.step c).2.bindings.value? = m := by
  have hfollows := h.step hmap c
  rw [← hmap.map_value?_change] at hok
  cases hresult : b.change c with
  | error =>
    rw [hresult] at hok
    cases hok
  | ok after =>
    rw [hresult] at hok hfollows
    cases hok
    have hafter := hmap.change hresult
    generalize s.step c = answer at hfollows
    cases hfollows with
    | made keeps => exact ⟨rfl, hafter.value?_of_perm keeps⟩

end Keeps

/-- The table that the changes lead to has the same entries. -/
theorem Reached.keeps {changes : List (Change α)} {s : Stores α} (h : Reached changes s) :
    s.Keeps (Bindings.afterChanges changes) := by
  induction h with
  | start => exact .refl _
  | @step changes s named c reached perm ih =>
    obtain ⟨hmap, -⟩ := Bindings.isMap_afterChanges changes
    rw [Bindings.afterChanges, List.foldl_append]
    exact (perm.append_right _).trans (ih.attempt hmap c)

/-- **A key table is a finite map, and its trie agrees with it.**  Take the stores that any list of
changes leads to, with the hash map in any order, and the map and the table that the same changes
lead to.  The stores have the entries of the table, and no sequence is bound twice and the empty one
never.  A change that the map refuses is refused with the same error and leaves the stores as they
are, and any other changes them as it changes the map.  Keystrokes are looked up by their sequence
alone.  The trie of the frozen table counts its entries, resolves a sequence to itself exactly if it
is bound, and cuts all input in the same way whatever the order. -/
theorem Reached.finiteMap {changes : List (Change α)} {s : Stores α} (h : Reached changes s) :
    let map := Change.mapAfter changes
    let table := Keymap.ofBindings (Bindings.afterChanges changes)
    let frozen := Keymap.ofBindings s.bindings
    s.bindings.IsMap ∧ s.bindings.entries.Perm table.bindings.entries ∧
      (∀ c error, c.onMap map = .error error → s.step c = (some error, s)) ∧
      (∀ c after, c.onMap map = .ok after →
        (s.step c).1 = none ∧ (s.step c).2.bindings.value? = after) ∧
      (∀ c, (table.bindings.change c).map Bindings.value? = c.onMap map) ∧
      (∀ stroke, s.get? stroke = map stroke.sequence ∧ frozen.get? stroke = map stroke.sequence ∧
        table.get? stroke = map stroke.sequence) ∧
      s.length = frozen.trie.count ∧ table.bindings.length = table.trie.count ∧
      (∀ input, frozen.trie.resolve input = table.trie.resolve input) ∧
      ∀ sequence, (∃ stroke, frozen.trie.resolve sequence = .matched stroke ∧
        stroke.sequence = sequence) ↔ (map sequence).isSome = true := by
  intro map table frozen
  obtain ⟨hmap, hvalue⟩ : table.bindings.IsMap ∧ table.bindings.value? = map :=
    Bindings.isMap_afterChanges changes
  have hkeeps : s.Keeps table.bindings := h.keeps
  have hstores : frozen.bindings.IsMap := hmap.of_perm hkeeps
  have hsame : frozen.bindings.value? = map := (hmap.value?_of_perm hkeeps).trans hvalue
  rw [← hvalue]
  refine ⟨hstores, hkeeps, fun c error => hkeeps.step_of_error hmap,
    fun c after => hkeeps.step_of_ok hmap, hmap.map_value?_change,
    fun stroke => ⟨hkeeps.get?_eq hmap stroke, ?_, ?_⟩,
    s.length_bindings.symm.trans hstores.count_trie.symm, hmap.count_trie.symm,
    hmap.resolve_trie_of_perm hkeeps, fun sequence => ?_⟩
  · rw [Keymap.get?, Bindings.get?_eq_value?, hsame, hvalue]
  · rw [Keymap.get?, Bindings.get?_eq_value?]
  · rw [hvalue, ← hsame]
    exact hstores.resolve_trie_iff

/-- Two keys and a chord are bound, the hash map turns its entries around, and then one of the keys
is given the sequence of another. -/
theorem finiteMap_of_reordered :
    let s : Stores Nat :=
      ⟨⟨[(.ofKey .homeVt, 2), (.ofKey .enter, 1)]⟩, ⟨[(.ofSequence ['g', 'U'], 3)]⟩⟩
    Reached [.bind .enter 1, .bind .home 2, .bindSequence ['g', 'U'] 3,
        .rebind (.ofKey .home) (.ofKey .homeVt)] s ∧
      s.bindings.IsMap ∧ s.get? (.ofKey .homeVt) = some 2 ∧ s.get? (.ofKey .home) = none ∧
      s.length = (Keymap.ofBindings s.bindings).trie.count := by
  intro s
  have h1 : Reached [.bind .enter 1] ⟨⟨[(.ofKey .enter, 1)]⟩, .nil⟩ :=
    .step (.bind .enter 1) .start (by decide)
  have h2 : Reached [.bind .enter 1, .bind .home 2]
      ⟨⟨[(.ofKey .enter, 1), (.ofKey .home, 2)]⟩, .nil⟩ :=
    .step (.bind .home 2) h1 (by decide)
  have h3 : Reached [.bind .enter 1, .bind .home 2, .bindSequence ['g', 'U'] 3]
      ⟨⟨[(.ofKey .enter, 1), (.ofKey .home, 2)]⟩, ⟨[(.ofSequence ['g', 'U'], 3)]⟩⟩ :=
    .step (.bindSequence ['g', 'U'] 3) h2 (by decide)
  have h4 : Reached [.bind .enter 1, .bind .home 2, .bindSequence ['g', 'U'] 3,
        .rebind (.ofKey .home) (.ofKey .homeVt)] s :=
    .step (.rebind (.ofKey .home) (.ofKey .homeVt)) h3 (by decide)
  obtain ⟨hmap, -, -, -, -, hget, hcount, -⟩ := h4.finiteMap
  exact ⟨h4, hmap, (hget (.ofKey .homeVt)).1, (hget (.ofKey .home)).1, hcount⟩

end Stores

end PromptLine
