import Mathlib.Data.List.Nodup
import Mathlib.Logic.Function.Basic
import PromptLine.Key.Device
import PromptLine.Proofs.Key.Resolution

/-!
# Key tables as finite maps

What a key table answers hangs on the sequence of a keystroke and on no name, so a table is read
here as a map from sequences to values, `value?`.  Each change of a table is a change of this map:
`Change.onMap` says what a map makes of it and with which error it refuses it, and a table does the
same (`IsMap.map_value?_change`).

The order of the entries is of no consequence, because no sequence is bound twice.  Tables with the
same entries in another order are the same map, and their tries cut input in the same way.
-/

namespace PromptLine

namespace Trie

/-! ## Tries of distinct sequences -/

/-- With distinct sequences, the keystroke bound to a sequence is the only one that has it. -/
theorem latest?_eq_some_iff {strokes : List Stroke} (h : (strokes.map Stroke.sequence).Nodup)
    {s : Text} {stroke : Stroke} :
    latest? strokes s = some stroke ↔ stroke ∈ strokes ∧ stroke.sequence = s := by
  constructor
  · exact sequence_of_latest?
  · rintro ⟨hmem, rfl⟩
    have hbound : (latest? strokes stroke.sequence).isSome = true :=
      isSome_latest?_iff.mpr (List.mem_map_of_mem hmem)
    obtain ⟨found, hfound⟩ := Option.isSome_iff_exists.mp hbound
    obtain ⟨hfoundMem, hsequence⟩ := sequence_of_latest? hfound
    rw [hfound, List.inj_on_of_nodup_map h hfoundMem hmem hsequence]

theorem latest?_of_perm {strokes others : List Stroke} (hperm : strokes.Perm others)
    (h : (others.map Stroke.sequence).Nodup) (s : Text) : latest? strokes s = latest? others s := by
  have hstrokes := ((hperm.map Stroke.sequence).nodup_iff).mpr h
  ext stroke
  rw [latest?_eq_some_iff h, latest?_eq_some_iff hstrokes, hperm.mem_iff]

theorem Resolves.of_perm {strokes others : List Stroke} (hperm : strokes.Perm others)
    (h : (others.map Stroke.sequence).Nodup) {input : Text} {resolution : Resolution}
    (hresolves : Resolves strokes input resolution) : Resolves others input resolution := by
  have hmem : ∀ {stroke}, stroke ∈ others → stroke ∈ strokes := hperm.mem_iff.mpr
  cases hresolves with
  | nothing => exact .nothing
  | matched hne hstarts hlongest hlatest =>
    rw [latest?_of_perm hperm h] at hlatest
    exact .matched hne hstarts (fun other hother => hlongest other (hmem hother)) hlatest
  | incomplete hne hunmatched hbound hbegins hproper =>
    exact .incomplete hne (fun other hother => hunmatched other (hmem hother))
      (hperm.mem_iff.mp hbound) hbegins hproper
  | unbound hunmatched hlost =>
    exact .unbound (fun other hother => hunmatched other (hmem hother))
      fun other hother => hlost other (hmem hother)

/-- **The order of insertion does not matter** if no sequence is inserted twice. -/
theorem resolve_of_perm {strokes others : List Stroke} (hperm : strokes.Perm others)
    (h : (others.map Stroke.sequence).Nodup) (input : Text) :
    (ofList strokes).resolve input = (ofList others).resolve input :=
  ((resolves_resolve strokes input).of_perm hperm h).unique (resolves_resolve others input)

end Trie

namespace Bindings

variable {α : Type} {b after : Bindings α} {stroke : Stroke} {value : α} {s : Text}

/-! ## Looking up -/

/-- What a keystroke is bound to hangs on its sequence. -/
theorem get?_congr (b : Bindings α) {first second : Stroke}
    (h : first.sequence = second.sequence) : b.get? first = b.get? second := by
  have hsame : ∀ entry : Stroke × α, entry.1.same first = entry.1.same second := by
    intro entry
    rw [Stroke.same, Stroke.same, h]
  rw [get?, get?, funext hsame]

theorem get?_cons (entry : Stroke × α) (rest : List (Stroke × α)) (stroke : Stroke) :
    get? ⟨entry :: rest⟩ stroke =
      if entry.1.same stroke then some entry.2 else get? ⟨rest⟩ stroke := by
  rw [get?, get?, List.find?_cons]
  cases entry.1.same stroke <;> rfl

theorem exists_of_get? (h : b.get? stroke = some value) :
    ∃ bound, (bound, value) ∈ b.entries ∧ bound.sequence = stroke.sequence := by
  obtain ⟨⟨bound, found⟩, hfind, rfl⟩ := Option.map_eq_some_iff.mp h
  have hsame := List.find?_some hfind
  exact ⟨bound, List.mem_of_find?_eq_some hfind, eq_of_beq hsame⟩

/-- The bound sequences. -/
def sequences (b : Bindings α) : List Text := b.entries.map fun entry => entry.1.sequence

/-- The value bound to a sequence. -/
def value? (b : Bindings α) (sequence : Text) : Option α := b.get? (.ofSequence sequence)

theorem get?_eq_value? (b : Bindings α) (stroke : Stroke) :
    b.get? stroke = b.value? stroke.sequence :=
  b.get?_congr (Stroke.sequence_ofSequence stroke.sequence).symm

theorem map_sequence_strokes (b : Bindings α) : b.strokes.map Stroke.sequence = b.sequences :=
  List.map_map

theorem isSome_value?_iff : (b.value? s).isSome = true ↔ s ∈ b.sequences := by
  rw [value?, get?, Option.isSome_map, List.find?_isSome, sequences, List.mem_map]
  simp only [Stroke.same, Stroke.sequence_ofSequence, beq_iff_eq]

theorem contains_eq (b : Bindings α) (stroke : Stroke) :
    b.contains stroke = (b.value? stroke.sequence).isSome := by
  rw [← b.get?_eq_value?, get?, Option.isSome_map, contains, Bool.eq_iff_iff, List.any_eq_true,
    List.find?_isSome]

/-! ## Finite maps -/

/-- No sequence is bound twice, and the empty one never. -/
structure IsMap (b : Bindings α) : Prop where
  nonempty : [] ∉ b.sequences
  distinct : b.sequences.Nodup

theorem IsMap.of_perm (h : b.IsMap) (hperm : after.entries.Perm b.entries) : after.IsMap := by
  have hsequences : after.sequences.Perm b.sequences := hperm.map _
  exact ⟨mt hsequences.mem_iff.mp h.nonempty, hsequences.nodup_iff.mpr h.distinct⟩

/-- A sequence has the value of its entry. -/
theorem IsMap.value?_eq_some_iff (h : b.IsMap) :
    b.value? s = some value ↔ ∃ bound, (bound, value) ∈ b.entries ∧ bound.sequence = s := by
  constructor
  · exact exists_of_get?
  · rintro ⟨bound, hmem, rfl⟩
    have hbound : (b.value? bound.sequence).isSome = true :=
      isSome_value?_iff.mpr (List.mem_map_of_mem (f := fun entry => entry.1.sequence) hmem)
    obtain ⟨found, hfound⟩ := Option.isSome_iff_exists.mp hbound
    obtain ⟨other, hother, hsequence⟩ := exists_of_get? hfound
    rw [hfound, (Prod.mk.inj (List.inj_on_of_nodup_map h.distinct hother hmem hsequence)).2]

/-- **The order of the entries does not matter.** -/
theorem IsMap.value?_of_perm (h : b.IsMap) (hperm : after.entries.Perm b.entries) :
    after.value? = b.value? := by
  funext s
  ext value
  simp only [h.value?_eq_some_iff, (h.of_perm hperm).value?_eq_some_iff, hperm.mem_iff]

/-! ## Changes of a table -/

/-- A change of a table that is being made. -/
inductive Change (α : Type)
  | bind (key : Key) (value : α)
  | bindSequence (sequence : Text) (value : α)
  | rebind (old new : Stroke)
  /-- The table is frozen, and thawed again. -/
  | refreeze

/-- Makes a change, or says why not. -/
def change (b : Bindings α) : Change α → Except BindingError (Bindings α)
  | .bind key value => b.bind (.ofKey key) value
  | .bindSequence sequence value => b.bindSequence sequence value
  | .rebind old new => b.rebind old new
  | .refreeze => .ok (Keymap.ofBindings b).bindings

/-- The table after a change, which is as it was if the change is refused. -/
def attempt (b : Bindings α) (c : Change α) : Bindings α :=
  match b.change c with
  | .ok after => after
  | .error _ => b

namespace Change

/-- The value that a change binds, if it binds one. -/
def bound? : Change α → Option α
  | bind _ value => some value
  | bindSequence _ value => some value
  | rebind _ _ => none
  | refreeze => none

/-- A map with one more sequence, which has to be a new one. -/
def extend (m : Text → Option α) (sequence : Text) (value : α) :
    Except BindingError (Text → Option α) :=
  if sequence = [] then .error .empty
  else if (m sequence).isSome then .error (.duplicate (caretText sequence))
  else .ok (Function.update m sequence (some value))

/-- What a finite map makes of a change. -/
def onMap (m : Text → Option α) : Change α → Except BindingError (Text → Option α)
  | bind key value => extend m key.sequence value
  | bindSequence sequence value => extend m sequence value
  | rebind old new =>
    if old.sequence = new.sequence then .ok m
    else
      match m old.sequence with
      | none => .error (.missing (caretText old.sequence))
      | some value => extend (Function.update m old.sequence none) new.sequence value
  | refreeze => .ok m

/-- The map after a change, which is as it was if the change is refused. -/
def attempt (m : Text → Option α) (c : Change α) : Text → Option α :=
  match c.onMap m with
  | .ok after => after
  | .error _ => m

/-- The map that changes lead to, from one in which nothing is bound. -/
def mapAfter (changes : List (Change α)) : Text → Option α := changes.foldl attempt fun _ => none

section Others

variable {m next : Text → Option α} {sequence : Text} {other : α}

theorem extend_of_some (h : m s = some value) (hextend : extend m sequence other = .ok next) :
    next s = some value := by
  rw [extend] at hextend
  split at hextend
  · cases hextend
  · split at hextend
    · cases hextend
    · next hfree =>
      cases hextend
      have hne : s ≠ sequence := by
        rintro rfl
        exact hfree (h ▸ rfl)
      rw [Function.update_of_ne hne, h]

/-- A bound sequence keeps its value unless it is moved. -/
theorem attempt_of_some {c : Change α} (h : m s = some value)
    (hmoved : ∀ old new, c = .rebind old new → old.sequence ≠ s) : attempt m c s = some value := by
  rw [attempt]
  cases hnext : c.onMap m with
  | error => exact h
  | ok next =>
    cases c with
    | bind key other => exact extend_of_some h hnext
    | bindSequence sequence other => exact extend_of_some h hnext
    | rebind old new =>
      rw [onMap] at hnext
      split at hnext
      · cases hnext
        exact h
      · split at hnext
        · cases hnext
        · refine extend_of_some ?_ hnext
          rw [Function.update_of_ne (hmoved old new rfl).symm, h]
    | refreeze =>
      cases hnext
      exact h

end Others

end Change

/-! ### One more entry -/

theorem obstacle?_eq (b : Bindings α) (stroke : Stroke) :
    b.obstacle? stroke =
      if stroke.sequence = [] then some .empty
      else if (b.value? stroke.sequence).isSome then
        some (.duplicate (caretText stroke.sequence))
      else none := by
  rw [obstacle?, contains_eq]

theorem obstacle?_eq_none_iff :
    b.obstacle? stroke = none ↔ stroke.sequence ≠ [] ∧ stroke.sequence ∉ b.sequences := by
  rw [obstacle?_eq, ← isSome_value?_iff]
  split
  · next hnil => simp [hnil]
  · next hne =>
    split
    · next hbound => simp [hbound]
    · next hfree => simp [hne, hfree]

theorem IsMap.append (h : b.IsMap) (hfree : b.obstacle? stroke = none) (value : α) :
    IsMap ⟨b.entries ++ [(stroke, value)]⟩ := by
  obtain ⟨hne, hnew⟩ := obstacle?_eq_none_iff.mp hfree
  have hsequences : sequences ⟨b.entries ++ [(stroke, value)]⟩ = b.sequences ++ [stroke.sequence] :=
    List.map_append
  refine ⟨?_, ?_⟩
  · rw [hsequences, List.mem_append, List.mem_singleton]
    exact not_or.mpr ⟨h.nonempty, hne.symm⟩
  · rw [hsequences, List.nodup_append_comm]
    exact List.nodup_cons.mpr ⟨hnew, h.distinct⟩

/-- A new entry binds its own sequence and no other. -/
theorem value?_append (hfree : b.obstacle? stroke = none) (value : α) :
    value? ⟨b.entries ++ [(stroke, value)]⟩ =
      Function.update b.value? stroke.sequence (some value) := by
  obtain ⟨-, hnew⟩ := obstacle?_eq_none_iff.mp hfree
  rw [← isSome_value?_iff, Option.not_isSome_iff_eq_none] at hnew
  funext s
  have hsplit : value? ⟨b.entries ++ [(stroke, value)]⟩ s =
      (b.value? s).or (if stroke.sequence = s then some value else none) := by
    rw [value?, value?, get?, get?, List.find?_append, Option.map_or, List.find?_singleton]
    congr 1
    by_cases hs : stroke.sequence = s <;> simp [Stroke.same, hs]
  rw [hsplit]
  by_cases hs : s = stroke.sequence
  · rw [hs, hnew, Function.update_self, if_pos rfl]
    rfl
  · rw [Function.update_of_ne hs, if_neg (Ne.symm hs), Option.or_none]

/-! ### A keystroke in the place of another -/

/-- An entry with another keystroke in the place of one. -/
def rename (old new : Stroke) (entry : Stroke × α) : Stroke × α :=
  if entry.1.same old then (new, entry.2) else entry

theorem rename_of_eq {old : Stroke} (new : Stroke) {entry : Stroke × α}
    (h : entry.1.sequence = old.sequence) : rename old new entry = (new, entry.2) :=
  if_pos (beq_iff_eq.mpr h)

theorem rename_of_ne {old : Stroke} (new : Stroke) {entry : Stroke × α}
    (h : entry.1.sequence ≠ old.sequence) : rename old new entry = entry :=
  if_neg (mt beq_iff_eq.mp h)

theorem IsMap.map_rename (h : b.IsMap) {old new : Stroke} (hfree : b.obstacle? new = none) :
    IsMap ⟨b.entries.map (rename old new)⟩ := by
  obtain ⟨hne, hnew⟩ := obstacle?_eq_none_iff.mp hfree
  have hsequences : sequences ⟨b.entries.map (rename old new)⟩ =
      b.sequences.map fun s => if s = old.sequence then new.sequence else s := by
    rw [sequences, sequences, List.map_map, List.map_map]
    refine List.map_congr_left fun entry _ => ?_
    by_cases hold : entry.1.sequence = old.sequence
    · simp only [Function.comp_apply, rename_of_eq new hold, hold, if_true]
    · simp only [Function.comp_apply, rename_of_ne new hold, hold, if_false]
  refine ⟨?_, ?_⟩
  · rw [hsequences, List.mem_map]
    rintro ⟨s, hs, hnil⟩
    split at hnil
    · exact hne hnil
    · exact h.nonempty (hnil ▸ hs)
  · -- The new sequence is none of the others, so renaming keeps them apart.
    rw [hsequences]
    refine h.distinct.map_on fun s hs t ht heq => ?_
    split at heq <;> split at heq
    · next hsold htold => rw [hsold, htold]
    · exact absurd (heq ▸ ht) hnew
    · exact absurd (heq ▸ hs) hnew
    · exact heq

/-- What is there after renaming is the new keystroke, or was there before. -/
theorem mem_map_rename {entries : List (Stroke × α)} {old new bound : Stroke} :
    (bound, value) ∈ entries.map (rename old new) ↔
      (bound = new ∧ ∃ before, (before, value) ∈ entries ∧ before.sequence = old.sequence) ∨
        (bound, value) ∈ entries ∧ bound.sequence ≠ old.sequence := by
  rw [List.mem_map]
  constructor
  · rintro ⟨⟨before, found⟩, hbefore, hrename⟩
    by_cases hold : before.sequence = old.sequence
    · rw [rename_of_eq new hold] at hrename
      cases hrename
      exact .inl ⟨rfl, before, hbefore, hold⟩
    · rw [rename_of_ne new hold] at hrename
      cases hrename
      exact .inr ⟨hbefore, hold⟩
  · rintro (⟨rfl, before, hbefore, hold⟩ | ⟨hbound, hold⟩)
    · exact ⟨_, hbefore, rename_of_eq _ hold⟩
    · exact ⟨_, hbound, rename_of_ne new hold⟩

/-- Renaming moves a value from one sequence to the other. -/
theorem IsMap.value?_map_rename (h : b.IsMap) {old new : Stroke}
    (hfree : b.obstacle? new = none) :
    value? ⟨b.entries.map (rename old new)⟩ =
      Function.update (Function.update b.value? old.sequence none) new.sequence
        (b.value? old.sequence) := by
  have hrenamed : IsMap ⟨b.entries.map (rename old new)⟩ := h.map_rename hfree
  obtain ⟨-, hnew⟩ := obstacle?_eq_none_iff.mp hfree
  have hothers : ∀ bound value, (bound, value) ∈ b.entries → bound.sequence ≠ new.sequence := by
    intro bound value hbound heq
    exact hnew (heq ▸ List.mem_map_of_mem (f := fun entry => entry.1.sequence) hbound)
  funext s
  ext value
  simp only [hrenamed.value?_eq_some_iff, mem_map_rename]
  by_cases hsnew : s = new.sequence
  · rw [hsnew, Function.update_self, h.value?_eq_some_iff]
    constructor
    · rintro ⟨bound, ⟨-, hmoved⟩ | ⟨hbound, -⟩, hsequence⟩
      · exact hmoved
      · exact absurd hsequence (hothers bound value hbound)
    · intro hmoved
      exact ⟨new, .inl ⟨rfl, hmoved⟩, rfl⟩
  · rw [Function.update_of_ne hsnew]
    by_cases hsold : s = old.sequence
    · rw [hsold, Function.update_self]
      refine iff_of_false ?_ (Option.some_ne_none value).symm
      rintro ⟨bound, ⟨rfl, -⟩ | ⟨-, hne⟩, hsequence⟩
      · exact hsnew (hsold.trans hsequence.symm)
      · exact hne hsequence
    · rw [Function.update_of_ne hsold, h.value?_eq_some_iff]
      constructor
      · rintro ⟨bound, ⟨rfl, -⟩ | ⟨hbound, -⟩, hsequence⟩
        · exact absurd hsequence.symm hsnew
        · exact ⟨bound, hbound, hsequence⟩
      · rintro ⟨bound, hbound, hsequence⟩
        exact ⟨bound, .inr ⟨hbound, fun hold => hsold (hsequence.symm.trans hold)⟩, hsequence⟩

/-! ### Every change -/

theorem Change.extend_eq {m : Text → Option α} (hm : m stroke.sequence = b.value? stroke.sequence)
    (value : α) :
    extend m stroke.sequence value =
      match b.obstacle? stroke with
      | some error => .error error
      | none => .ok (Function.update m stroke.sequence (some value)) := by
  rw [extend, obstacle?_eq, hm]
  split
  · rfl
  · split <;> rfl

/-- Binding a keystroke is extending the map. -/
theorem map_value?_bind (b : Bindings α) (stroke : Stroke) (value : α) :
    (b.bind stroke value).map value? = Change.extend b.value? stroke.sequence value := by
  rw [Change.extend_eq rfl, bind]
  cases hfree : b.obstacle? stroke with
  | some error => rfl
  | none => exact congrArg Except.ok (value?_append hfree value)

theorem IsMap.map_value?_rebind (h : b.IsMap) (old new : Stroke) :
    (b.rebind old new).map value? = Change.onMap b.value? (.rebind old new) := by
  rw [rebind, Change.onMap]
  by_cases hsame : old.sequence = new.sequence
  · have hsame' : old.same new = true := beq_iff_eq.mpr hsame
    rw [if_pos hsame, if_pos hsame']
    rfl
  · have hsame' : ¬ old.same new = true := mt beq_iff_eq.mp hsame
    rw [if_neg hsame, if_neg hsame', contains_eq]
    cases hvalue : b.value? old.sequence with
    | none => rfl
    | some value =>
      have hnew : Function.update b.value? old.sequence none new.sequence =
          b.value? new.sequence := Function.update_of_ne (Ne.symm hsame) _ _
      dsimp only
      rw [Change.extend_eq hnew, if_neg (by simp)]
      cases hfree : b.obstacle? new with
      | some error => rfl
      | none =>
        refine congrArg Except.ok ((h.value?_map_rename hfree).trans ?_)
        rw [hvalue]

/-- **A change of a table is a change of its map**, and is refused for the same reason. -/
theorem IsMap.map_value?_change (h : b.IsMap) (c : Change α) :
    (b.change c).map value? = c.onMap b.value? := by
  cases c with
  | bind key value => exact b.map_value?_bind (.ofKey key) value
  | bindSequence sequence value => exact b.map_value?_bind (.ofSequence sequence) value
  | rebind old new => exact h.map_value?_rebind old new
  | refreeze => rfl

/-- What a change makes of a table if it is not refused. -/
inductive Changed (b : Bindings α) : Change α → Bindings α → Prop
  | same {c : Change α} : Changed b c b
  | added {c : Change α} {stroke : Stroke} {value : α} (bound : c.bound? = some value)
      (free : b.obstacle? stroke = none) : Changed b c ⟨b.entries ++ [(stroke, value)]⟩
  | moved {old new : Stroke} (free : b.obstacle? new = none) :
      Changed b (.rebind old new) ⟨b.entries.map (rename old new)⟩

theorem eq_of_bind (hbind : b.bind stroke value = .ok after) :
    b.obstacle? stroke = none ∧ after = ⟨b.entries ++ [(stroke, value)]⟩ := by
  rw [bind] at hbind
  split at hbind
  · cases hbind
  · next hfree =>
    cases hbind
    exact ⟨hfree, rfl⟩

theorem changed {c : Change α} (hchange : b.change c = .ok after) : b.Changed c after := by
  cases c with
  | bind key value =>
    obtain ⟨hfree, rfl⟩ := eq_of_bind hchange
    exact .added rfl hfree
  | bindSequence sequence value =>
    obtain ⟨hfree, rfl⟩ := eq_of_bind hchange
    exact .added rfl hfree
  | rebind old new =>
    rw [change, rebind] at hchange
    split at hchange
    · cases hchange
      exact .same
    · split at hchange
      · cases hchange
      · split at hchange
        · cases hchange
        · next hfree =>
          cases hchange
          exact .moved hfree
  | refreeze =>
    cases hchange
    exact .same

/-- **A change keeps the sequences of a table apart.** -/
theorem IsMap.change (h : b.IsMap) {c : Change α} (hchange : b.change c = .ok after) :
    after.IsMap := by
  cases changed hchange with
  | same => exact h
  | added _ free => exact h.append free _
  | moved free => exact h.map_rename free

theorem isMap_nil : (nil : Bindings α).IsMap := ⟨List.not_mem_nil, List.nodup_nil⟩

theorem IsMap.attempt (h : b.IsMap) (c : Change α) : (b.attempt c).IsMap := by
  rw [Bindings.attempt]
  split
  · next hchange => exact h.change hchange
  · exact h

theorem IsMap.value?_attempt (h : b.IsMap) (c : Change α) :
    (b.attempt c).value? = Change.attempt b.value? c := by
  rw [Bindings.attempt, Change.attempt, ← h.map_value?_change]
  cases b.change c <;> rfl

/-- The table that changes lead to, from one in which nothing is bound. -/
def afterChanges (changes : List (Change α)) : Bindings α := changes.foldl attempt nil

/-- **Changes lead to a finite map**, and to the one that they lead a map to. -/
theorem isMap_afterChanges (changes : List (Change α)) :
    (afterChanges changes).IsMap ∧ (afterChanges changes).value? = Change.mapAfter changes := by
  have hrun : ∀ b : Bindings α, b.IsMap → (changes.foldl attempt b).IsMap ∧
      (changes.foldl attempt b).value? = changes.foldl Change.attempt b.value? := by
    induction changes with
    | nil => exact fun b h => ⟨h, rfl⟩
    | cons c rest ih =>
      intro b h
      obtain ⟨hmap, hvalue⟩ := ih (b.attempt c) (h.attempt c)
      exact ⟨hmap, hvalue.trans (by rw [h.value?_attempt, List.foldl_cons])⟩
  exact hrun nil isMap_nil

/-! ## Frozen tables -/

/-- The trie of a table counts its entries. -/
theorem IsMap.count_trie (h : b.IsMap) : (Keymap.ofBindings b).trie.count = b.length := by
  rw [Keymap.trie_ofBindings, Trie.count_ofList, map_sequence_strokes,
    List.toFinset_card_of_nodup h.distinct]
  exact List.length_map _

/-- **A sequence is bound exactly if the trie of the table resolves it to itself.** -/
theorem IsMap.resolve_trie_iff (h : b.IsMap) :
    (∃ stroke, (Keymap.ofBindings b).trie.resolve s = .matched stroke ∧ stroke.sequence = s) ↔
      (b.value? s).isSome = true := by
  rw [Keymap.trie_ofBindings, Trie.resolve_eq_matched_iff, map_sequence_strokes, isSome_value?_iff]
  exact and_iff_right_of_imp fun hmem hnil => h.nonempty (hnil ▸ hmem)

/-- The order of the entries does not matter to the trie. -/
theorem IsMap.resolve_trie_of_perm (h : b.IsMap) (hperm : after.entries.Perm b.entries)
    (input : Text) :
    (Keymap.ofBindings after).trie.resolve input = (Keymap.ofBindings b).trie.resolve input := by
  refine Trie.resolve_of_perm (hperm.map Prod.fst) ?_ input
  change (b.strokes.map Stroke.sequence).Nodup
  rw [map_sequence_strokes]
  exact h.distinct

/-! ## What holds of every value -/

/-- Every value has a property. -/
def All (P : α → Prop) (b : Bindings α) : Prop := ∀ entry ∈ b.entries, P entry.2

variable {P : α → Prop}

/-- **A change makes no values** but the one that it binds. -/
theorem All.attempt (h : b.All P) {c : Change α}
    (hbound : ∀ value, c.bound? = some value → P value) : (b.attempt c).All P := by
  rw [Bindings.attempt]
  split
  · next hchange =>
    cases changed hchange with
    | same => exact h
    | added bound _ =>
      intro entry hentry
      rcases List.mem_append.mp hentry with hbefore | hlast
      · exact h entry hbefore
      · rw [List.mem_singleton.mp hlast]
        exact hbound _ bound
    | moved =>
      rintro ⟨bound, value⟩ hentry
      rcases mem_map_rename.mp hentry with ⟨-, before, hbefore, -⟩ | ⟨hbound, -⟩
      · exact h (before, value) hbefore
      · exact h (bound, value) hbound
  · exact h

end Bindings

end PromptLine
