import PromptLine.Mode
import PromptLine.Proofs.Key.FiniteMap

/-!
# The usual modal table, declaration by declaration

The usual bindings of the modal dispatcher are declared entry by entry, and the entries of one key
are put together afterwards.  This loses nothing and mixes nothing up: every entry belongs to the
key that it was declared for, no key is there twice, and an entry that is looked up is the first
that was declared for its key and status.

So what the table says can be read off the declarations, which is also the quicker way to check it.
-/

namespace PromptLine

theorem Entries.of_for? {entries : Entries} {status : Status} {entry : Entry}
    (h : entries.for? status = some entry) : entry ∈ entries ∧ entry.required = status := by
  have hrequired := List.find?_some h
  exact ⟨List.mem_of_find?_eq_some h, eq_of_beq hrequired⟩

namespace Vi

variable {groups : List (Stroke × Entries)} {P : Text → Entry → Prop}

/-! ## Looking entries up -/

/-- The entry of a sequence in a status. -/
def entryOf (b : Bindings Entries) (status : Status) (sequence : Text) : Option Entry :=
  (b.get? (.ofSequence sequence)).bind fun entries => entries.for? status

theorem bind_get?_eq_entryOf (b : Bindings Entries) (status : Status) (stroke : Stroke) :
    ((b.get? stroke).bind fun entries => entries.for? status) =
      entryOf b status stroke.sequence := by
  rw [entryOf, b.get?_congr (Stroke.sequence_ofSequence stroke.sequence).symm]

theorem exists_of_entryOf {b : Bindings Entries} {status : Status} {sequence : Text} {entry : Entry}
    (h : entryOf b status sequence = some entry) :
    entry.required = status ∧ ∃ bound entries, (bound, entries) ∈ b.entries ∧
      bound.sequence = sequence ∧ entry ∈ entries := by
  obtain ⟨entries, hget, hfor⟩ := Option.bind_eq_some_iff.mp h
  obtain ⟨bound, hmem, hsequence⟩ := Bindings.exists_of_get? hget
  obtain ⟨hentry, hrequired⟩ := Entries.of_for? hfor
  exact ⟨hrequired, bound, entries, hmem, hsequence, hentry⟩

/-! ## One declaration -/

theorem forall_group (hgroups : ∀ binding ∈ groups, ∀ entry ∈ binding.2, P binding.1.sequence entry)
    {declaration : Declaration} (hnew : P declaration.1.sequence declaration.2) :
    ∀ binding ∈ group groups declaration, ∀ entry ∈ binding.2, P binding.1.sequence entry := by
  induction groups with
  | nil =>
    intro binding hbinding entry hentry
    rw [List.mem_singleton.mp hbinding] at hentry ⊢
    rwa [List.mem_singleton.mp hentry]
  | cons first rest ih =>
    obtain ⟨hfirst, hrest⟩ := List.forall_mem_cons.mp hgroups
    rw [group]
    split
    · next hsame =>
      refine List.forall_mem_cons.mpr ⟨fun entry hentry => ?_, hrest⟩
      rcases List.mem_append.mp hentry with hbefore | hlast
      · exact hfirst entry hbefore
      · rw [List.mem_singleton.mp hlast]
        exact eq_of_beq hsame ▸ hnew
    · exact List.forall_mem_cons.mpr ⟨hfirst, ih hrest⟩

/-- A declaration brings a sequence to the end, or none if its key is there. -/
theorem sequences_group (groups : List (Stroke × Entries)) (declaration : Declaration) :
    Bindings.sequences ⟨group groups declaration⟩ =
      if declaration.1.sequence ∈ Bindings.sequences ⟨groups⟩ then Bindings.sequences ⟨groups⟩
      else Bindings.sequences ⟨groups⟩ ++ [declaration.1.sequence] := by
  induction groups with
  | nil => rfl
  | cons first rest ih =>
    have hcons : ∀ tail, Bindings.sequences ⟨first :: tail⟩ =
        first.1.sequence :: Bindings.sequences ⟨tail⟩ := fun _ => rfl
    rw [group]
    split
    · next hsame =>
      rw [hcons, if_pos (List.mem_cons.mpr (.inl (eq_of_beq hsame).symm))]
      rfl
    · next hother =>
      have hne : declaration.1.sequence ≠ first.1.sequence :=
        fun h => hother (beq_iff_eq.mpr h.symm)
      rw [hcons, hcons, ih]
      simp only [List.mem_cons, or_iff_right hne]
      split <;> rfl

/-- The entry of a sequence, key by key. -/
theorem entryOf_cons (first : Stroke × Entries) (rest : List (Stroke × Entries)) (status : Status)
    (sequence : Text) :
    entryOf ⟨first :: rest⟩ status sequence =
      if first.1.sequence = sequence then first.2.for? status
      else entryOf ⟨rest⟩ status sequence := by
  rw [entryOf, entryOf, Bindings.get?_cons, Stroke.same, Stroke.sequence_ofSequence]
  by_cases hsame : first.1.sequence = sequence
  · rw [if_pos (beq_iff_eq.mpr hsame), if_pos hsame]
    rfl
  · rw [if_neg (mt eq_of_beq hsame), if_neg hsame]

/-- Whether the declaration is one for the key in the status. -/
def Declaration.isFor (declaration : Declaration) (status : Status) (sequence : Text) : Bool :=
  declaration.1.sequence == sequence && declaration.2.required == status

/-- The declared entry is found where none was found before. -/
theorem entryOf_group (groups : List (Stroke × Entries)) (declaration : Declaration)
    (status : Status) (sequence : Text) :
    entryOf ⟨group groups declaration⟩ status sequence =
      (entryOf ⟨groups⟩ status sequence).or
        (if declaration.isFor status sequence then some declaration.2 else none) := by
  have hsingle : Entries.for? [declaration.2] status =
      if declaration.2.required == status then some declaration.2 else none := by
    rw [Entries.for?, List.find?_cons]
    cases declaration.2.required == status <;> rfl
  induction groups with
  | nil =>
    have hnil : entryOf ⟨[]⟩ status sequence = none := rfl
    rw [group, entryOf_cons, hsingle, hnil, Option.none_or, Declaration.isFor]
    by_cases hsame : declaration.1.sequence = sequence
    · rw [if_pos hsame, beq_iff_eq.mpr hsame, Bool.true_and]
    · rw [if_neg hsame, beq_false_of_ne hsame]
      rfl
  | cons first rest ih =>
    rw [group]
    split
    · next hkey =>
      have hkey : first.1.sequence = declaration.1.sequence := eq_of_beq hkey
      rw [entryOf_cons, entryOf_cons, Declaration.isFor, ← hkey]
      dsimp only
      by_cases hsame : first.1.sequence = sequence
      · rw [if_pos hsame, if_pos hsame, beq_iff_eq.mpr hsame, Bool.true_and, ← hsingle]
        exact List.find?_append
      · rw [if_neg hsame, if_neg hsame, beq_false_of_ne hsame]
        exact (Option.or_none).symm
    · next hother =>
      have hother : first.1.sequence ≠ declaration.1.sequence := fun h => hother (beq_iff_eq.mpr h)
      rw [entryOf_cons, entryOf_cons, ih]
      split
      · next hsame =>
        rw [Declaration.isFor, beq_false_of_ne (hsame ▸ hother.symm)]
        exact (Option.or_none).symm
      · rfl

/-! ## All declarations -/

theorem forall_foldl_group {declarations : List Declaration}
    (hgroups : ∀ binding ∈ groups, ∀ entry ∈ binding.2, P binding.1.sequence entry)
    (hnew : ∀ declaration ∈ declarations, P declaration.1.sequence declaration.2) :
    ∀ binding ∈ declarations.foldl group groups, ∀ entry ∈ binding.2,
      P binding.1.sequence entry := by
  induction declarations generalizing groups with
  | nil => exact hgroups
  | cons first rest ih =>
    obtain ⟨hfirst, hrest⟩ := List.forall_mem_cons.mp hnew
    exact ih (forall_group hgroups hfirst) hrest

/-- **What holds of all declarations holds of all entries.** -/
theorem forall_entries_defaults
    (h : ∀ declaration ∈ declarations, P declaration.1.sequence declaration.2) :
    ∀ binding ∈ defaults.entries, ∀ entry ∈ binding.2, P binding.1.sequence entry := by
  have hnil : ∀ binding ∈ ([] : List (Stroke × Entries)), ∀ entry ∈ binding.2,
      P binding.1.sequence entry := fun _ hbinding => absurd hbinding List.not_mem_nil
  rw [defaults]
  dsimp only
  exact forall_foldl_group hnil h

theorem nodup_sequences_foldl_group (declarations : List Declaration)
    (h : (Bindings.sequences ⟨groups⟩).Nodup) :
    (Bindings.sequences ⟨declarations.foldl group groups⟩).Nodup := by
  induction declarations generalizing groups with
  | nil => exact h
  | cons first rest ih =>
    refine ih ?_
    rw [sequences_group]
    split
    · exact h
    · next hnew => exact h.append (List.nodup_singleton _) (List.disjoint_singleton.mpr hnew)

/-- **No key is bound twice.** -/
theorem nodup_sequences_defaults : defaults.sequences.Nodup := by
  have hnil : (Bindings.sequences (α := Entries) ⟨[]⟩).Nodup := List.nodup_nil
  rw [defaults]
  exact nodup_sequences_foldl_group declarations hnil

theorem mem_sequences_foldl_group {declarations : List Declaration} {sequence : Text} :
    sequence ∈ Bindings.sequences ⟨declarations.foldl group groups⟩ ↔
      sequence ∈ Bindings.sequences ⟨groups⟩ ∨
        ∃ declaration ∈ declarations, declaration.1.sequence = sequence := by
  induction declarations generalizing groups with
  | nil => simp
  | cons first rest ih =>
    have hgroup : sequence ∈ Bindings.sequences ⟨group groups first⟩ ↔
        sequence ∈ Bindings.sequences ⟨groups⟩ ∨ first.1.sequence = sequence := by
      rw [sequences_group]
      split
      · next hbound =>
        exact (or_iff_left_of_imp fun hsame => hsame ▸ hbound).symm
      · rw [List.mem_append, List.mem_singleton, eq_comm (a := sequence)]
    rw [List.foldl_cons, ih, hgroup, List.exists_mem_cons_iff, or_assoc]

/-- The keys are those that have a declaration. -/
theorem mem_sequences_defaults {sequence : Text} :
    sequence ∈ defaults.sequences ↔
      ∃ declaration ∈ declarations, declaration.1.sequence = sequence := by
  have hnil : sequence ∉ Bindings.sequences (α := Entries) ⟨[]⟩ := List.not_mem_nil
  rw [defaults, mem_sequences_foldl_group]
  exact or_iff_right hnil

/-- What holds of all declared keys holds of all keys. -/
theorem forall_strokes_defaults {Q : Text → Prop}
    (h : ∀ declaration ∈ declarations, Q declaration.1.sequence) :
    ∀ stroke ∈ defaults.strokes, Q stroke.sequence := by
  intro stroke hstroke
  have hmem : stroke.sequence ∈ defaults.sequences :=
    defaults.map_sequence_strokes ▸ List.mem_map_of_mem hstroke
  obtain ⟨declaration, hdeclared, hsequence⟩ := mem_sequences_defaults.mp hmem
  exact hsequence ▸ h declaration hdeclared

theorem entryOf_foldl_group (declarations : List Declaration) (groups : List (Stroke × Entries))
    (status : Status) (sequence : Text) :
    entryOf ⟨declarations.foldl group groups⟩ status sequence =
      (entryOf ⟨groups⟩ status sequence).or
        ((declarations.find? (·.isFor status sequence)).map (·.2)) := by
  induction declarations generalizing groups with
  | nil => exact (Option.or_none).symm
  | cons first rest ih =>
    rw [List.foldl_cons, ih, entryOf_group, Option.or_assoc, List.find?_cons]
    cases first.isFor status sequence <;> rfl

/-- **An entry is looked up among the declarations.** -/
theorem entryOf_defaults (status : Status) (sequence : Text) :
    entryOf defaults status sequence =
      (declarations.find? (·.isFor status sequence)).map (·.2) :=
  entryOf_foldl_group declarations [] status sequence

end Vi

end PromptLine
