import Mathlib.Data.List.Destutter
import Mathlib.Data.List.DropRight
import PromptLine.Proofs.History.Invariant

/-!
# What is left of the lines that were recorded

A history is fed line by line, and each line is looked at together with the newest entry only.
Still, what it holds in the end can be said of all the lines together: the blank ones are dropped,
lines that repeat their neighbour are collapsed, and the last few are kept.  `recorded` says so, and
`entries_push_eq_recorded` that one more line leads from one such list to the next.
-/

namespace PromptLine

/-! ## Collapsing runs of equal neighbours -/

section Destutter

variable {α : Type} [DecidableEq α]

theorem destutter'_ne_append_singleton (b a : α) (xs : List α) :
    (xs ++ [a]).destutter' (· ≠ ·) b =
      if (b :: xs).getLast? = some a then xs.destutter' (· ≠ ·) b
      else xs.destutter' (· ≠ ·) b ++ [a] := by
  induction xs generalizing b with
  | nil =>
    have hlast : [b].getLast? = some a ↔ b = a := Option.some_inj
    rw [List.nil_append, if_congr hlast rfl rfl]
    by_cases hsame : b = a
    · rw [if_pos hsame, List.destutter'_cons_neg _ (not_not.2 hsame)]
    · rw [if_neg hsame, List.destutter'_cons_pos _ hsame]
      rfl
  | cons c rest ih =>
    rw [List.cons_append, List.getLast?_cons_cons]
    by_cases hsame : b = c
    · subst hsame
      rw [List.destutter'_cons_neg _ (not_not.2 rfl),
        List.destutter'_cons_neg _ (not_not.2 rfl), ih]
    · rw [List.destutter'_cons_pos _ hsame, List.destutter'_cons_pos _ hsame, ih,
        apply_ite (b :: ·)]
      rfl

/-- Of the runs of equal neighbours only the last can become longer, by an element that it holds
already. -/
theorem destutter_ne_append_singleton (xs : List α) (a : α) :
    (xs ++ [a]).destutter (· ≠ ·) =
      if xs.getLast? = some a then xs.destutter (· ≠ ·) else xs.destutter (· ≠ ·) ++ [a] := by
  cases xs with
  | nil => rfl
  | cons b rest => exact destutter'_ne_append_singleton b a rest

theorem getLast?_destutter_ne (xs : List α) :
    (xs.destutter (· ≠ ·)).getLast? = xs.getLast? := by
  induction xs using List.reverseRecOn with
  | nil => rfl
  | append_singleton rest a ih =>
    rw [destutter_ne_append_singleton, List.getLast?_concat]
    split
    · next hlast => exact ih.trans hlast
    · exact List.getLast?_concat

end Destutter

/-! ## The entries of a history -/

namespace History

/-- What a history with the given limit keeps of lines that are recorded one after another. -/
def recorded (limit : Nat) (lines : List Text) : List Text :=
  ((lines.filter fun line => !isBlankLine line).destutter (· ≠ ·)).rtake limit

theorem recorded_nil (limit : Nat) : recorded limit [] = [] := List.rtake_nil limit

/-- The newest of the lines that are kept, if any are. -/
theorem getLast?_rtake {limit : Nat} (hlimit : limit ≠ 0) (lines : List Text) :
    (lines.rtake limit).getLast? = lines.getLast? := by
  induction lines using List.reverseRecOn with
  | nil => rw [List.rtake_nil]
  | append_singleton rest line _ =>
    obtain ⟨others, rfl⟩ := Nat.exists_eq_succ_of_ne_zero hlimit
    rw [List.rtake_concat_succ, List.getLast?_concat, List.getLast?_concat]

variable {h : History} {lines : List Text}

/-- **One more line.**  A history that holds what is kept of some lines, and is given another line,
holds what is kept of all of them. -/
theorem entries_push_eq_recorded (hentries : h.entries = recorded h.limit lines) (line : Text) :
    (h.push line).entries = recorded h.limit (lines ++ [line]) := by
  rw [recorded] at hentries ⊢
  rw [List.filter_append]
  by_cases hblank : isBlankLine line = true
  · rw [entries_push_of_declines (.inl hblank), List.filter_cons_of_neg (by rw [hblank]; decide),
      List.filter_nil, List.append_nil]
    exact hentries
  rw [List.filter_cons_of_pos (by rw [Bool.eq_false_iff.mpr hblank]; decide), List.filter_nil,
    destutter_ne_append_singleton]
  generalize lines.filter (fun line => !isBlankLine line) = nonblank at hentries ⊢
  by_cases hlimit : h.limit = 0
  · rw [entries_push_of_declines (.inr (.inr hlimit)), hentries, hlimit, List.rtake_zero,
      List.rtake_zero]
  -- the newest entry is the last of the lines so far
  have hnewest : h.entries.getLast? = nonblank.getLast? := by
    rw [hentries, getLast?_rtake hlimit, getLast?_destutter_ne]
  split
  · next hlast => rw [entries_push_of_declines (.inr (.inl (hnewest.trans hlast))), hentries]
  · next hlast =>
    have htakes : ¬h.Declines line := by
      rintro (hblank' | hsame | hzero)
      · exact hblank hblank'
      · exact hlast (hnewest.symm.trans hsame)
      · exact hlimit hzero
    have hsize : h.size = (nonblank.destutter (· ≠ ·)).length -
        ((nonblank.destutter (· ≠ ·)).length - h.limit) := by
      rw [size, hentries, List.rtake, List.length_drop]
    obtain ⟨others, hothers⟩ := Nat.exists_eq_succ_of_ne_zero hlimit
    rw [entries_push (by omega) htakes, hsize, hentries, hothers, List.rtake_concat_succ, List.rtake,
      List.rtake, List.drop_drop]
    congr 2
    omega

end History

end PromptLine
