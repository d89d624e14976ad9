import Mathlib.Data.Finset.Card
import Mathlib.Data.Finset.Insert
import PromptLine.Key.Trie

/-!
# What a trie holds

A trie is a finite map from sequences to keystrokes, and `get?` reads it as one.  Everything else
that a trie is asked for can be said of this map and of the sequences that were inserted: each
question gets an equation that says what one insertion changes about its answer.

The tree may hold two siblings for one code point as far as its type goes.  Insertion and every
question look at the first of them only, so nothing has to be said about this here.
-/

namespace PromptLine

namespace Branches

/-- The keystroke bound to a text. -/
def get? : Branches → Text → Option Stroke
  | nil, _ => none
  | cons _ _ _ _, [] => none
  | cons d bound below others, c :: rest =>
    if c = d then (if rest = [] then bound else get? below rest) else get? others (c :: rest)

@[simp] theorem get?_empty (b : Branches) : b.get? [] = none := by
  cases b <;> rfl

/-! ## One insertion -/

theorem get?_path (c : Char) (stroke : Stroke) (rest s : Text) :
    (path c stroke rest).get? s = if s = c :: rest then some stroke else none := by
  induction rest generalizing c s with
  | nil =>
    cases s with
    | nil => simp
    | cons d s => by_cases hd : d = c <;> simp [path, get?, hd]
  | cons e rest ih =>
    cases s with
    | nil => simp
    | cons d s =>
      rw [path, get?]
      by_cases hd : d = c
      · by_cases hs : s = []
        · simp [hd, hs]
        · simp [hd, hs, ih]
      · simp [hd, get?]

@[simp] theorem insert_nil (stroke : Stroke) (c : Char) (rest : Text) :
    nil.insert stroke c rest = path c stroke rest := rfl

theorem insert_of_ne (stroke : Stroke) {c d : Char} (h : c ≠ d) (bound : Option Stroke)
    (below others : Branches) (rest : Text) :
    (cons d bound below others).insert stroke c rest =
      cons d bound below (others.insert stroke c rest) := by
  cases rest <;> exact if_neg h

@[simp] theorem insert_nil_self (stroke : Stroke) (c : Char) (bound : Option Stroke)
    (below others : Branches) :
    (cons c bound below others).insert stroke c [] = cons c (some stroke) below others :=
  if_pos rfl

@[simp] theorem insert_cons_self (stroke : Stroke) (c e : Char) (bound : Option Stroke)
    (below others : Branches) (rest : Text) :
    (cons c bound below others).insert stroke c (e :: rest) =
      cons c bound (below.insert stroke e rest) others :=
  if_pos rfl

/-- **Insertion binds one sequence** and leaves every other one as it was. -/
theorem get?_insert (stroke : Stroke) (b : Branches) (c : Char) (rest s : Text) :
    (b.insert stroke c rest).get? s = if s = c :: rest then some stroke else b.get? s := by
  induction b generalizing c rest s with
  | nil => rw [insert_nil, get?_path, get?]
  | cons d bound below others ihBelow ihOthers =>
    cases s with
    | nil => simp
    | cons e s =>
      by_cases hcd : c = d
      · subst hcd
        cases rest with
        | nil => by_cases he : e = c <;> by_cases hs : s = [] <;> simp [get?, he, hs]
        | cons f rest =>
          by_cases he : e = c
          · by_cases hs : s = [] <;> simp [get?, he, hs, ihBelow]
          · simp [get?, he]
      · rw [insert_of_ne stroke hcd, get?, get?, ihOthers]
        by_cases he : e = d
        · simp [he, Ne.symm hcd]
        · simp [he]

/-- The ways to go on from `input` after one insertion: the new sequence is one, if `input` is the
beginning of it. -/
theorem continues_path (c : Char) (stroke : Stroke) (rest input : Text) :
    (path c stroke rest).continues input = true ↔ input <+: c :: rest ∧ input ≠ c :: rest := by
  induction rest generalizing c input with
  | nil =>
    cases input with
    | nil => simp [path, continues]
    | cons d input => by_cases hd : d = c <;> simp [path, continues, hd]
  | cons e rest ih =>
    cases input with
    | nil => simp [path, continues]
    | cons d input =>
      by_cases hd : d = c
      · simp [path, continues, hd, ih]
      · simp [path, continues, hd]

theorem continues_insert (stroke : Stroke) (b : Branches) (c : Char) (rest input : Text) :
    (b.insert stroke c rest).continues input = true ↔
      b.continues input = true ∨ (input <+: c :: rest ∧ input ≠ c :: rest) := by
  induction b generalizing c rest input with
  | nil => rw [insert_nil, continues_path, continues]; simp
  | cons d bound below others ihBelow ihOthers =>
    cases input with
    | nil =>
      by_cases hcd : c = d
      · subst hcd
        cases rest <;> simp [continues]
      · simp [insert_of_ne stroke hcd, continues]
    | cons e input =>
      by_cases hcd : c = d
      · subst hcd
        by_cases he : e = c
        · cases rest <;> simp [continues, he, ihBelow]
        · cases rest <;> simp [continues, he]
      · rw [insert_of_ne stroke hcd, continues, continues]
        by_cases he : e = d
        · simp [he, Ne.symm hcd]
        · simp [he, ihOthers]

theorem depth_path (c : Char) (stroke : Stroke) (rest : Text) :
    (path c stroke rest).depth = rest.length + 1 := by
  induction rest generalizing c with
  | nil => simp [path, depth]
  | cons e rest ih => simp [path, depth, ih, Nat.add_comm]

theorem depth_insert (stroke : Stroke) (b : Branches) (c : Char) (rest : Text) :
    (b.insert stroke c rest).depth = max b.depth (rest.length + 1) := by
  induction b generalizing c rest with
  | nil => rw [insert_nil, depth_path, depth, Nat.zero_max]
  | cons d bound below others ihBelow ihOthers =>
    by_cases hcd : c = d
    · subst hcd
      cases rest with
      | nil =>
        rw [insert_nil_self, depth, depth, List.length_nil]
        omega
      | cons e rest =>
        rw [insert_cons_self, depth, depth, ihBelow, List.length_cons]
        omega
    · rw [insert_of_ne stroke hcd, depth, depth, ihOthers]
      omega

theorem count_path (c : Char) (stroke : Stroke) (rest : Text) :
    (path c stroke rest).count = 1 := by
  induction rest generalizing c with
  | nil => rfl
  | cons e rest ih => simp [path, count, ih]

/-- Insertion counts a sequence that was not bound before. -/
theorem count_insert (stroke : Stroke) (b : Branches) (c : Char) (rest : Text) :
    (b.insert stroke c rest).count =
      b.count + if (b.get? (c :: rest)).isSome then 0 else 1 := by
  induction b generalizing c rest with
  | nil => rw [insert_nil, count_path, count, get?]; rfl
  | cons d bound below others ihBelow ihOthers =>
    by_cases hcd : c = d
    · subst hcd
      cases rest with
      | nil =>
        rw [insert_nil_self, count, count, get?, if_pos rfl, if_pos rfl]
        cases bound with
        | none => simp only [Option.isSome_some, Option.isSome_none, Bool.false_eq_true, if_true,
            if_false]; omega
        | some _ => rfl
      | cons e rest =>
        rw [insert_cons_self, count, count, ihBelow, get?, if_pos rfl,
          if_neg (List.cons_ne_nil e rest)]
        omega
    · rw [insert_of_ne stroke hcd, count, count, ihOthers, get?, if_neg hcd]
      omega

/-! ## The longest match -/

/-- A text bound below a node, seen from above it. -/
theorem get?_cons_self (c : Char) (bound : Option Stroke) (below others : Branches) {s : Text}
    (hs : s ≠ []) : (cons c bound below others).get? (c :: s) = below.get? s := by
  rw [get?, if_pos rfl, if_neg hs]

/-- A text that goes on with another code point is looked up among the siblings. -/
theorem get?_cons_of_ne {c d : Char} (h : c ≠ d) (bound : Option Stroke) (below others : Branches)
    {rest s : Text} (hs : s <+: c :: rest) :
    (cons d bound below others).get? s = others.get? s := by
  rcases List.prefix_cons_iff.mp hs with rfl | ⟨t, rfl, -⟩
  · rw [get?_empty, get?_empty]
  · rw [get?, if_neg h]

theorem ne_nil_of_get? {b : Branches} {s : Text} {stroke : Stroke} (h : b.get? s = some stroke) :
    s ≠ [] := by
  rintro rfl
  rw [get?_empty] at h
  cases h

/-- No prefix of the input is bound exactly if there is no longest one. -/
theorem longest?_eq_none_iff (b : Branches) (input : Text) :
    b.longest? input = none ↔ ∀ s, s <+: input → b.get? s = none := by
  induction b generalizing input with
  | nil => simp [longest?, get?]
  | cons d bound below others ihBelow ihOthers =>
    cases input with
    | nil => simp [longest?]
    | cons c rest =>
      rw [longest?]
      by_cases hcd : c = d
      · subst hcd
        rw [if_pos rfl, Option.or_eq_none_iff, ihBelow]
        constructor
        · rintro ⟨hbelow, hbound⟩ s hs
          rcases List.prefix_cons_iff.mp hs with rfl | ⟨t, rfl, ht⟩
          · exact get?_empty _
          · by_cases htnil : t = []
            · rw [htnil, get?, if_pos rfl, if_pos rfl, hbound]
            · rw [get?_cons_self c bound below others htnil, hbelow t ht]
        · intro h
          constructor
          · intro t ht
            by_cases htnil : t = []
            · rw [htnil, get?_empty]
            · rw [← get?_cons_self c bound below others htnil]
              exact h (c :: t) ((List.prefix_cons_inj c).mpr ht)
          · have hone := h [c] ((List.prefix_cons_inj c).mpr List.nil_prefix)
            rwa [get?, if_pos rfl, if_pos rfl] at hone
      · rw [if_neg hcd, ihOthers]
        refine forall_congr' fun s => imp_congr_right ?_
        intro hs
        rw [get?_cons_of_ne hcd bound below others hs]

/-- **The match is the longest.**  It is bound to a prefix of the input, and no longer prefix is
bound to anything. -/
theorem get?_of_longest? {b : Branches} {input : Text} {stroke : Stroke}
    (h : b.longest? input = some stroke) :
    ∃ s, s <+: input ∧ b.get? s = some stroke ∧
      ∀ t, t <+: input → s.length < t.length → b.get? t = none := by
  induction b generalizing input with
  | nil => cases h
  | cons d bound below others ihBelow ihOthers =>
    cases input with
    | nil => cases h
    | cons c rest =>
      rw [longest?] at h
      by_cases hcd : c = d
      · subst hcd
        rw [if_pos rfl, Option.or_eq_some_iff] at h
        rcases h with hbelow | ⟨hnone, hbound⟩
        · obtain ⟨s, hs, hget, hlongest⟩ := ihBelow hbelow
          refine ⟨c :: s, (List.prefix_cons_inj c).mpr hs, ?_, ?_⟩
          · rw [get?_cons_self c bound below others (ne_nil_of_get? hget), hget]
          · intro t ht hlt
            rcases List.prefix_cons_iff.mp ht with rfl | ⟨t, rfl, htail⟩
            · exact get?_empty _
            · have htnil : t ≠ [] := by
                rintro rfl
                simp at hlt
              rw [get?_cons_self c bound below others htnil]
              exact hlongest t htail (by simpa using hlt)
        · rw [longest?_eq_none_iff] at hnone
          refine ⟨[c], (List.prefix_cons_inj c).mpr List.nil_prefix, ?_, ?_⟩
          · rw [get?, if_pos rfl, if_pos rfl, hbound]
          · intro t ht hlt
            rcases List.prefix_cons_iff.mp ht with rfl | ⟨t, rfl, htail⟩
            · exact get?_empty _
            · have htnil : t ≠ [] := by
                rintro rfl
                simp at hlt
              rw [get?_cons_self c bound below others htnil, hnone t htail]
      · rw [if_neg hcd] at h
        obtain ⟨s, hs, hget, hlongest⟩ := ihOthers h
        refine ⟨s, hs, ?_, ?_⟩
        · rw [get?_cons_of_ne hcd bound below others hs, hget]
        · intro t ht hlt
          rw [get?_cons_of_ne hcd bound below others ht, hlongest t ht hlt]

end Branches

namespace Trie

/-! ## A whole trie -/

/-- The keystroke bound to a sequence. -/
def get? (trie : Trie) (sequence : Text) : Option Stroke :=
  match sequence with
  | [] => trie.empty
  | c :: rest => trie.branches.get? (c :: rest)

/-- The keystroke of a sequence that comes last in a list. -/
def latest? (strokes : List Stroke) (sequence : Text) : Option Stroke :=
  strokes.reverse.find? fun stroke => stroke.sequence == sequence

theorem ofList_concat (strokes : List Stroke) (stroke : Stroke) :
    ofList (strokes ++ [stroke]) = (ofList strokes).insert stroke := by
  rw [ofList, List.foldl_append]
  rfl

theorem get?_insert (trie : Trie) (stroke : Stroke) (s : Text) :
    (trie.insert stroke).get? s = if s = stroke.sequence then some stroke else trie.get? s := by
  rw [insert]
  split
  · next hnil =>
    rw [hnil]
    cases s <;> simp [get?]
  · next c rest hcons =>
    rw [hcons]
    cases s with
    | nil => simp [get?]
    | cons d s => simp [get?, Branches.get?_insert]

theorem count_insert (trie : Trie) (stroke : Stroke) :
    (trie.insert stroke).count =
      trie.count + if (trie.get? stroke.sequence).isSome then 0 else 1 := by
  rw [insert]
  split
  · next hnil =>
    rw [hnil, count, count, get?]
    cases trie.empty with
    | none => simp only [Option.isSome_some, Option.isSome_none, Bool.false_eq_true, if_true,
        if_false]; omega
    | some _ => rfl
  · next c rest hcons => rw [hcons, count, count, Branches.count_insert, get?, Nat.add_assoc]

theorem maxLength_insert (trie : Trie) (stroke : Stroke) :
    (trie.insert stroke).maxLength = max trie.maxLength stroke.length := by
  rw [insert, Stroke.length]
  split
  · next hnil => rw [hnil, List.length_nil, Nat.max_zero]; rfl
  · next c rest hcons =>
    rw [hcons, maxLength, Branches.depth_insert, List.length_cons]
    rfl

/-- **A trie binds what was inserted last.** -/
theorem get?_ofList (strokes : List Stroke) (s : Text) :
    (ofList strokes).get? s = latest? strokes s := by
  induction strokes using List.reverseRecOn with
  | nil => cases s <;> rfl
  | append_singleton strokes stroke ih =>
    rw [ofList_concat, get?_insert, ih, latest?, latest?, List.reverse_append,
      List.reverse_singleton, List.singleton_append, List.find?_cons]
    by_cases h : stroke.sequence = s
    · simp [h]
    · rw [if_neg (Ne.symm h), beq_false_of_ne h]

theorem latest?_eq_none_iff {strokes : List Stroke} {s : Text} :
    latest? strokes s = none ↔ ∀ stroke ∈ strokes, stroke.sequence ≠ s := by
  simp [latest?]

theorem isSome_latest?_iff {strokes : List Stroke} {s : Text} :
    (latest? strokes s).isSome = true ↔ s ∈ strokes.map Stroke.sequence := by
  simp [latest?]

theorem sequence_of_latest? {strokes : List Stroke} {s : Text} {stroke : Stroke}
    (h : latest? strokes s = some stroke) : stroke ∈ strokes ∧ stroke.sequence = s := by
  have hmem := List.mem_of_find?_eq_some h
  have hseq := List.find?_some h
  exact ⟨List.mem_reverse.mp hmem, eq_of_beq hseq⟩

/-- Input can go on exactly if it is the beginning of a bound sequence, and not all of it. -/
theorem continues_ofList (strokes : List Stroke) (input : Text) :
    (ofList strokes).branches.continues input = true ↔
      ∃ stroke ∈ strokes, input <+: stroke.sequence ∧ input ≠ stroke.sequence := by
  induction strokes using List.reverseRecOn with
  | nil => simp [ofList, nil, Branches.continues]
  | append_singleton strokes stroke ih =>
    rw [ofList_concat, insert]
    split
    · next hnil =>
      simp [ih, hnil]
    · next c rest hcons =>
      simp [Branches.continues_insert, ih, hcons, or_and_right, exists_or]

/-- Every sequence is counted once. -/
theorem count_ofList (strokes : List Stroke) :
    (ofList strokes).count = (strokes.map Stroke.sequence).toFinset.card := by
  induction strokes using List.reverseRecOn with
  | nil => rfl
  | append_singleton strokes stroke ih =>
    rw [ofList_concat, count_insert, ih, get?_ofList, List.map_append, List.toFinset_append,
      List.map_singleton, List.toFinset_cons, List.toFinset_nil, insert_empty_eq,
      Finset.union_singleton]
    by_cases hmem : stroke.sequence ∈ strokes.map Stroke.sequence
    · rw [if_pos (isSome_latest?_iff.mpr hmem),
        Finset.insert_eq_of_mem (List.mem_toFinset.mpr hmem), Nat.add_zero]
    · rw [if_neg (mt isSome_latest?_iff.mp hmem),
        Finset.card_insert_of_notMem (mt List.mem_toFinset.mp hmem)]

theorem maxLength_ofList (strokes : List Stroke) :
    (ofList strokes).maxLength = (strokes.map Stroke.length).foldl max 0 := by
  induction strokes using List.reverseRecOn with
  | nil => rfl
  | append_singleton strokes stroke ih =>
    rw [ofList_concat, maxLength_insert, ih, List.map_append, List.foldl_append]
    rfl

end Trie

end PromptLine
