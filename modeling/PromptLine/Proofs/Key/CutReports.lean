import PromptLine.Proofs.Charset.Viable
import PromptLine.Proofs.Key.FiniteMap
import PromptLine.Proofs.Key.UsualDevice

/-!
# Reports that are cut off

What a device reports for a key are bytes, and they are read by a decoder that is used for nothing
else.  Bytes that it refuses are no report.  But a decoder waits for the rest of a character that is
cut off, and here nothing more will come: what it has read by then is taken for the whole sequence.
So bytes that end inside a character report the sequence of the characters before it, which can be
the beginning of the sequences of other keys.

All a table learns of a report is the sequence read for each key (`remap_congr`).  So a report of a
key is as good as none exactly if it is refused, or has no character, or has just the characters of
the key's usual sequence (`remap_reported`).
-/

namespace PromptLine

/-- The sequence of a key before a device has its say, if it has one. -/
def DeviceKey.usual? (key : DeviceKey) : Option Text :=
  (movable.lookup key).map Key.sequence

namespace DeviceReport

open Decoder (Accepts Unfinished)

/-- The report of a device that says nothing of a key. -/
def without (report : DeviceReport) (key : DeviceKey) : DeviceReport :=
  report.filter fun entry => entry.1 != key

variable {α : Type} {report other : DeviceReport} {key : DeviceKey} {bytes : List UInt8}

/-! ## What a table learns of a report -/

theorem moveKey_of_unreported {entry : DeviceKey × Key} (h : report.sequence? entry.1 = none)
    (b : Bindings α) : report.moveKey b entry = b := by
  rw [moveKey, h]

theorem foldl_moveKey_of_unreported {keys : List (DeviceKey × Key)}
    (h : ∀ entry ∈ keys, report.sequence? entry.1 = none) (b : Bindings α) :
    keys.foldl report.moveKey b = b := by
  induction keys with
  | nil => rfl
  | cons entry keys ih =>
    obtain ⟨hentry, hkeys⟩ := List.forall_mem_cons.mp h
    rw [List.foldl_cons, moveKey_of_unreported hentry, ih hkeys]

/-- When the others had their turn, the key that deletes to the end of the line may be bound. -/
theorem remap_eq_bind (report : DeviceReport) (killToEol : Option α) (b : Bindings α) :
    report.remap killToEol b =
      match report.sequence? .killToEol, killToEol with
      | some s, some value =>
        (DeviceKey.movable.foldl report.moveKey b).attempt (.bindSequence s value)
      | _, _ => DeviceKey.movable.foldl report.moveKey b := by
  unfold remap
  cases report.sequence? .killToEol with
  | none => rfl
  | some s => cases killToEol <;> rfl

theorem remap_none (report : DeviceReport) (b : Bindings α) :
    report.remap none b = DeviceKey.movable.foldl report.moveKey b := by
  rw [remap_eq_bind]
  cases report.sequence? .killToEol <;> rfl

/-- Reports by which each key is moved alike make the same of a table. -/
theorem remap_congr_moveKey
    (hmove : ∀ entry ∈ DeviceKey.movable, ∀ b : Bindings α,
      report.moveKey b entry = other.moveKey b entry)
    (hkill : report.sequence? .killToEol = other.sequence? .killToEol) (killToEol : Option α)
    (b : Bindings α) : report.remap killToEol b = other.remap killToEol b := by
  have hmoved : DeviceKey.movable.foldl report.moveKey b =
      DeviceKey.movable.foldl other.moveKey b :=
    List.foldl_ext _ _ b fun b entry hentry => hmove entry hentry b
  rw [remap_eq_bind, remap_eq_bind, hmoved, hkill]

/-- **A table learns of a report the sequences that are read, and nothing else.** -/
theorem remap_congr (h : ∀ key, report.sequence? key = other.sequence? key)
    (killToEol : Option α) (b : Bindings α) :
    report.remap killToEol b = other.remap killToEol b := by
  refine remap_congr_moveKey (fun entry _ b => ?_) (h _) killToEol b
  rw [moveKey, moveKey, h]

/-! ## One key reported or not -/

theorem sequence?_without (report : DeviceReport) (key asked : DeviceKey) :
    (report.without key).sequence? asked =
      if asked = key then none else report.sequence? asked := by
  have hlookup : (report.without key).lookup asked =
      if asked = key then none else report.lookup asked := by
    induction report with
    | nil => simp [without]
    | cons entry rest ih =>
      rw [without] at ih ⊢
      by_cases hkey : entry.1 = key
      · by_cases hasked : asked = key
        · rw [List.filter_cons_of_neg (by simp [hkey]), ih, if_pos hasked, if_pos hasked]
        · have hother : (asked == entry.1) = false := by simp [hkey, hasked]
          rw [List.filter_cons_of_neg (by simp [hkey]), ih, if_neg hasked, if_neg hasked,
            List.lookup_cons, hother]
      · rw [List.filter_cons_of_pos (by simp [hkey]), List.lookup_cons, List.lookup_cons]
        cases hsame : asked == entry.1 with
        | true =>
          obtain rfl := beq_iff_eq.mp hsame
          rw [if_neg hkey]
        | false => exact ih
  rw [sequence?, hlookup]
  by_cases hasked : asked = key
  · rw [if_pos hasked, if_pos hasked]
  · rw [if_neg hasked, if_neg hasked, sequence?]

theorem sequence?_cons_of_ne {asked : DeviceKey} (h : asked ≠ key) :
    sequence? ((key, bytes) :: report) asked = report.sequence? asked := by
  have hother : (asked == key) = false := beq_false_of_ne h
  rw [sequence?, List.lookup_cons, hother]
  rfl

theorem sequence?_cons_self (report : DeviceReport) (key : DeviceKey) (bytes : List UInt8) :
    sequence? ((key, bytes) :: report) key =
      if ((Decoder.start .utf8).decode bytes).error = none ∧
          ((Decoder.start .utf8).decode bytes).text ≠ [] then
        some ((Decoder.start .utf8).decode bytes).text
      else none := by
  rw [sequence?, List.lookup_cons, beq_self_eq_true]

theorem sequence?_of_refused (h : ¬Accepts .utf8 bytes) :
    sequence? ((key, bytes) :: report) key = none := by
  rw [sequence?_cons_self, if_neg fun hread => h hread.1]

/-- **Bytes that are cut off are read as the characters before the cut.** -/
theorem sequence?_of_cut (report : DeviceReport) (key : DeviceKey) (text : Text)
    {tail : List UInt8} (h : tail = [] ∨ Unfinished tail) :
    sequence? ((key, Charset.utf8.encode text ++ tail) :: report) key =
      if text = [] then none else some text := by
  rw [sequence?_cons_self, Decoder.decode_encode_unfinished text h]
  dsimp only
  by_cases htext : text = []
  · rw [if_neg fun hread => hread.2 htext, if_pos htext]
  · rw [if_pos ⟨rfl, htext⟩, if_neg htext]

/-- A key whose bytes give no sequence might as well not have been reported. -/
theorem remap_of_unread (h : sequence? ((key, bytes) :: report) key = none)
    (killToEol : Option α) (b : Bindings α) :
    remap ((key, bytes) :: report) killToEol b = (report.without key).remap killToEol b := by
  refine remap_congr (fun asked => ?_) killToEol b
  rw [sequence?_without]
  by_cases hasked : asked = key
  · rw [if_pos hasked, hasked, h]
  · rw [if_neg hasked, sequence?_cons_of_ne hasked]

/-- A key that is reported to send what it usually sends might as well not have been reported. -/
theorem remap_of_usual {text : Text} (husual : key.usual? = some text)
    (h : sequence? ((key, bytes) :: report) key = some text) (killToEol : Option α)
    (b : Bindings α) :
    remap ((key, bytes) :: report) killToEol b = (report.without key).remap killToEol b := by
  have hmovable : ∀ entry ∈ DeviceKey.movable, entry.1 = key → entry.2.sequence = text := by
    rintro entry hentry rfl
    have hall : ∀ entry ∈ DeviceKey.movable, entry.1.usual? = some entry.2.sequence := by decide
    exact Option.some.inj ((hall entry hentry).symm.trans husual)
  have hkill : DeviceKey.killToEol ≠ key := by
    rintro rfl
    cases husual
  refine remap_congr_moveKey (fun entry hentry b => ?_) ?_ killToEol b
  · by_cases hkey : entry.1 = key
    · have hnone : (report.without key).sequence? entry.1 = none := by
        rw [sequence?_without, if_pos hkey]
      rw [moveKey_of_unreported hnone]
      refine moveKey_of_usual ?_ b
      rw [hkey, h, hmovable entry hentry hkey]
    · rw [moveKey, moveKey, sequence?_cons_of_ne hkey, sequence?_without, if_neg hkey]
  · rw [sequence?_cons_of_ne hkill, sequence?_without, if_neg hkill]

/-! ## A key that is moved -/

/-- If one key is reported at most, it is the only one that can have a turn. -/
theorem foldl_moveKey_of_only {keys : List (DeviceKey × Key)} (hdistinct : (keys.map (·.1)).Nodup)
    (h : ∀ asked, asked ≠ key → report.sequence? asked = none) (b : Bindings α) :
    keys.foldl report.moveKey b =
      match keys.lookup key with
      | none => b
      | some usual => report.moveKey b (key, usual) := by
  induction keys with
  | nil => rfl
  | cons entry keys ih =>
    obtain ⟨asked, usual⟩ := entry
    obtain ⟨hnew, hdistinct⟩ := List.nodup_cons.mp hdistinct
    rw [List.foldl_cons, List.lookup_cons]
    by_cases hasked : asked = key
    · subst hasked
      have hothers : ∀ entry ∈ keys, report.sequence? entry.1 = none :=
        fun entry hentry => h entry.1 fun hsame =>
          hnew (hsame ▸ List.mem_map_of_mem (f := (·.1)) hentry)
      rw [foldl_moveKey_of_unreported hothers, beq_self_eq_true]
    · have hother : (key == asked) = false := beq_false_of_ne (Ne.symm hasked)
      have hunread : report.sequence? (asked, usual).1 = none := h asked hasked
      rw [moveKey_of_unreported hunread, ih hdistinct, hother]

/-- The only binding of a table is moved. -/
theorem value?_rebind_singleton (old new : Stroke) (value : α) (hne : new.sequence ≠ [])
    (hdiffers : new.sequence ≠ old.sequence) :
    (Bindings.attempt ⟨[(old, value)]⟩ (.rebind old new)).value? new.sequence = some value := by
  have hsame : old.same new = false := beq_false_of_ne (Ne.symm hdiffers)
  have hself : old.same old = true := beq_self_eq_true _
  have hchange : Bindings.change ⟨[(old, value)]⟩ (.rebind old new) = .ok ⟨[(new, value)]⟩ := by
    simp [Bindings.change, Bindings.rebind, Bindings.contains, Bindings.obstacle?, hsame, hself,
      hne]
  rw [Bindings.attempt, hchange]
  simp [Bindings.value?, Bindings.get?, Stroke.same]

/-- **A sequence that is read, and is not the usual one, can be seen in some table.** -/
theorem exists_value?_ne (value : α) {text : Text} (hne : text ≠ [])
    (husual : key.usual? ≠ some text) (h : sequence? [(key, bytes)] key = some text) :
    ∃ (killToEol : Option α) (b : Bindings α),
      (remap [(key, bytes)] killToEol b).value? ≠ (remap [] killToEol b).value? := by
  have honly : ∀ asked, asked ≠ key → sequence? [(key, bytes)] asked = none :=
    fun asked hasked => (sequence?_cons_of_ne hasked).trans rfl
  have hnobody : ∀ b : Bindings α, DeviceKey.movable.foldl (moveKey []) b = b :=
    fun b => foldl_moveKey_of_unreported (fun _ _ => rfl) b
  have hdistinct : (DeviceKey.movable.map (·.1)).Nodup := by decide
  have hfold := fun b : Bindings α => foldl_moveKey_of_only hdistinct honly b
  cases hlookup : DeviceKey.movable.lookup key with
  | some usual =>
    -- the key is bound where it usually is, and moved to the sequence
    rw [DeviceKey.usual?, hlookup] at husual
    have hdiffers : text ≠ usual.sequence := fun hsame => husual (congrArg some hsame.symm)
    refine ⟨none, ⟨[(.ofKey usual, value)]⟩, fun hsame => ?_⟩
    have hmoved := value?_rebind_singleton (.ofKey usual) ⟨text, usual.label⟩ value hne hdiffers
    have hvalue := congrFun hsame text
    rw [remap_none, remap_none, hnobody, hfold, hlookup] at hvalue
    dsimp only at hvalue
    rw [moveKey, h] at hvalue
    have hfree : Bindings.value? ⟨[(Stroke.ofKey usual, value)]⟩ text = none := by
      simp [Bindings.value?, Bindings.get?, Stroke.same, Ne.symm hdiffers]
    cases (hmoved.symm.trans hvalue).trans hfree
  | none =>
    -- nothing is bound, and the key that deletes to the end of the line is added
    obtain rfl : key = .killToEol := by
      cases key with
      | killToEol => rfl
      | _ => cases hlookup
    refine ⟨some value, .nil, fun hsame => ?_⟩
    have hvalue := congrFun hsame text
    rw [remap_eq_bind, remap_eq_bind, hnobody, hfold, hlookup, h] at hvalue
    have hbound : (Bindings.attempt .nil (.bindSequence text value)).value? text = some value := by
      simp [Bindings.attempt, Bindings.change, Bindings.bindSequence, Bindings.bind,
        Bindings.obstacle?, Bindings.contains, Bindings.nil, Bindings.value?, Bindings.get?,
        Stroke.same, hne]
    cases hbound.symm.trans hvalue

/-! ## What becomes of a report -/

/-- Two reports make the same of every table. -/
def Alike (α : Type) (report other : DeviceReport) : Prop :=
  ∀ (killToEol : Option α) (b : Bindings α),
    report.remap killToEol b = other.remap killToEol b

/-- What is read of the bytes up to a cut, if they can be read, is nothing or what the key usually
sends. -/
def Harmless (key : DeviceKey) (bytes : List UInt8) : Prop :=
  ∀ text tail, bytes = Charset.utf8.encode text ++ tail → tail = [] ∨ Unfinished tail →
    text = [] ∨ key.usual? = some text

/-- A key might as well not have been reported, if what is read is harmless. -/
theorem Harmless.alike (h : Harmless key bytes) (report : DeviceReport) :
    Alike α ((key, bytes) :: report) (report.without key) := by
  by_cases haccepts : Accepts .utf8 bytes
  · obtain ⟨text, tail, rfl, htail⟩ := Decoder.accepts_utf8_iff_exists.mp haccepts
    have hsequence := sequence?_of_cut report key text htail
    by_cases htext : text = []
    · rw [if_pos htext] at hsequence
      exact remap_of_unread hsequence
    · rw [if_neg htext] at hsequence
      exact remap_of_usual ((h text tail rfl htail).resolve_left htext) hsequence
  · exact remap_of_unread (sequence?_of_refused haccepts)

/-- Bytes that are refused are harmless. -/
theorem harmless_of_refused (h : ¬Accepts .utf8 bytes) : Harmless key bytes :=
  fun text tail hbytes htail =>
    absurd (Decoder.accepts_utf8_iff_exists.mpr ⟨text, tail, hbytes, htail⟩) h

/-- Bytes that are cut off might as well have ended before the cut. -/
theorem alike_of_cut (report : DeviceReport) (key : DeviceKey) (text : Text) {tail : List UInt8}
    (h : Unfinished tail) : Alike α ((key, Charset.utf8.encode text ++ tail) :: report)
      ((key, Charset.utf8.encode text) :: report) := by
  refine remap_congr fun asked => ?_
  by_cases hasked : asked = key
  · have hwhole := sequence?_of_cut report key text (.inl rfl)
    rw [List.append_nil] at hwhole
    rw [hasked, sequence?_of_cut report key text (.inr h), hwhole]
  · rw [sequence?_cons_of_ne hasked, sequence?_cons_of_ne hasked]

/-- Bytes that are no text are refused or cut off. -/
theorem refused_or_cut (h : ∀ text, bytes ≠ Charset.utf8.encode text) :
    ¬Accepts .utf8 bytes ∨
      ∃ text tail, bytes = Charset.utf8.encode text ++ tail ∧ Unfinished tail := by
  by_cases haccepts : Accepts .utf8 bytes
  · obtain ⟨text, tail, hbytes, htail⟩ := Decoder.accepts_utf8_iff_exists.mp haccepts
    refine .inr ⟨text, tail, hbytes, htail.resolve_left fun hnil => h text ?_⟩
    rw [hbytes, hnil, List.append_nil]
  · exact .inl haccepts

/-- **What a report of one key comes to**, for all bytes.  Bytes that are no text are refused or cut
off inside a character.  If they are refused, the key might as well not have been reported.  If they
are cut off, the characters before the cut might have been reported in their place.  And the key
might as well not have been reported exactly if what is read is harmless: if it is not, there is a
table in which a look-up tells. -/
theorem remap_reported (value : α) (key : DeviceKey) (bytes : List UInt8) :
    ((∀ text, bytes ≠ Charset.utf8.encode text) →
      ¬Accepts .utf8 bytes ∨
        ∃ text tail, bytes = Charset.utf8.encode text ++ tail ∧ Unfinished tail) ∧
    (¬Accepts .utf8 bytes →
      ∀ report : DeviceReport, Alike α ((key, bytes) :: report) (report.without key)) ∧
    (∀ text tail, bytes = Charset.utf8.encode text ++ tail → Unfinished tail →
      ∀ report : DeviceReport,
        Alike α ((key, bytes) :: report) ((key, Charset.utf8.encode text) :: report)) ∧
    (Harmless key bytes →
      ∀ report : DeviceReport, Alike α ((key, bytes) :: report) (report.without key)) ∧
    (¬Harmless key bytes → ∃ (report : DeviceReport) (killToEol : Option α) (b : Bindings α),
      (remap ((key, bytes) :: report) killToEol b).value? ≠
        ((report.without key).remap killToEol b).value?) := by
  refine ⟨refused_or_cut, fun hrefused => (harmless_of_refused hrefused).alike, ?_,
    Harmless.alike, ?_⟩
  · rintro text tail rfl htail report
    exact alike_of_cut report key text htail
  · intro hharm
    obtain ⟨text, tail, rfl, htail, hother⟩ : ∃ text tail,
        bytes = Charset.utf8.encode text ++ tail ∧ (tail = [] ∨ Unfinished tail) ∧
          ¬(text = [] ∨ key.usual? = some text) := by
      rw [Harmless] at hharm
      push Not at hharm
      simpa only [not_or] using hharm
    obtain ⟨hne, husual⟩ := not_or.mp hother
    have hsequence := sequence?_of_cut [] key text htail
    rw [if_neg hne] at hsequence
    exact ⟨[], exists_value?_ne value hne husual hsequence⟩

/-- A device reports for Home the beginning of a control sequence, and one byte of a character.
Home is moved to the beginning, which is where the arrows begin. -/
theorem remap_cut_home :
    let b : Bindings Nat := ⟨[(.ofKey .home, 1), (.ofKey .up, 2)]⟩
    let report : DeviceReport := [(.home, [0x1B, 0x5B, 0xE2])]
    (∀ text, [0x1B, 0x5B, 0xE2] ≠ Charset.utf8.encode text) ∧
      ((report.without .home).remap none b).get? (.ofKey .home) = some 1 ∧
      (report.remap none b).get? (.ofKey .home) = none ∧
      (report.remap none b).get? (.ofSequence [escape, '[']) = some 1 := by
  intro b report
  refine ⟨fun text htext => ?_, by decide +kernel, by decide +kernel, by decide +kernel⟩
  have hpending : ((Decoder.start .utf8).decode [0x1B, 0x5B, 0xE2]).decoder.pendingBytes = 1 := by
    decide +kernel
  rw [htext, Decoder.decode_encode] at hpending
  cases hpending

end DeviceReport

end PromptLine
