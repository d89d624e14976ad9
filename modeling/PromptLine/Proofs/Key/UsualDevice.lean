import PromptLine.Key.Device
import PromptLine.Proofs.Charset.RoundTrip

/-!
# Devices that send the usual sequences

A report that says of a key what is bound anyway moves nothing.  The report of an ANSI device says
this of every key that can move, and knows no key for deleting to the end of the line, so the
bindings of a mode that is started for such a device are the usual ones.
-/

namespace PromptLine

namespace DeviceReport

/-- A reported text is read as it was meant. -/
theorem sequence?_of_lookup {report : DeviceReport} {key : DeviceKey} {text : Text}
    (h : report.lookup key = some (Charset.utf8.encode text)) (hne : text ≠ []) :
    report.sequence? key = some text := by
  have hsame : text.map Charset.utf8.substitute = text :=
    List.map_id'' (fun _ => rfl) text
  rw [sequence?, h]
  dsimp only
  rw [Decoder.decode_encode, hsame, if_pos ⟨rfl, hne⟩]

theorem moveKey_of_usual {α : Type} {report : DeviceReport} {entry : DeviceKey × Key}
    (h : report.sequence? entry.1 = some entry.2.sequence) (b : Bindings α) :
    report.moveKey b entry = b := by
  have hsame : (Stroke.ofKey entry.2).same ⟨entry.2.sequence, entry.2.label⟩ = true := by
    simp [Stroke.same]
  rw [moveKey, h]
  dsimp only
  rw [Bindings.rebind, if_pos hsame]

theorem foldl_moveKey_of_usual {α : Type} {report : DeviceReport}
    (entries : List (DeviceKey × Key))
    (h : ∀ entry ∈ entries, report.sequence? entry.1 = some entry.2.sequence) (b : Bindings α) :
    entries.foldl report.moveKey b = b := by
  induction entries with
  | nil => rfl
  | cons entry entries ih =>
    rw [List.foldl_cons, moveKey_of_usual (h entry List.mem_cons_self),
      ih fun other hother => h other (List.mem_cons_of_mem entry hother)]

/-- **An ANSI device moves nothing.** -/
theorem remap_ansi {α : Type} (killToEol : Option α) (b : Bindings α) :
    ansi.remap killToEol b = b := by
  have hlookup : ∀ entry ∈ DeviceKey.movable,
      ansi.lookup entry.1 = some (Charset.utf8.encode entry.2.sequence) := by
    decide
  have husual : ∀ entry ∈ DeviceKey.movable, ansi.sequence? entry.1 = some entry.2.sequence :=
    fun entry hentry => sequence?_of_lookup (hlookup entry hentry) entry.2.sequence_ne_nil
  exact foldl_moveKey_of_usual DeviceKey.movable husual b

end DeviceReport

end PromptLine
