import PromptLine.Proofs.Editor.ChunkBoundaries
import PromptLine.Proofs.Editor.Keystrokes

/-!
# The calls of an editor

An editor is written to, and in between it can be given another editing mode, other bindings,
another device or another charset.  A `Call` is one of these, and `serveAll` makes one call after
another.  Its outcomes are those of the writes that succeeded.

All calls but writes are about how keys are cut and what they mean.  They touch neither the line and
what belongs to it nor the screen and the listener, and `Faces` says so.
-/

namespace PromptLine

namespace Editor

/-- What can be asked of an editor. -/
inductive Call
  | write (bytes : List UInt8)
  | setEditingMode (mode : EditingMode)
  | bind (sequence : Text) (command : Command)
  | setDevice (report : DeviceReport)
  | setCharset (charset : Charset)
  deriving Repr

/-- The editor after a call, and the outcomes of a write that succeeds.  A binding that is refused
changes nothing. -/
def serve (e : Editor) : Call → Editor × List Outcome
  | .write bytes => ((e.write bytes).1, (e.write bytes).2.toOption.getD [])
  | .setEditingMode mode => (e.setEditingMode mode, [])
  | .bind sequence command => ((e.addCommand sequence command).toOption.getD e, [])
  | .setDevice report => (e.withDevice report, [])
  | .setCharset charset => (e.withCharset charset, [])

/-- The editor after one call after another, and the outcomes of all its writes. -/
def serveAll (e : Editor) : List Call → Editor × List Outcome
  | [] => (e, [])
  | call :: rest =>
    ((serveAll (e.serve call).1 rest).1, (e.serve call).2 ++ (serveAll (e.serve call).1 rest).2)

theorem serveAll_append (e : Editor) (earlier later : List Call) :
    e.serveAll (earlier ++ later) =
      (((e.serveAll earlier).1.serveAll later).1,
        (e.serveAll earlier).2 ++ ((e.serveAll earlier).1.serveAll later).2) := by
  induction earlier generalizing e with
  | nil => rfl
  | cons call rest ih => simp only [List.cons_append, serveAll, ih, List.append_assoc]

/-- The editor after one chunk after another was written to it, and the outcomes of the writes that
succeeded. -/
def writeEach (e : Editor) (chunks : List (List UInt8)) : Editor × List Outcome :=
  e.serveAll (chunks.map .write)

@[simp] theorem writeEach_nil (e : Editor) : e.writeEach [] = (e, []) := rfl

@[simp] theorem writeEach_singleton (e : Editor) (chunk : List UInt8) :
    e.writeEach [chunk] = e.serve (.write chunk) := by
  simp only [writeEach, List.map_singleton, serveAll, List.append_nil]

theorem writeEach_append (e : Editor) (earlier later : List (List UInt8)) :
    e.writeEach (earlier ++ later) =
      (((e.writeEach earlier).1.writeEach later).1,
        (e.writeEach earlier).2 ++ ((e.writeEach earlier).1.writeEach later).2) := by
  rw [writeEach, List.map_append, serveAll_append]
  rfl

/-! ## Calls that are about keys -/

/-- Two editors with the same line and what belongs to it, the same screen and the same listener. -/
structure Faces (e after : Editor) : Prop where
  desk : after.desk = e.desk
  prompt : after.prompt = e.prompt
  sink : after.sink = e.sink
  heard : after.heard = e.heard

variable (e : Editor)

theorem faces_withSource (decoder : Decoder) (input : KeyInput) :
    e.Faces (e.withSource decoder input) :=
  ⟨rfl, rfl, rfl, rfl⟩

theorem faces_addCommand (sequence : Text) (command : Command) :
    e.Faces ((e.addCommand sequence command).toOption.getD e) := by
  rw [addCommand]
  cases e.mode.addCommand sequence command <;> exact ⟨rfl, rfl, rfl, rfl⟩

/-- **A call is a write, or it is about keys**, and then nobody sees it. -/
theorem serve_cases (call : Call) :
    (∃ bytes, call = .write bytes) ∨ e.Faces (e.serve call).1 ∧ (e.serve call).2 = [] := by
  cases call with
  | write bytes => exact .inl ⟨bytes, rfl⟩
  | setEditingMode mode => exact .inr ⟨⟨rfl, rfl, rfl, rfl⟩, rfl⟩
  | bind sequence command => exact .inr ⟨e.faces_addCommand sequence command, rfl⟩
  | setDevice report => exact .inr ⟨⟨rfl, rfl, rfl, rfl⟩, rfl⟩
  | setCharset charset => exact .inr ⟨⟨rfl, rfl, rfl, rfl⟩, rfl⟩

end Editor

end PromptLine
