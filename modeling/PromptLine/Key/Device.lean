import PromptLine.Charset.Decoder
import PromptLine.Key.Keymap

/-!
# Keys that devices send differently

The arrows, Home, End and Delete do not send the same bytes on every device.  A device can report
what it sends, and the bindings of those keys are moved to what is reported.  A report that cannot
be used (bytes that are no text, a sequence that is bound already) leaves the usual binding in
place.
-/

namespace PromptLine

/-- The keys a device can report. -/
inductive DeviceKey
  | home
  | endKey
  | up
  | down
  | left
  | right
  | delete
  | killToEol
  deriving DecidableEq, Repr

namespace DeviceKey

/-- Every key a device can report. -/
def all : List DeviceKey := [home, endKey, up, down, left, right, delete, killToEol]

/-- The name of a key. -/
def label : DeviceKey → String
  | home => "home"
  | endKey => "end"
  | up => "up"
  | down => "down"
  | left => "left"
  | right => "right"
  | delete => "delete"
  | killToEol => "kill-to-eol"

/-- The key of a name. -/
def ofName? (name : Text) : Option DeviceKey := Text.choose? all label name

/-- The keys that have a usual binding, which moves, in the order in which they are moved. -/
def movable : List (DeviceKey × Key) :=
  [(home, .home), (endKey, .endKey), (up, .up), (down, .down), (left, .left), (right, .right),
    (delete, .delete)]

end DeviceKey

/-- What a device reports: the bytes of the keys that it has. -/
abbrev DeviceReport := List (DeviceKey × List UInt8)

namespace DeviceReport

/-- The report of a device that sends the usual sequences. -/
def ansi : DeviceReport :=
  DeviceKey.movable.map fun entry => (entry.1, Charset.utf8.encode entry.2.sequence)

/-- The sequence reported for a key, if the bytes can be read and are not empty. -/
def sequence? (report : DeviceReport) (key : DeviceKey) : Option Text :=
  match report.lookup key with
  | none => none
  | some bytes =>
    let decoded := (Decoder.start .utf8).decode bytes
    if decoded.error = none ∧ decoded.text ≠ [] then some decoded.text else none

/-- Moves the binding of one key, if the device sends something else for it. -/
def moveKey {α : Type} (report : DeviceReport) (b : Bindings α) (entry : DeviceKey × Key) :
    Bindings α :=
  match report.sequence? entry.1 with
  | none => b
  | some sequence =>
    match b.rebind (.ofKey entry.2) ⟨sequence, entry.2.label⟩ with
    | .ok b => b
    | .error _ => b

/-- Adapts bindings to a device.  The key that deletes to the end of the line has no usual binding,
and is bound to a value of its own. -/
def remap {α : Type} (report : DeviceReport) (killToEol : Option α) (b : Bindings α) :
    Bindings α :=
  let b := DeviceKey.movable.foldl report.moveKey b
  match report.sequence? .killToEol, killToEol with
  | some sequence, some value =>
    match b.bindSequence sequence value with
    | .ok b => b
    | .error _ => b
  | _, _ => b

end DeviceReport

end PromptLine
