import PromptLine.Key.Stroke

/-!
# Leader keys

A leader is a key that does nothing but give the next key another meaning.  The next key is looked
up with the leader in front of it, if it is a single code point; a longer one cancels the leader and
is lost.
-/

namespace PromptLine

/-- Whether the leader was typed just now. -/
inductive Leader
  | idle
  | armed
  deriving DecidableEq, Repr

/-- What a key amounts to beside a leader. -/
inductive LeaderEffect
  /-- The leader does not concern this key. -/
  | pass
  /-- The key is the leader. -/
  | armed
  /-- The key is to be looked up in this form. -/
  | target (stroke : Stroke)
  /-- The key cancels the leader. -/
  | cleared
  deriving DecidableEq, Repr

/-- Takes a key, which may itself be the leader. -/
def Leader.step (state : Leader) (leader : Stroke) (stroke : Stroke) (isLeader : Bool) :
    Leader × LeaderEffect :=
  match state with
  | idle => if isLeader then (armed, .armed) else (idle, .pass)
  | armed => (idle, if stroke.length = 1 then .target (stroke.after leader) else .cleared)

end PromptLine
