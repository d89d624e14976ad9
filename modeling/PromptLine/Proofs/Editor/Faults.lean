import PromptLine.Proofs.Editor.MaskedLines
import PromptLine.Proofs.Screen.Columns

/-!
# When an editor comes to a fault

The positions that actions count with lie within the line, and no line that can be stored is too
long for their words.  A column is kept in a much smaller word, and the number that a terminal is
told is the word after it.  A machine that checks its sums stops at the first drawing without such a
number, and then there is no outcome, no event and no line of which anything could be said.  Until
then nothing tells it from a machine that goes on.  What is proved of an editor after some calls is
therefore about both machines if there was no fault, and otherwise about the second one alone.

Whether there was one can be told from what was shown.  A sink takes down the first fault that it is
given and keeps it (`fault_drawAll`), so what a run leaves in it is the first fault of all that the
run has shown (`fault_serveAll`).  A request is a fault exactly if the column of its cursor has no
number.
-/

namespace PromptLine

namespace Sink

variable {sink : Sink}

theorem fault_write (sink : Sink) (text : Text) : (sink.write text).1.fault = sink.fault := by
  rw [write]
  split
  · rfl
  · dsimp only
    split <;> rfl

theorem fault_draw (prompt : Text) (sink : Sink) (request : Request) :
    (sink.draw prompt request).1.fault = sink.fault.or (request.render prompt).fault :=
  fault_write _ _

/-- **The first fault is the one that is kept**, if every request is drawn. -/
theorem fault_drawAll (h : sink.Reliable) (prompt : Text) (requests : List Request) :
    (sink.drawAll prompt requests).1.fault =
      sink.fault.or (requests.findSome? fun request => (request.render prompt).fault) := by
  induction requests generalizing sink with
  | nil => exact Option.or_none.symm
  | cons request rest ih =>
    have hreliable := h.draw prompt request
    have hdrawn := draw_of_reliable prompt h request
    have hfault := fault_draw prompt sink request
    rw [drawAll, List.findSome?_cons]
    generalize sink.draw prompt request = drawn at hreliable hdrawn hfault ⊢
    obtain ⟨after, failure⟩ := drawn
    obtain rfl : failure = none := hdrawn
    dsimp only at hfault ⊢
    rw [ih hreliable, hfault, Option.or_assoc]
    cases (request.render prompt).fault <;> rfl

/-- Nothing is taken down as long as every column has a number, even if the sink fails. -/
theorem fault_drawAll_of_addressable {prompt : Text} {requests : List Request}
    (h : ∀ request ∈ requests, request.Addressable prompt) (sink : Sink) :
    (sink.drawAll prompt requests).1.fault = sink.fault := by
  induction requests generalizing sink with
  | nil => rfl
  | cons request rest ih =>
    obtain ⟨hrequest, hrest⟩ := List.forall_mem_cons.mp h
    have hfault := fault_draw prompt sink request
    rw [(request.fault_render_eq_none_iff prompt).mpr hrequest, Option.or_none] at hfault
    rw [drawAll]
    split
    · next after hdraw =>
      rw [hdraw] at hfault
      exact (ih hrest after).trans hfault
    · next hdraw =>
      rw [hdraw] at hfault
      exact hfault

theorem Reliable.drawAll (h : sink.Reliable) (prompt : Text) (requests : List Request) :
    (sink.drawAll prompt requests).1.Reliable := by
  intro number
  rw [(drawAll_keeps prompt sink requests).2, h number]

theorem fault_drawEach (h : sink.Reliable) (prompt : Text) (groups : List (List Request)) :
    (sink.drawEach prompt groups).fault =
      sink.fault.or (groups.flatten.findSome? fun request => (request.render prompt).fault) := by
  induction groups generalizing sink with
  | nil => exact Option.or_none.symm
  | cons requests rest ih =>
    have hrest := ih (h.drawAll prompt requests)
    rw [fault_drawAll h, Option.or_assoc] at hrest
    rw [List.flatten_cons, List.findSome?_append]
    exact hrest

theorem fault_drawEach_of_addressable {prompt : Text} {groups : List (List Request)}
    (h : ∀ requests ∈ groups, ∀ request ∈ requests, request.Addressable prompt) (sink : Sink) :
    (sink.drawEach prompt groups).fault = sink.fault := by
  induction groups generalizing sink with
  | nil => rfl
  | cons requests rest ih =>
    obtain ⟨hrequests, hrest⟩ := List.forall_mem_cons.mp h
    exact (ih hrest _).trans (fault_drawAll_of_addressable hrequests sink)

/-- A machine that checks its sums answers just if nothing was taken down. -/
theorem checked_eq_ok_iff {α : Type} (sink : Sink) (answer : α) :
    sink.checked answer = .ok answer ↔ sink.fault = none := by
  rw [checked, Computed.checked]
  cases sink.fault with
  | none => exact iff_of_true rfl rfl
  | some fault => refine iff_of_false (fun h => ?_) (fun h => ?_) <;> cases h

end Sink

namespace Editor

variable {e : Editor}

/-- **What calls leave in a sink** that does not fail is the first fault of all that they show. -/
theorem fault_serveAll (h : e.sink.Reliable) (calls : List Call) :
    (e.serveAll calls).1.sink.fault =
      e.sink.fault.or
        ((e.shown calls).flatten.findSome? fun request => (request.render e.prompt).fault) := by
  rw [sink_serveAll, Sink.fault_drawEach h]

/-- **A machine that checks its sums answers all calls** just if everything that they show leaves
the cursor in a column with a number. -/
theorem checked_serveAll_iff (h : e.sink.Reliable) (hfault : e.sink.fault = none)
    (calls : List Call) :
    let after := e.serveAll calls
    after.1.sink.checked after.2 = .ok after.2 ↔
      ∀ requests ∈ e.shown calls, ∀ request ∈ requests, request.Addressable e.prompt := by
  intro after
  rw [Sink.checked_eq_ok_iff, fault_serveAll h, hfault, Option.none_or, List.findSome?_eq_none_iff,
    List.forall_mem_flatten]
  simp only [Request.fault_render_eq_none_iff]

/-- On a screen that fails less may be drawn than is shown, and so there is no more of a fault. -/
theorem checked_serveAll_of_addressable (hfault : e.sink.fault = none) {calls : List Call}
    (h : ∀ requests ∈ e.shown calls, ∀ request ∈ requests, request.Addressable e.prompt) :
    let after := e.serveAll calls
    after.1.sink.checked after.2 = .ok after.2 := by
  intro after
  rw [Sink.checked_eq_ok_iff, sink_serveAll, Sink.fault_drawEach_of_addressable h, hfault]

end Editor

end PromptLine
