import PromptLine.Proofs.Editor.Calls
import PromptLine.Proofs.Session.Steps

/-!
# The events of a session

Whatever happens around a session, its calls return the events of the chunks it has dispatched, and
the editor is what these chunks make of it.  An event is in the queue or has been returned; what a
chunk brings goes to the end of the queue, and what a call returns comes from its front.

A session begins to wait only when its queue is empty, and then it is running.  So when a wait ends
the session, there is nothing left to hand out but what this end itself brings: an `Event.eof`, or
an error.  A session that has stopped does not wait again, and therefore it reads nothing any more.
-/

namespace PromptLine

namespace Session

variable {first now next last : Session × Stage} {acts : List Act} {act : Act}

/-! ## What happenings leave alone -/

@[simp] theorem editor_undergo (s : Session) (happening : Happening) :
    (s.undergo happening).editor = s.editor := by
  cases happening <;> rfl

@[simp] theorem queue_undergo (s : Session) (happening : Happening) :
    (s.undergo happening).queue = s.queue := by
  cases happening <;> rfl

@[simp] theorem stopped_undergo (s : Session) (happening : Happening) :
    (s.undergo happening).stopped = s.stopped := by
  cases happening <;> rfl

/-! ## Waiting sessions -/

/-- A session waits while it is running, and fails when it has stopped.  There is nothing to hand
out then. -/
def Attentive : Session × Stage → Prop
  | (s, .waiting _) => s.queue = [] ∧ s.stopped = false
  | (s, .failing _) => s.queue = [] ∧ s.stopped = true
  | _ => True

theorem Step.attentive (h : Step now act next) (hnow : Attentive now) : Attentive next := by
  cases h with
  | happens s stage happening =>
    cases stage <;> simp only [Attentive, queue_undergo, stopped_undergo] at hnow ⊢ <;> exact hnow
  | waits empty running => exact ⟨empty, running⟩
  | refuses => exact ⟨hnow.1, rfl⟩
  | breaks => exact ⟨hnow.1, rfl⟩
  | _ => trivial

theorem Run.attentive (h : Run first acts last) (hfirst : Attentive first) : Attentive last := by
  induction h with
  | start => exact hfirst
  | step _ hlast ih => exact hlast.attentive ih

/-! ## The editor -/

/-- Only a chunk that is dispatched changes the editor. -/
theorem Step.editor (h : Step now act next) :
    next.1.editor = (now.1.editor.writeEach act.chunk?.toList).1 := by
  cases h with
  | happens s _ happening => exact s.editor_undergo happening
  | reads _ _ written => exact (congrArg Prod.fst written).symm
  | refuses _ _ written => exact (congrArg Prod.fst written).symm
  | _ => rfl

/-- **The editor is what the chunks make of it.** -/
theorem Run.editor (h : Run first acts last) :
    last.1.editor = (first.1.editor.writeEach (chunks acts)).1 := by
  induction h with
  | start => rfl
  | step _ hlast ih => rw [hlast.editor, ih, chunks_snoc, Editor.writeEach_append]

/-! ## Sessions that have stopped -/

/-- What a session will answer if nothing more is read: its error, and the events in the queue. -/
def owed : Session × Stage → List Answer
  | (s, .failing error) => .error error :: s.queue.map fun event => .ok (some event)
  | (s, _) => s.queue.map fun event => .ok (some event)

theorem owed_undergo (s : Session) (stage : Stage) (happening : Happening) :
    owed (s.undergo happening, stage) = owed (s, stage) := by
  cases stage <;> simp only [owed, queue_undergo]

/-- A step that neither reads nor waits. -/
structure Act.Quiet (act : Act) : Prop where
  chunk : act.chunk? = none
  ends : act ≠ .ends
  waits (wait : Wait) : act ≠ .waits wait

/-- A session that has stopped stays so, reads nothing and does not wait.  It answers what it owes,
and when it owes nothing, it answers that there is nothing. -/
theorem Step.of_stopped (h : Step now act next) (hnow : Attentive now)
    (hstopped : now.1.stopped = true) :
    next.1.stopped = true ∧ act.Quiet ∧
      (act.answer?.toList ++ owed next = owed now ∨
        act = .answers (.ok none) ∧ owed now = [] ∧ owed next = []) := by
  have hwaits {s : Session} {wait : Wait} (hs : s.stopped = true) :
      ¬Attentive (s, .waiting wait) := fun h => Bool.eq_false_iff.mp h.2 hs
  cases h with
  | happens s stage happening =>
    exact ⟨(s.stopped_undergo happening).trans hstopped, ⟨rfl, nofun, nofun⟩,
      .inl (owed_undergo s stage happening)⟩
  | hands next =>
    refine ⟨hstopped, ⟨rfl, nofun, nofun⟩, .inl ?_⟩
    simp only [owed, next, List.map_cons]
    rfl
  | rests empty =>
    refine ⟨hstopped, ⟨rfl, nofun, nofun⟩, .inr ⟨rfl, ?_, ?_⟩⟩ <;>
      simp only [owed, empty, List.map_nil]
  | waits _ running => exact absurd hstopped (Bool.eq_false_iff.mp running)
  | calls => exact ⟨hstopped, ⟨rfl, nofun, nofun⟩, .inl rfl⟩
  | fails => exact ⟨hstopped, ⟨rfl, nofun, nofun⟩, .inl rfl⟩
  | _ => exact absurd hnow (hwaits hstopped)

/-- **A session that has stopped is over**: it reads and waits no more, and its calls answer what it
owes, and then that there is nothing. -/
theorem Run.of_stopped (h : Run first acts last) (hfirst : Attentive first)
    (hstopped : first.1.stopped = true) :
    last.1.stopped = true ∧ (∀ act ∈ acts, act.Quiet) ∧
      ∃ count, answered acts ++ owed last = owed first ++ List.replicate count (.ok none) := by
  induction h with
  | start => exact ⟨hstopped, fun _ h => absurd h List.not_mem_nil, 0, (List.append_nil _).symm⟩
  | @step acts act now next hearlier hlast ih =>
    obtain ⟨hnow, hquiet, count, hanswered⟩ := ih
    obtain ⟨hnext, hact, howed⟩ := hlast.of_stopped (hearlier.attentive hfirst) hnow
    refine ⟨hnext, ?_, ?_⟩
    · intro other hother
      rcases List.mem_append.mp hother with hmem | hmem
      · exact hquiet other hmem
      · exact List.mem_singleton.mp hmem ▸ hact
    · rw [answered_append, answered_singleton, List.append_assoc]
      rcases howed with howed | ⟨rfl, hnone, hnone'⟩
      · exact ⟨count, by rw [howed, hanswered]⟩
      · refine ⟨count + 1, ?_⟩
        rw [hnone, List.append_nil] at hanswered
        rw [hnone', List.append_nil, hanswered, List.replicate_succ', List.append_assoc]
        rfl

/-! ## The queue -/

/-- The event a step hands out. -/
def Act.event? : Act → Option Event
  | answers (.ok event?) => event?
  | _ => none

/-- The events a run hands out. -/
def returned (acts : List Act) : List Event := acts.filterMap Act.event?

@[simp] theorem returned_snoc : returned (acts ++ [act]) = returned acts ++ act.event?.toList := by
  rw [returned, List.filterMap_append, ← returned]
  cases h : act.event? <;> simp [h]

/-- Events come to the end of the queue and are handed out from its front. -/
theorem Step.queue (h : Step now act next) :
    act.event?.toList ++ next.1.queue =
      now.1.queue ++ (now.1.editor.writeEach act.chunk?.toList).2.filterMap Outcome.event? ++
        (if act = .ends then [.eof] else []) := by
  cases h with
  | reads _ _ written => simp [Act.event?, Act.chunk?, Editor.serve, written, Except.toOption]
  | refuses _ _ written => simp [Act.event?, Act.chunk?, Editor.serve, written, Except.toOption]
  | hands next => simp [Act.event?, Act.chunk?, next]
  | _ => simp [Act.event?, Act.chunk?]

/-- Once the end of the input was read, the session has stopped. -/
theorem Run.stopped_of_ends (h : Run first acts last) (hfirst : Attentive first)
    (hends : .ends ∈ acts) : last.1.stopped = true := by
  obtain ⟨earlier, later, rfl⟩ := List.append_of_mem hends
  obtain ⟨now, next, hearlier, hstep, hlater⟩ := h.split_cons
  have hnext := hstep.attentive (hearlier.attentive hfirst)
  cases hstep with
  | ends => exact (hlater.of_stopped hnext rfl).1

/-- Nothing is lost between the chunks and the answers: what was handed out and what is in the queue
are the events of the chunks, and the end of the input comes after them. -/
theorem Run.returned_append_queue (h : Run first acts last) (hfirst : Attentive first) :
    returned acts ++ last.1.queue =
      first.1.queue ++ (first.1.editor.writeEach (chunks acts)).2.filterMap Outcome.event? ++
        (if .ends ∈ acts then [.eof] else []) := by
  induction h with
  | start => simp [returned, chunks]
  | @step acts act now next hearlier hlast ih =>
    rw [returned_snoc, List.append_assoc, hlast.queue, hearlier.editor, ← List.append_assoc,
      ← List.append_assoc, ih, chunks_snoc, Editor.writeEach_append, List.filterMap_append]
    by_cases hends : .ends ∈ acts
    · -- The session has stopped, and the step brings nothing.
      have hquiet := (hlast.of_stopped (hearlier.attentive hfirst)
        (hearlier.stopped_of_ends hfirst hends)).2.1
      simp [hends, hquiet.chunk, hquiet.ends]
    · simp [hends, eq_comm]

/-! ## After the end -/

/-- What calls answer after a step that ends a session, before they have nothing more to say. -/
def Act.lastWords? : Act → Option (List Answer)
  | stops => some []
  | refuses _ error => some [.error error]
  | ends => some [.ok (some .eof)]
  | breaks reason => some [.error (.io reason)]
  | _ => none

theorem Step.lastWords {words : List Answer} (h : Step now act next) (hnow : Attentive now)
    (hwords : act.lastWords? = some words) : next.1.stopped = true ∧ owed next = words := by
  cases h with
  | stops | refuses | ends | breaks =>
    cases hwords
    refine ⟨rfl, ?_⟩
    simp only [owed, hnow.1]
    rfl
  | _ => cases hwords

/-- A session that has stopped answers at once: the next event of the queue, or that there is
nothing. -/
theorem readLine_of_stopped {s : Session} (h : s.stopped = true) :
    s.readLine = ({ s with queue := s.queue.tail }, .done (.ok s.queue.head?)) := by
  obtain ⟨editor, source, parked, stopRequested, signals, handled, queue, stopped⟩ := s
  obtain rfl : stopped = true := h
  cases queue <;> rfl

/-- **The events of a session.**  In every run, the editor is what the chunks make of it that were
dispatched, whatever signals come between them; and what was returned, with the queue behind it, is
the events of these chunks, followed by one `Event.eof` if the end of the input was read.  Once a
stop, the end of the input or an error has ended the session, nothing more is dispatched: its calls
answer what this end brings, and then that there is nothing. -/
theorem returned_of_run {e : Editor} {s : Session} {stage : Stage}
    (h : Run (new e, .idle) acts (s, stage)) :
    let written := e.writeEach (chunks acts)
    s.editor = written.1 ∧
      returned acts ++ s.queue =
        written.2.filterMap Outcome.event? ++ (if .ends ∈ acts then [.eof] else []) ∧
      ∀ before act after words, acts = before ++ act :: after → act.lastWords? = some words →
        chunks after = [] ∧ (∀ wait, .waits wait ∉ after) ∧
          (∃ count, answered after <+: words ++ List.replicate count (.ok none)) ∧
          s.stopped = true ∧
          s.readLine = ({ s with queue := s.queue.tail }, .done (.ok s.queue.head?)) := by
  have hfirst : Attentive (new e, .idle) := trivial
  refine ⟨h.editor, (h.returned_append_queue hfirst).trans (by rfl), ?_⟩
  rintro before act after words rfl hwords
  obtain ⟨now, next, hbefore, hact, hafter⟩ := h.split_cons
  have hnow := hbefore.attentive hfirst
  obtain ⟨hnext, howed⟩ := hact.lastWords hnow hwords
  obtain ⟨hstopped, hquiet, count, hanswered⟩ := hafter.of_stopped (hact.attentive hnow) hnext
  refine ⟨List.filterMap_eq_nil_iff.mpr fun act hact => (hquiet act hact).chunk,
    fun wait hwait => (hquiet _ hwait).waits wait rfl, ⟨count, owed (s, stage), ?_⟩, hstopped,
    readLine_of_stopped hstopped⟩
  rw [hanswered, howed]

/-- Two lines arrive in one chunk after a signal, and the session is asked to stop while both are in
the queue.  They are returned, and only then the stop is seen. -/
theorem returned_of_run_with_stop_behind_lines :
    let e := Editor.new .default (.reliable .utf8)
    let bytes : List UInt8 := [0x61, 0x0D, 0x62, 0x0D]
    let before : List Act :=
      [.calls, .waits .input, .happens (.arrives (.bytes bytes)), .happens (.sends .interrupt),
        .takes .interrupt, .waits .input, .reads bytes, .happens .asksToStop,
        .answers (.ok (some (.line ['a']))), .calls, .answers (.ok (some (.line ['b']))),
        .calls, .waits .input]
    let after : List Act := [.answers (.ok none)]
    ∃ s, Run (new e, .idle) (before ++ .stops :: after) (s, .idle) ∧ s.editor = (e.write bytes).1 ∧
      returned (before ++ .stops :: after) ++ s.queue = [.line ['a'], .line ['b']] ∧
      chunks after = [] ∧ s.stopped = true ∧ s.readLine = (s, .done (.ok none)) := by
  intro e bytes before after
  have hok : (e.write bytes).2 =
      .ok [.proceed, .commit ['a'], .proceed, .commit ['b']] := by decide +kernel
  clear_value e
  let s : Session := { new e with editor := (e.write bytes).1, stopped := true }
  have hsteps := (Run.start : Run (new e, .idle) [] _)
    |>.step (.calls _)
    |>.step (.waits rfl rfl)
    |>.step (.happens _ _ (.arrives (.bytes bytes)))
    |>.step (.happens _ _ (.sends .interrupt))
    |>.step (.takes rfl)
    |>.step (.waits rfl rfl)
    |>.step (.reads rfl (List.cons_ne_nil _ _) (Prod.ext rfl hok))
    |>.step (.happens _ _ .asksToStop)
    |>.step (.hands rfl)
    |>.step (.calls _)
    |>.step (.hands rfl)
    |>.step (.calls _)
    |>.step (.waits rfl rfl)
    |>.step (.stops rfl)
    |>.step (.rests rfl rfl)
  have hrun : Run (new e, .idle) (before ++ .stops :: after) (s, .idle) := hsteps
  obtain ⟨heditor, hreturned, hend⟩ := returned_of_run hrun
  obtain ⟨hchunks, -, -, hstopped, hanswer⟩ := hend before .stops after [] rfl rfl
  refine ⟨s, hrun, heditor, hreturned.trans ?_, hchunks, hstopped, hanswer⟩
  rw [show chunks (before ++ .stops :: after) = [bytes] from rfl, Editor.writeEach_singleton,
    Editor.serve, hok]
  rfl

end Session

end PromptLine
