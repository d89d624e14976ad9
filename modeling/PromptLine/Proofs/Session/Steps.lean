import Mathlib.Data.List.Basic
import PromptLine.Session

/-!
# A session step by step

While a session waits, the world around it changes: input arrives, the gate is closed and opened,
somebody asks it to stop, signals are sent.  All this can happen at any moment, and what the session
notices first is not in its hands.  So it is described here by what it can do next, one `Step` at a
time, and everything that can go on around it is a step as well.

The session is between two calls, at the head of its loop, waiting, or about to answer with an
error; this is its `Stage`.  A wait ends with any of the wakeups that are due, in no particular
order.  The loop that runs looks for them in a fixed order, and so it takes some of the steps:
`performs_readLine` and `performs_runOn` say that each call is a run of steps of the session itself.
What holds along every run holds for the calls, whatever happens between them and while they wait.
-/

namespace PromptLine

namespace Session

/-! ## Steps -/

/-- What can happen around a session. -/
inductive Happening
  | arrives (arrival : Arrival)
  | inputEnds
  | parks
  | resumes
  | asksToStop
  | sends (signal : Signal)
  /-- A handler for signals is registered. -/
  | listens
  deriving DecidableEq, Repr

/-- What a happening makes of a session. -/
def undergo (s : Session) : Happening → Session
  | .arrives arrival => s.arrive arrival
  | .inputEnds => s.endInput
  | .parks => s.park
  | .resumes => s.resume
  | .asksToStop => s.requestStop
  | .sends signal => s.send signal
  | .listens => s.withHandler

/-- What a session is doing. -/
inductive Stage
  /-- Nobody has called. -/
  | idle
  /-- A call is at the head of the loop. -/
  | looping
  | waiting (wait : Wait)
  /-- A call is about to answer with an error. -/
  | failing (error : EditorError)
  deriving DecidableEq, Repr

/-- What a call answers. -/
abbrev Answer := Except EditorError (Option Event)

/-- What a step does. -/
inductive Act
  | happens (happening : Happening)
  | calls
  /-- A call that waits is given up. -/
  | drops
  | waits (wait : Wait)
  | stops
  | takes (signal : Signal)
  | opens
  /-- A chunk is read and dispatched to the editor. -/
  | reads (chunk : List UInt8)
  /-- A chunk is read and dispatched, and the editor cannot take it. -/
  | refuses (chunk : List UInt8) (error : EditorError)
  /-- The end of the input is read. -/
  | ends
  | breaks (reason : String)
  | answers (answer : Answer)
  deriving DecidableEq, Repr

namespace Act

/-- The chunk a step dispatches to the editor. -/
def chunk? : Act → Option (List UInt8)
  | reads chunk => some chunk
  | refuses chunk _ => some chunk
  | _ => none

/-- The answer a step gives. -/
def answer? : Act → Option Answer
  | answers answer => some answer
  | _ => none

/-- A session takes a step by itself, unless something happens to it, or somebody calls it or gives
a call up. -/
def own : Act → Bool
  | happens _ => false
  | calls => false
  | drops => false
  | _ => true

end Act

/-- The steps of a session. -/
inductive Step : Session × Stage → Act → Session × Stage → Prop
  | happens (s : Session) (stage : Stage) (happening : Happening) :
      Step (s, stage) (.happens happening) (s.undergo happening, stage)
  | calls (s : Session) : Step (s, .idle) .calls (s, .looping)
  | drops (s : Session) (wait : Wait) : Step (s, .waiting wait) .drops (s, .idle)
  /-- An event in the queue is handed out. -/
  | hands {s : Session} {event : Event} {rest : List Event} (next : s.queue = event :: rest) :
      Step (s, .looping) (.answers (.ok (some event))) ({ s with queue := rest }, .idle)
  /-- A session that has stopped has nothing more to say. -/
  | rests {s : Session} (empty : s.queue = []) (stopped : s.stopped = true) :
      Step (s, .looping) (.answers (.ok none)) (s, .idle)
  | waits {s : Session} (empty : s.queue = []) (running : s.stopped = false) :
      Step (s, .looping) (.waits (if s.parked then .gate else .input))
        (s, .waiting (if s.parked then .gate else .input))
  | stops {s : Session} {wait : Wait} (requested : s.stopRequested = true) :
      Step (s, .waiting wait) .stops ({ s with stopRequested := false, stopped := true }, .looping)
  | takes {s : Session} {wait : Wait} {signal : Signal} {rest : List Signal}
      (sent : s.signals = signal :: rest) :
      Step (s, .waiting wait) (.takes signal)
        ({ s with signals := rest, handled := s.handled.map (· ++ [signal]) }, .looping)
  | opens {s : Session} (resumed : s.parked = false) : Step (s, .waiting .gate) .opens (s, .looping)
  | reads {s : Session} {source : Source} {chunk : List UInt8} {editor : Editor}
      {outcomes : List Outcome} (ready : s.source.read? = some (source, .ok chunk))
      (nonempty : chunk ≠ []) (written : s.editor.write chunk = (editor, .ok outcomes)) :
      Step (s, .waiting .input) (.reads chunk)
        ({ s with
            source := source
            editor := editor
            queue := s.queue ++ outcomes.filterMap Outcome.event? }, .looping)
  | refuses {s : Session} {source : Source} {chunk : List UInt8} {editor : Editor}
      {error : EditorError} (ready : s.source.read? = some (source, .ok chunk))
      (nonempty : chunk ≠ []) (written : s.editor.write chunk = (editor, .error error)) :
      Step (s, .waiting .input) (.refuses chunk error)
        ({ s with source := source, editor := editor, stopped := true }, .failing error)
  | ends {s : Session} {source : Source} (ready : s.source.read? = some (source, .ok [])) :
      Step (s, .waiting .input) .ends
        ({ s with source := source, stopped := true, queue := s.queue ++ [.eof] }, .looping)
  | breaks {s : Session} {source : Source} {reason : String}
      (ready : s.source.read? = some (source, .error reason)) :
      Step (s, .waiting .input) (.breaks reason)
        ({ s with source := source, stopped := true }, .failing (.io reason))
  | fails (s : Session) (error : EditorError) :
      Step (s, .failing error) (.answers (.error error)) (s, .idle)

/-! ## Runs -/

/-- A run of steps from a state, with what they do. -/
inductive Run (first : Session × Stage) : List Act → Session × Stage → Prop
  | start : Run first [] first
  | step {acts : List Act} {act : Act} {now next : Session × Stage} (earlier : Run first acts now)
      (last : Step now act next) : Run first (acts ++ [act]) next

section Runs

variable {first middle last : Session × Stage} {earlier later acts : List Act} {act : Act}

/-- The chunks a run dispatches to the editor. -/
def chunks (acts : List Act) : List (List UInt8) := acts.filterMap Act.chunk?

/-- The answers a run gives. -/
def answered (acts : List Act) : List Answer := acts.filterMap Act.answer?

theorem chunks_append : chunks (acts ++ later) = chunks acts ++ chunks later :=
  List.filterMap_append

theorem chunks_snoc : chunks (acts ++ [act]) = chunks acts ++ act.chunk?.toList := by
  rw [chunks_append]
  cases h : act.chunk? <;> simp [chunks, h]

theorem answered_append :
    answered (acts ++ later) = answered acts ++ answered later :=
  List.filterMap_append

theorem answered_singleton : answered [act] = act.answer?.toList := by
  cases h : act.answer? <;> simp [answered, h]

theorem Run.single (h : Step first act last) : Run first [act] last := .step .start h

theorem Run.append (h : Run first earlier middle) (h' : Run middle later last) :
    Run first (earlier ++ later) last := by
  induction h' with
  | start =>
    rw [List.append_nil]
    exact h
  | step _ hlast ih =>
    rw [← List.append_assoc]
    exact .step ih hlast

/-- A run can be cut between any two of its steps. -/
theorem Run.split (h : Run first (earlier ++ later) last) :
    ∃ middle, Run first earlier middle ∧ Run middle later last := by
  generalize hacts : earlier ++ later = acts at h
  induction h generalizing later with
  | start =>
    obtain ⟨rfl, rfl⟩ := List.append_eq_nil_iff.mp hacts
    exact ⟨first, .start, .start⟩
  | @step acts act now next hearlier hlast ih =>
    rcases List.eq_nil_or_concat later with rfl | ⟨rest, final, rfl⟩
    · rw [List.append_nil] at hacts
      exact ⟨next, hacts ▸ .step hearlier hlast, .start⟩
    · rw [List.concat_eq_append, ← List.append_assoc] at hacts
      obtain ⟨hrest, hfinal⟩ := List.append_inj' hacts rfl
      obtain rfl : final = act := (List.cons.inj hfinal).1
      obtain ⟨middle, hbefore, hafter⟩ := ih hrest
      rw [List.concat_eq_append]
      exact ⟨middle, hbefore, .step hafter hlast⟩

theorem Run.eq_of_nil (h : Run first [] last) : last = first := by
  generalize hacts : [] = acts at h
  cases h with
  | start => rfl
  | step => exact absurd hacts.symm (List.append_ne_nil_of_right_ne_nil _ (List.cons_ne_nil _ _))

theorem Run.step_of_singleton (h : Run first [act] last) : Step first act last := by
  generalize hacts : [act] = acts at h
  cases h with
  | start => cases hacts
  | step hearlier hlast =>
    obtain ⟨rfl, hact⟩ := (List.append_eq_singleton_iff.mp hacts.symm).resolve_right fun h =>
      List.cons_ne_nil _ _ h.2
    obtain rfl := (List.cons.inj hact).1
    exact hearlier.eq_of_nil ▸ hlast

/-- A run can be cut around any of its steps. -/
theorem Run.split_cons (h : Run first (earlier ++ act :: later) last) :
    ∃ now next, Run first earlier now ∧ Step now act next ∧ Run next later last := by
  rw [List.append_cons] at h
  obtain ⟨next, hbefore, hlater⟩ := h.split
  obtain ⟨now, hearlier, hact⟩ := hbefore.split
  exact ⟨now, next, hearlier, hact.step_of_singleton, hlater⟩

end Runs

/-! ## The loop takes steps -/

/-- The stage a call leaves a session in. -/
def Progress.stage : Progress → Stage
  | done _ => .idle
  | waiting wait => .waiting wait

/-- What a call has answered. -/
def Progress.answers : Progress → List Answer
  | done answer => [answer]
  | waiting _ => []

def Turn.stage : Turn → Stage
  | again => .looping
  | finished progress => progress.stage

def Turn.answers : Turn → List Answer
  | again => []
  | finished progress => progress.answers

/-- A session by itself comes from one state to another, and gives some answers. -/
def Performs (first : Session × Stage) (answers : List Answer) (last : Session × Stage) : Prop :=
  ∃ acts, Run first acts last ∧ (∀ act ∈ acts, act.own = true) ∧
    answered acts = answers

section Performs

variable {first middle last : Session × Stage} {earlier later : List Answer}

theorem Performs.start : Performs first [] first :=
  ⟨[], .start, fun _ h => absurd h List.not_mem_nil, rfl⟩

theorem Performs.single {act : Act} (h : Step first act last) (hown : act.own = true) :
    Performs first act.answer?.toList last :=
  ⟨[act], .single h, fun _ hact => List.mem_singleton.mp hact ▸ hown, answered_singleton⟩

theorem Performs.trans (h : Performs first earlier middle) (h' : Performs middle later last) :
    Performs first (earlier ++ later) last := by
  obtain ⟨acts, hrun, hown, rfl⟩ := h
  obtain ⟨acts', hrun', hown', rfl⟩ := h'
  refine ⟨acts ++ acts', hrun.append hrun', fun act hact => ?_, answered_append⟩
  exact (List.mem_append.mp hact).elim (hown act) (hown' act)

end Performs

/-- An answer with an error is given at once. -/
theorem performs_fail (s : Session) (error : EditorError) :
    Performs (s, .failing error) [.error error] (s, .idle) :=
  .single (.fails s error) rfl

/-- What a read brings is dealt with in steps. -/
theorem performs_receive {s : Session} {source : Source} {result : Except String (List UInt8)}
    (ready : s.source.read? = some (source, result)) :
    Performs (s, .waiting .input) (receive { s with source := source } result).2.answers
      ((receive { s with source := source } result).1,
        (receive { s with source := source } result).2.stage) := by
  cases result with
  | error reason => exact (Performs.single (.breaks ready) rfl).trans (performs_fail _ _)
  | ok bytes =>
    cases bytes with
    | nil => exact .single (.ends ready) rfl
    | cons byte rest =>
      have hne : byte :: rest ≠ [] := List.cons_ne_nil _ _
      simp only [receive]
      rcases hwritten : s.editor.write (byte :: rest) with ⟨editor, error | outcomes⟩
      · exact (Performs.single (.refuses ready hne hwritten) rfl).trans (performs_fail _ _)
      · exact .single (.reads ready hne hwritten) rfl

theorem performs_select (s : Session) (wait : Wait) :
    Performs (s, .waiting wait) (s.select wait).2.answers
      ((s.select wait).1, (s.select wait).2.stage) := by
  unfold select
  split
  case isTrue hrequested => exact .single (.stops hrequested) rfl
  case isFalse =>
    split
    case h_1 signal rest hsent => exact .single (.takes hsent) rfl
    case h_2 =>
      cases wait with
      | gate =>
        by_cases hparked : s.parked = true
        · simp only [hparked, if_true]
          exact .start
        · simp only [hparked]
          exact .single (.opens (Bool.eq_false_iff.mpr hparked)) rfl
      | input =>
        dsimp only
        split
        case h_1 => exact .start
        case h_2 source result hready => exact performs_receive hready

theorem performs_turn (s : Session) :
    Performs (s, .looping) s.turn.2.answers (s.turn.1, s.turn.2.stage) := by
  rw [turn]
  split
  case h_1 event rest hnext => exact .single (.hands hnext) rfl
  case h_2 hempty =>
    split
    case isTrue hstopped => exact .single (.rests hempty hstopped) rfl
    case isFalse hrunning =>
      exact (Performs.single (.waits hempty (Bool.eq_false_iff.mpr hrunning)) rfl).trans
        (s.performs_select _)

/-! ## A call comes to an end

The loop goes on for as many turns as a call has patience for.  It never runs out of it: a turn that
leads to another one takes a signal or a read, or it stops the session. -/

end Session

namespace Source

theorem backlog_pos (source : Source) : 0 < source.backlog := by
  obtain ⟨arrivals, ended⟩ := source
  cases arrivals with
  | nil => exact Nat.one_pos
  | cons arrival rest =>
    cases arrival with
    | bytes chunk => exact Nat.add_pos_left (Nat.succ_pos _) _
    | failure reason => exact Nat.add_pos_left Nat.one_pos _

theorem backlog_of_read? {source rest : Source} {bytes : List UInt8}
    (ready : source.read? = some (rest, .ok bytes)) (nonempty : bytes ≠ []) :
    rest.backlog < source.backlog := by
  obtain ⟨arrivals, ended⟩ := source
  rcases arrivals with - | ⟨chunk | reason, later⟩
  · cases ended <;> cases ready
    exact absurd rfl nonempty
  · obtain ⟨rfl, hbytes⟩ := Prod.mk.inj (Option.some.inj ready)
    obtain rfl := Except.ok.inj hbytes
    have hchunk : 0 < chunk.length := by
      rw [List.length_pos_iff]
      rintro rfl
      exact nonempty rfl
    by_cases hleft : chunk.drop readSize = []
    · simp only [backlog, if_pos hleft, List.foldr_cons]
      omega
    · have hshorter : (chunk.drop readSize).length < chunk.length := by
        rw [List.length_drop]
        exact Nat.sub_lt hchunk (by decide)
      simp only [backlog, if_neg hleft, List.foldr_cons]
      omega
  · cases ready

end Source

namespace Session

/-- How many turns can lead to another one at most. -/
def toil (s : Session) : Nat :=
  if s.queue = [] ∧ s.stopped = false then s.signals.length + s.source.backlog else 0

theorem toil_le (s : Session) : s.toil ≤ s.signals.length + s.source.backlog := by
  rw [toil]
  split <;> omega

theorem toil_of_stopped {s : Session} (h : s.stopped = true) : s.toil = 0 := by
  rw [toil, if_neg]
  rintro ⟨-, hrunning⟩
  exact Bool.eq_false_iff.mp hrunning h

theorem toil_lt_patience (s : Session) : s.toil < s.patience :=
  Nat.lt_of_le_of_lt s.toil_le (Nat.lt_add_of_pos_right (by decide))

theorem toil_receive {s next : Session} {source : Source} {result : Except String (List UInt8)}
    (ready : s.source.read? = some (source, result))
    (again : receive { s with source := source } result = (next, .again)) :
    next.toil < s.signals.length + s.source.backlog := by
  cases result with
  | error reason => cases again
  | ok bytes =>
    cases bytes with
    | nil =>
      cases again
      rw [toil_of_stopped rfl]
      exact Nat.add_pos_right _ s.source.backlog_pos
    | cons byte rest =>
      have hless := Source.backlog_of_read? ready (List.cons_ne_nil _ _)
      simp only [receive] at again
      split at again
      · cases again
      · cases again
        exact Nat.lt_of_le_of_lt (toil_le _) (Nat.add_lt_add_left hless _)

theorem toil_select {s next : Session} {wait : Wait} (closed : wait = .gate → s.parked = true)
    (again : s.select wait = (next, .again)) :
    next.toil < s.signals.length + s.source.backlog := by
  unfold select at again
  split at again
  case isTrue =>
    cases again
    rw [toil_of_stopped rfl]
    exact Nat.add_pos_right _ s.source.backlog_pos
  case isFalse =>
    split at again
    case h_1 signal rest hsent =>
      cases again
      refine Nat.lt_of_le_of_lt (toil_le _) (Nat.add_lt_add_right ?_ _)
      rw [hsent]
      exact Nat.lt_succ_self _
    case h_2 =>
      cases wait with
      | gate =>
        simp only [closed rfl, if_true] at again
        cases again
      | input =>
        dsimp only at again
        split at again
        case h_1 => cases again
        case h_2 hready => exact toil_receive hready again

/-- A turn that leads to another one leaves less to do. -/
theorem toil_turn {s next : Session} (again : s.turn = (next, .again)) : next.toil < s.toil := by
  rw [turn] at again
  split at again
  case h_1 => cases again
  case h_2 hempty =>
    split at again
    case isTrue => cases again
    case isFalse hrunning =>
      rw [toil.eq_def s, if_pos ⟨hempty, Bool.eq_false_iff.mpr hrunning⟩]
      refine toil_select (fun hgate => ?_) again
      by_contra hopen
      rw [if_neg hopen] at hgate
      cases hgate

theorem performs_turns (fuel : Nat) (s : Session) (enough : s.toil < fuel) :
    Performs (s, .looping) (turns fuel s).2.answers ((turns fuel s).1, (turns fuel s).2.stage) := by
  induction fuel generalizing s with
  | zero => exact absurd enough (Nat.not_lt_zero _)
  | succ fuel ih =>
    have hturn := s.performs_turn
    rw [turns]
    rcases hresult : s.turn with ⟨next, _ | progress⟩
    · have hless := Nat.lt_of_lt_of_le (toil_turn hresult) (Nat.le_of_lt_succ enough)
      rw [hresult] at hturn
      exact hturn.trans (ih next hless)
    · rw [hresult] at hturn
      exact hturn

/-- **A call is a run**: the session takes steps by itself, until it answers or waits. -/
theorem performs_readLine (s : Session) :
    Performs (s, .looping) s.readLine.2.answers (s.readLine.1, s.readLine.2.stage) :=
  performs_turns _ s s.toil_lt_patience

/-- **A call that waits runs on in steps**, until it answers or waits again. -/
theorem performs_runOn (s : Session) (wait : Wait) :
    Performs (s, .waiting wait) (s.runOn wait).2.answers
      ((s.runOn wait).1, (s.runOn wait).2.stage) := by
  have hselect := s.performs_select wait
  rw [runOn]
  rcases hresult : s.select wait with ⟨next, _ | progress⟩
  · rw [hresult] at hselect
    exact hselect.trans next.performs_readLine
  · rw [hresult] at hselect
    exact hselect

end Session

end PromptLine
