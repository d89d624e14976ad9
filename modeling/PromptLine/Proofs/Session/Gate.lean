import PromptLine.Proofs.Session.Events

/-!
# The gate

Whoever wants the next keystrokes for itself parks the input.  A session looks at the gate when it
begins to wait, and then only: while the gate is closed no wait for input is begun, but one that was
begun before goes on, and the chunk it brings is dispatched although the gate is closed.  After that
chunk the session is back at the head of its loop and finds the gate closed.

So what reaches the editor before the gate is opened is at most one chunk, and only if the session
was waiting for input when the gate was closed.
-/

namespace PromptLine

theorem Source.length_of_read? {source rest : Source} {bytes : List UInt8}
    (ready : source.read? = some (rest, .ok bytes)) : bytes.length ≤ readSize := by
  obtain ⟨arrivals, ended⟩ := source
  rcases arrivals with - | ⟨chunk | reason, later⟩
  · cases ended <;> cases ready
    exact Nat.zero_le _
  · obtain rfl := Except.ok.inj (Prod.mk.inj (Option.some.inj ready)).2
    exact List.length_take_le _ _
  · cases ready

namespace Session

variable {s : Session} {first now next last : Session × Stage} {acts : List Act} {act : Act}

/-- The gate is closed, and nobody waits for input. -/
structure Shut (now : Session × Stage) : Prop where
  parked : now.1.parked = true
  stage : now.2 ≠ .waiting .input

theorem parked_undergo {happening : Happening} (hparked : s.parked = true)
    (hresumes : happening ≠ .resumes) : (s.undergo happening).parked = true := by
  cases happening with
  | resumes => exact absurd rfl hresumes
  | parks => rfl
  | _ => exact hparked

/-- A session that is shut dispatches nothing, and it stays shut until the gate is opened. -/
theorem Step.shut (h : Step now act next) (hnow : Shut now) (hresumes : act ≠ .happens .resumes) :
    act.chunk? = none ∧ Shut next := by
  have hparked := hnow.parked
  cases h with
  | happens s stage happening =>
    exact ⟨rfl, parked_undergo hparked fun h => hresumes (h ▸ rfl), hnow.stage⟩
  | waits => exact ⟨rfl, hparked, by simpa using hparked⟩
  | reads => exact absurd rfl hnow.stage
  | refuses => exact absurd rfl hnow.stage
  | ends => exact absurd rfl hnow.stage
  | breaks => exact absurd rfl hnow.stage
  | _ => exact ⟨rfl, hparked, nofun⟩

theorem Run.shut (h : Run first acts last) (hfirst : Shut first)
    (hresumes : .happens .resumes ∉ acts) : chunks acts = [] ∧ Shut last := by
  induction h with
  | start => exact ⟨rfl, hfirst⟩
  | step _ hlast ih =>
    rw [List.mem_append, List.mem_singleton, not_or] at hresumes
    obtain ⟨hchunks, hnow⟩ := ih hresumes.1
    obtain ⟨hchunk, hnext⟩ := hlast.shut hnow (Ne.symm hresumes.2)
    rw [chunks_snoc, hchunks, hchunk]
    exact ⟨rfl, hnext⟩

/-- A session that waits for input while the gate is closed goes on waiting, or it is shut. -/
theorem Step.shut_of_waiting (h : Step (s, .waiting .input) act next) (hparked : s.parked = true)
    (hresumes : act ≠ .happens .resumes) :
    (∃ happening, act = .happens happening ∧ next.1.parked = true ∧ next.2 = .waiting .input) ∨
      Shut next := by
  cases h with
  | happens s _ happening =>
    exact .inl ⟨happening, rfl, parked_undergo hparked fun h => hresumes (h ▸ rfl), rfl⟩
  | _ => exact .inr ⟨hparked, nofun⟩

/-- A run from such a state: all that happened came from around the session, or one step of its own
has shut it. -/
theorem Run.shut_of_waiting (h : Run (s, .waiting .input) acts last) (hparked : s.parked = true)
    (hresumes : .happens .resumes ∉ acts) :
    ((∀ act ∈ acts, ∃ happening, act = .happens happening) ∧ last.1.parked = true ∧
        last.2 = .waiting .input) ∨
      ∃ before act after, acts = before ++ act :: after ∧
        (∀ act ∈ before, ∃ happening, act = .happens happening) ∧ chunks after = [] ∧
        Shut last := by
  induction h with
  | start => exact .inl ⟨fun _ h => absurd h List.not_mem_nil, hparked, rfl⟩
  | @step acts act now next hearlier hlast ih =>
    rw [List.mem_append, List.mem_singleton, not_or] at hresumes
    obtain ⟨hbefore, hact⟩ := hresumes
    obtain ⟨s', stage⟩ := now
    rcases ih hbefore with
      ⟨hall, hparked', hstage⟩ | ⟨before, first, after, rfl, hall, hchunks, hshut⟩
    · obtain rfl : stage = .waiting .input := hstage
      rcases hlast.shut_of_waiting hparked' (Ne.symm hact) with ⟨happening, rfl, hnext⟩ | hnext
      · refine .inl ⟨fun other hother => ?_, hnext⟩
        rcases List.mem_append.mp hother with hmem | hmem
        · exact hall other hmem
        · exact ⟨happening, List.mem_singleton.mp hmem⟩
      · exact .inr ⟨acts, act, [], rfl, hall, rfl, hnext⟩
    · obtain ⟨hchunk, hnext⟩ := hlast.shut hshut (Ne.symm hact)
      refine .inr ⟨before, first, after ++ [act], by simp, hall, ?_, hnext⟩
      rw [chunks_snoc, hchunks, hchunk]
      rfl

/-! ## Outstanding reads -/

/-- A session that finds the gate closed leaves the editor alone. -/
theorem editor_readLine_of_parked (hparked : s.parked = true) :
    s.readLine.1.editor = s.editor := by
  obtain ⟨acts, hrun, hown, -⟩ := s.performs_readLine
  have hresumes : .happens .resumes ∉ acts := fun hmem => Bool.false_ne_true (hown _ hmem)
  have hchunks := (hrun.shut ⟨hparked, nofun⟩ hresumes).1
  have heditor := hrun.editor
  rwa [hchunks] at heditor

theorem select_of_ready {source : Source} {result : Except String (List UInt8)}
    (hstop : s.stopRequested = false) (hsignals : s.signals = [])
    (ready : s.source.read? = some (source, result)) :
    s.select .input = receive { s with source := source } result := by
  unfold select
  rw [if_neg (Bool.eq_false_iff.mp hstop)]
  split
  case h_1 hsent =>
    rw [hsignals] at hsent
    cases hsent
  case h_2 =>
    dsimp only
    rw [ready]

/-- A chunk that comes after the gate was closed is dispatched all the same if a read is
outstanding. -/
theorem editor_runOn_of_parked {chunk : List UInt8} (hparked : s.parked = true)
    (hstop : s.stopRequested = false) (hsignals : s.signals = [])
    (hempty : s.source.arrivals = []) (hne : chunk ≠ []) (hlen : chunk.length ≤ Source.readSize) :
    ((s.arrive (.bytes chunk)).runOn .input).1.editor = (s.editor.write chunk).1 := by
  have hread : (s.arrive (.bytes chunk)).source.read? = some (s.source, .ok chunk) := by
    obtain ⟨editor, ⟨arrivals, ended⟩, parked, stopRequested, signals, handled, queue, stopped⟩ := s
    obtain rfl : arrivals = [] := hempty
    simp [arrive, Source.read?, List.drop_eq_nil_of_le hlen, List.take_of_length_le hlen]
  have hselect : (s.arrive (.bytes chunk)).select .input = receive s (.ok chunk) :=
    select_of_ready (s := s.arrive (.bytes chunk)) hstop hsignals hread
  rw [runOn, hselect]
  obtain ⟨byte, rest, rfl⟩ := List.exists_cons_of_ne_nil hne
  simp only [receive]
  rcases s.editor.write (byte :: rest) with ⟨editor, error | outcomes⟩
  · rfl
  · exact editor_readLine_of_parked hparked

/-- A chunk that is dispatched fits into one read. -/
theorem Step.length_of_chunk? {chunk : List UInt8} (h : Step now act next)
    (hchunk : act.chunk? = some chunk) : chunk.length ≤ Source.readSize := by
  cases h with
  | reads ready => exact Option.some.inj hchunk ▸ Source.length_of_read? ready
  | refuses ready => exact Option.some.inj hchunk ▸ Source.length_of_read? ready
  | _ => cases hchunk

theorem chunks_of_happenings (h : ∀ act ∈ acts, ∃ happening, act = .happens happening) :
    chunks acts = [] := by
  refine List.filterMap_eq_nil_iff.mpr fun act hact => ?_
  obtain ⟨happening, rfl⟩ := h act hact
  rfl

/-- **A closed gate keeps all input from the editor but what an outstanding read brings.**  Until
the gate is opened, nothing is dispatched, or the session was waiting for input when the gate was
closed and one chunk is dispatched, before the session does anything else. -/
theorem dispatched_of_parked {stage₀ stage : Stage} {s₀ s : Session}
    (h : Run (s₀, stage₀) acts (s, stage)) (hparked : s₀.parked = true)
    (hresumes : .happens .resumes ∉ acts) :
    (chunks acts = [] ∧ s.editor = s₀.editor) ∨
      stage₀ = .waiting .input ∧ ∃ before act after chunk, acts = before ++ act :: after ∧
        act.chunk? = some chunk ∧ chunk.length ≤ Source.readSize ∧
        (∀ act ∈ before, ∃ happening, act = .happens happening) ∧ chunks after = [] ∧
        s.editor = (s₀.editor.write chunk).1 := by
  have heditor := h.editor
  have hnone (hchunks : chunks acts = []) : chunks acts = [] ∧ s.editor = s₀.editor := by
    rw [hchunks] at heditor
    exact ⟨hchunks, heditor⟩
  by_cases hstage : stage₀ = .waiting .input
  · subst hstage
    rcases h.shut_of_waiting hparked hresumes with
      ⟨hall, -⟩ | ⟨before, act, after, rfl, hbefore, hafter, -⟩
    · exact .inl (hnone (chunks_of_happenings hall))
    · obtain ⟨now, next, -, hact, -⟩ := h.split_cons
      have hchunks : chunks (before ++ act :: after) = act.chunk?.toList := by
        rw [List.append_cons, chunks_append, chunks_snoc, chunks_of_happenings hbefore, hafter,
          List.nil_append, List.append_nil]
      cases hchunk : act.chunk? with
      | none => exact .inl (hnone (hchunks.trans (congrArg _ hchunk)))
      | some chunk =>
        rw [hchunks, hchunk, Option.toList_some, Editor.writeEach_singleton] at heditor
        exact .inr ⟨rfl, before, act, after, chunk, rfl, hchunk, hact.length_of_chunk? hchunk,
          hbefore, hafter, heditor⟩
  · exact .inl (hnone (h.shut ⟨hparked, hstage⟩ hresumes).1)

/-- A read is outstanding, and its chunk is the only one. -/
theorem dispatched_of_parked_before_read :
    let e := Editor.new .default (.reliable .utf8)
    let acts : List Act := [.happens (.arrives (.bytes [0x79])), .reads [0x79], .waits .gate]
    ∃ s, Run ((new e).park, .waiting .input) acts (s, .waiting .gate) ∧
      (new e).park.parked = true ∧ .happens .resumes ∉ acts ∧
      ∃ before act after chunk, acts = before ++ act :: after ∧ act.chunk? = some chunk ∧
        (∀ act ∈ before, ∃ happening, act = .happens happening) ∧ chunks after = [] ∧
        s.editor = (e.write chunk).1 := by
  intro e acts
  have hok : (e.write [0x79]).2 = .ok [.proceed] := by decide +kernel
  clear_value e
  have hrun := (Run.start : Run ((new e).park, .waiting .input) [] _)
    |>.step (.happens _ _ (.arrives (.bytes [0x79])))
    |>.step (.reads rfl (List.cons_ne_nil _ _) (Prod.ext rfl hok))
    |>.step (.waits rfl rfl)
  have hresumes : .happens .resumes ∉ acts := by decide
  obtain ⟨-, before, act, after, chunk, hacts, hchunk, -, hbefore, hafter, heditor⟩ :=
    (dispatched_of_parked hrun rfl hresumes).resolve_left fun h => List.cons_ne_nil _ _ h.1
  exact ⟨_, hrun, rfl, hresumes, before, act, after, chunk, hacts, hchunk, hbefore, hafter, heditor⟩

/-- The gate is closed while a read is outstanding.  The answer to somebody else's question is
typed, and it is in the line that is being edited. -/
theorem dispatched_while_parked :
    let s := (new (.new .default (.reliable .utf8))).readLine
    let after := (s.1.park.arrive (.bytes [0x79])).runOn .input
    s.2.stage = .waiting .input ∧ after.1.parked = true ∧ after.2.stage = .waiting .gate ∧
      after.1.editor.desk.buffer.text = ['y'] := by
  decide +kernel

end Session

end PromptLine
