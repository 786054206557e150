import CommonMeasure.Foundation.Runs
import Mathlib.Logic.Function.Basic
import Mathlib.Data.List.Infix

/-!
# A file rewritten under a lock

Processes that hold one lock across reading a file, working out what it becomes and replacing it, while readers take no
lock and any process may fail or stop between two steps.
-/

namespace CommonMeasure.Locked

variable {Pid Op Content Refusal Answer : Type}

/-- What an operation does: it may be refused before it asks for the lock, or by what it reads; otherwise it writes those
contents in order. -/
structure Rewriter (Op Content Refusal Answer : Type) where
  allows : Op → Except Refusal Unit
  rewrite : Op → Content → Except Refusal (List Content × Answer)

inductive Phase (Op Content Answer : Type) where
  | idle
  | asks (op : Op)
  | holds (op : Op)
  | writes (op : Op) (left : List Content) (answer : Answer)

def Phase.op : Phase Op Content Answer → Option Op
  | .idle => none
  | .asks op | .holds op | .writes op _ _ => some op

def Phase.holding : Phase Op Content Answer → Bool
  | .holds _ | .writes _ _ _ => true
  | .idle | .asks _ => false

structure System (Pid Op Content Refusal Answer : Type) where
  content : Content
  holder : Option Pid
  phase : Pid → Phase Op Content Answer
  log : List Op
  answers : List (Op × Except Refusal Answer)

def System.start (content : Content) : System Pid Op Content Refusal Answer := ⟨content, none, fun _ => .idle, [], []⟩

inductive Act (Pid Op Refusal : Type) where
  | begins (pid : Pid) (op : Op)
  | locks (pid : Pid)
  | reads (pid : Pid)
  | writes (pid : Pid)
  | returns (pid : Pid)
  | fails (pid : Pid) (refusal : Refusal)
  | stops (pid : Pid)

variable (R : Rewriter Op Content Refusal Answer) (fresh : List Op → Op → Prop)

section

variable [DecidableEq Pid]

def System.release (s : System Pid Op Content Refusal Answer) (pid : Pid) : System Pid Op Content Refusal Answer :=
  { s with
    phase := Function.update s.phase pid .idle
    holder := if s.holder = some pid then none else s.holder }

def System.answer (s : System Pid Op Content Refusal Answer) (pid : Pid) (op : Op) (answer : Except Refusal Answer) :
    System Pid Op Content Refusal Answer :=
  { s.release pid with answers := s.answers ++ [(op, answer)] }

def step (s : System Pid Op Content Refusal Answer) : Act Pid Op Refusal → System Pid Op Content Refusal Answer
  | .begins pid op =>
    match s.phase pid with
    | .idle =>
      match R.allows op with
      | .ok () => { s with phase := Function.update s.phase pid (.asks op) }
      | .error refusal => { s with answers := s.answers ++ [(op, .error refusal)] }
    | _ => s
  | .locks pid =>
    match s.phase pid with
    | .asks op =>
      if s.holder = none then { s with holder := some pid, phase := Function.update s.phase pid (.holds op) } else s
    | _ => s
  | .reads pid =>
    match s.phase pid with
    | .holds op =>
      match R.rewrite op s.content with
      | .ok (stages, answer) => { s with phase := Function.update s.phase pid (.writes op stages answer) }
      | .error refusal => s.answer pid op (.error refusal)
    | _ => s
  | .writes pid =>
    match s.phase pid with
    | .writes op (next :: left) answer =>
      { s with content := next, log := s.log ++ [op], phase := Function.update s.phase pid (.writes op left answer) }
    | _ => s
  | .returns pid =>
    match s.phase pid with
    | .writes op [] answer => s.answer pid op (.ok answer)
    | _ => s
  | .fails pid refusal =>
    match (s.phase pid).op with
    | some op => s.answer pid op (.error refusal)
    | none => s
  | .stops pid => s.release pid

def Drawn (s : System Pid Op Content Refusal Answer) : Act Pid Op Refusal → Prop
  | .reads pid =>
    match s.phase pid with
    | .holds op => fresh s.log op
    | _ => True
  | _ => True

end

inductive Replay (start : Content) : List Op → Content → Prop
  | start : Replay start [] start
  | stage {log : List Op} {base next : Content} {op : Op} {before after : List Content} {answer : Answer} :
    Replay start log base → fresh log op → R.rewrite op base = .ok (before ++ next :: after, answer) →
    Replay start (log ++ List.replicate (before.length + 1) op) next

def Wrote (start : Content) (log : List Op) (op : Op) (stages : List Content) (answer : Answer) (count : Nat) : Prop :=
  ∃ earlier base, Replay R fresh start earlier base ∧ fresh earlier op ∧ R.rewrite op base = .ok (stages, answer) ∧
    earlier ++ List.replicate count op <+: log

structure Sound (start : Content) (s : System Pid Op Content Refusal Answer) : Prop where
  replay : Replay R fresh start s.log s.content
  held : ∀ pid, (s.phase pid).holding = true → s.holder = some pid
  writing : ∀ pid op left answer, s.phase pid = .writes op left answer → ∃ earlier base written,
    Replay R fresh start earlier base ∧ fresh earlier op ∧ R.rewrite op base = .ok (written ++ left, answer) ∧
      s.log = earlier ++ List.replicate written.length op ∧ (base :: written).getLast? = some s.content
  answered : ∀ op answer, (op, .ok answer) ∈ s.answers → ∃ stages, Wrote R fresh start s.log op stages answer stages.length

variable {R} {fresh} {start : Content} {s : System Pid Op Content Refusal Answer}

theorem sound_start : Sound R fresh start (System.start start : System Pid Op Content Refusal Answer) :=
  ⟨.start, fun _ held => (nomatch held), fun _ _ _ _ writes => (nomatch writes), fun _ _ told => (nomatch told)⟩

theorem Replay.keeps {I : List Op → Content → Prop} (first : I [] start)
    (each : ∀ log base op before next after answer, I log base → fresh log op →
      R.rewrite op base = .ok (before ++ next :: after, answer) →
      I (log ++ List.replicate (before.length + 1) op) next)
    {log : List Op} {content : Content} (replay : Replay R fresh start log content) : I log content := by
  induction replay with
  | start => exact first
  | stage _ drawn rewrote ih => exact each _ _ _ _ _ _ _ ih drawn rewrote

theorem Wrote.extend {log more : List Op} {op : Op} {stages : List Content} {answer : Answer} {count : Nat}
    (wrote : Wrote R fresh start log op stages answer count) (extends_ : log <+: more) :
    Wrote R fresh start more op stages answer count := by
  obtain ⟨earlier, base, replay, drawn, rewrote, logged⟩ := wrote
  exact ⟨earlier, base, replay, drawn, rewrote, logged.trans extends_⟩

variable [DecidableEq Pid]

theorem Sound.release (sound : Sound R fresh start s) (pid : Pid) : Sound R fresh start (s.release pid) := by
  refine ⟨sound.replay, fun other held => ?_, fun other op left answer writes => ?_, sound.answered⟩
  · by_cases same : other = pid
    · subst same
      simp [System.release, Phase.holding] at held
    · have before := sound.held other (by simpa [System.release, same] using held)
      have apart : s.holder ≠ some pid := by
        rw [before]
        simpa using same
      simp [System.release, before, same]
  · by_cases same : other = pid
    · subst same
      simp [System.release] at writes
    · exact sound.writing other op left answer (by simpa [System.release, same] using writes)

theorem Sound.answer (sound : Sound R fresh start s) (pid : Pid) {op : Op} {told : Except Refusal Answer}
    (true_ : ∀ answer, told = .ok answer → ∃ stages, Wrote R fresh start s.log op stages answer stages.length) :
    Sound R fresh start (s.answer pid op told) := by
  have released := sound.release pid
  refine ⟨released.replay, released.held, released.writing, fun other answer listed => ?_⟩
  rcases List.mem_append.mp listed with before | here
  · exact sound.answered other answer before
  · simp only [List.mem_singleton, Prod.mk.injEq] at here
    obtain ⟨rfl, rfl⟩ := here
    exact true_ answer rfl

omit [DecidableEq Pid] in
theorem drawn_any (s : System Pid Op Content Refusal Answer) (act : Act Pid Op Refusal) :
    Drawn (fun _ _ => True) s act := by
  unfold Drawn
  split
  · split <;> trivial
  · trivial

theorem Sound.moves (sound : Sound R fresh start s) {pid : Pid} {phase : Phase Op Content Answer} {holder : Option Pid}
    (held : phase.holding = true → holder = some pid)
    (others : ∀ other, other ≠ pid → s.holder = some other → holder = some other)
    (writing : ∀ op left answer, phase = .writes op left answer →
      fresh s.log op ∧ R.rewrite op s.content = .ok (left, answer)) :
    Sound R fresh start { s with phase := Function.update s.phase pid phase, holder := holder } := by
  refine ⟨sound.replay, fun other holds => ?_, fun other op left answer writes => ?_, sound.answered⟩
  · by_cases same : other = pid
    · subst same
      exact held (by simpa using holds)
    · exact others other same (sound.held other (by simpa [same] using holds))
  · by_cases same : other = pid
    · subst same
      obtain ⟨drawn, rewrote⟩ := writing op left answer (by simpa using writes)
      exact ⟨s.log, s.content, [], sound.replay, drawn, rewrote, by simp, rfl⟩
    · exact sound.writing other op left answer (by simpa [same] using writes)

theorem Sound.writes (sound : Sound R fresh start s) {pid : Pid} {op : Op} {next : Content} {left : List Content}
    {answer : Answer}
    (writes : s.phase pid = .writes op (next :: left) answer) :
    Sound R fresh start { s with
      content := next, log := s.log ++ [op], phase := Function.update s.phase pid (.writes op left answer) } := by
  obtain ⟨earlier, base, written, replay, drawn, rewrote, logged, _⟩ := sound.writing pid op _ _ writes
  have holds := sound.held pid (by rw [writes]; rfl)
  have here : s.log ++ [op] = earlier ++ List.replicate (written.length + 1) op := by
    rw [logged, List.append_assoc, List.replicate_succ']
  refine ⟨?_, fun other held => ?_, fun other op' left' answer' writes' => ?_, fun op' answer' told => ?_⟩
  · show Replay R fresh start (s.log ++ [op]) next
    rw [here]
    exact .stage replay drawn rewrote
  · by_cases same : other = pid
    · rwa [same]
    · exact sound.held other (by simpa [same] using held)
  · by_cases same : other = pid
    · subst same
      simp only [Function.update_self, Phase.writes.injEq] at writes'
      obtain ⟨rfl, rfl, rfl⟩ := writes'
      exact ⟨earlier, base, written ++ [next], replay, drawn, by simpa using rewrote, by simpa using here,
        by rw [← List.cons_append, List.getLast?_concat]⟩
    · replace writes' : s.phase other = .writes op' left' answer' := by simpa [same] using writes'
      have also := sound.held other (by rw [writes']; rfl)
      rw [holds] at also
      exact absurd (Option.some.inj also).symm same
  · obtain ⟨stages, wrote⟩ := sound.answered op' answer' told
    exact ⟨stages, wrote.extend (List.prefix_append _ _)⟩

theorem sound_step (sound : Sound R fresh start s) (act : Act Pid Op Refusal) (drawn : Drawn fresh s act) :
    Sound R fresh start (step R s act) := by
  cases act with
  | begins pid op =>
    unfold step
    dsimp only
    split
    · split
      · exact sound.moves (fun held => (nomatch held)) (fun _ _ holder => holder) (fun _ _ _ writes => (nomatch writes))
      refine ⟨sound.replay, sound.held, sound.writing, fun other answer told => ?_⟩
      rcases List.mem_append.mp told with before | here
      · exact sound.answered other answer before
      · simp at here
    · exact sound
  | locks pid =>
    unfold step
    dsimp only
    split
    · split
      · rename_i free
        exact sound.moves (fun _ => rfl) (fun other _ holder => by rw [free] at holder; cases holder)
          (fun _ _ _ writes => (nomatch writes))
      · exact sound
    · exact sound
  | reads pid =>
    unfold step
    dsimp only
    split
    · rename_i holds
      have holder := sound.held pid (by rw [holds]; rfl)
      split
      · rename_i rewrote
        refine sound.moves (fun _ => holder) (fun _ _ holder => holder) ?_
        rintro op left answer ⟨⟩
        rw [Drawn, holds] at drawn
        exact ⟨drawn, rewrote⟩
      · exact sound.answer pid fun _ told => (nomatch told)
    · exact sound
  | writes pid =>
    unfold step
    dsimp only
    split
    · rename_i writes
      exact sound.writes writes
    · exact sound
  | returns pid =>
    unfold step
    dsimp only
    split
    · rename_i op answer writes
      refine sound.answer pid ?_
      rintro other ⟨⟩
      obtain ⟨earlier, base, written, replay, drawn, rewrote, logged, _⟩ := sound.writing pid op [] answer writes
      rw [List.append_nil] at rewrote
      exact ⟨written, earlier, base, replay, drawn, rewrote, logged ▸ List.prefix_rfl⟩
    · exact sound
  | fails pid refusal =>
    unfold step
    dsimp only
    split
    · exact sound.answer pid fun _ told => (nomatch told)
    · exact sound
  | stops pid => exact sound.release pid

theorem sound_run {acts : List (Act Pid Op Refusal)} (drawn : AlongRun (step R) (Drawn fresh) (System.start start) acts) :
    Sound R fresh start (runWith (step R) (System.start start) acts) :=
  runWith_keeps (I := Sound R fresh start) (fun _ act sound drawn => sound_step sound act drawn) sound_start drawn

theorem Sound.content (sound : Sound R fresh start s) (act : Act Pid Op Refusal) :
    (step R s act).content = s.content ∨ ∃ earlier op base written left answer, Replay R fresh start earlier base ∧
      R.rewrite op base = .ok (written ++ (step R s act).content :: left, answer) ∧
      (base :: written).getLast? = some s.content := by
  cases act with
  | writes pid =>
    cases phase : s.phase pid with
    | writes op left answer =>
      cases left with
      | nil =>
        left
        simp only [step, phase]
      | cons next left =>
        obtain ⟨earlier, base, written, replay, _, rewrote, _, last⟩ := sound.writing pid op _ _ phase
        refine .inr ⟨earlier, op, base, written, left, answer, replay, ?_, last⟩
        simpa only [step, phase] using rewrote
    | _ =>
      left
      simp only [step, phase]
  | _ =>
    left
    unfold step
    dsimp only
    repeat' split
    all_goals rfl

theorem step_grows (s : System Pid Op Content Refusal Answer) (act : Act Pid Op Refusal) :
    s.log <+: (step R s act).log ∧ s.answers <+: (step R s act).answers := by
  cases act <;> unfold step <;> (repeat' split) <;>
    first
      | exact ⟨List.prefix_rfl, List.prefix_rfl⟩
      | exact ⟨List.prefix_rfl, List.prefix_append _ _⟩
      | exact ⟨List.prefix_append _ _, List.prefix_rfl⟩

theorem run_grows (s : System Pid Op Content Refusal Answer) (acts : List (Act Pid Op Refusal)) :
    s.log <+: (runWith (step R) s acts).log ∧ s.answers <+: (runWith (step R) s acts).answers := by
  induction acts generalizing s with
  | nil => exact ⟨List.prefix_rfl, List.prefix_rfl⟩
  | cons act acts ih =>
    have first := step_grows s act (R := R)
    exact ⟨first.1.trans (ih _).1, first.2.trans (ih _).2⟩

end CommonMeasure.Locked
