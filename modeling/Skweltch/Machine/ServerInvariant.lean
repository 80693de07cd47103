import Skweltch.Machine.Server

/-!
# Skweltch — what the machine server believes to be running

`current` reads off the acts of a run which machine was started since the last kill. The server is
sound when its own variables say the same. A start command that finds no configuration can break
that in two ways; `Careless` says when, and every other step keeps the server sound.
-/

namespace Skweltch

open EventLoop

namespace Server

/-! ## What is running

What is running is read off the acts of the server: the last start that has succeeded since the last
kill. -/

def follow : Option (Json × List Nat) → ServerAct → Option (Json × List Nat)
  | _, .kill => none
  | _, .start config tasks (.returned true) => some (config, tasks.map Task.pid)
  | c, _ => c

/-- The machine started since the last kill. -/
def current (acts : List ServerAct) : Option (Json × List Nat) := acts.foldl follow none

theorem current_append (acts more : List ServerAct) :
    current (acts ++ more) = more.foldl follow (current acts) := List.foldl_append

/-- The server's variables say what is running. -/
def Sound (acts : List ServerAct) (s : ServerState) : Prop :=
  s.state = .running → current acts = some (s.r, s.pids)

/-! ## Start commands without a configuration

A start command whose machine is not found starts the configuration that is still held, and one
whose configuration does not parse starts none. When that matters is said about the command, the
answers of the outside and the state before. -/

/-- The machine is not in the database. -/
def NotFound : ServerEvent → Prop
  | .command msg ans =>
    match branch msg with
    | .loadFromDb id => ans.db id = .missing
    | _ => False
  | _ => False

def Unparsable : ServerEvent → Prop
  | .command msg ans =>
    match branch msg with
    | .loadFromDb id => ∃ left, ans.db id = .found (.failed left)
    | .loadFromFile config => ∃ left, ans.file config = .failed left
    | _ => False
  | _ => False

def Stoppable (s : ServerState) : ServerEvent → Prop
  | .command _ ans => s.state = .running → ans.killSent = true
  | _ => True

variable (real : ℚ → Str) (control : Int)

/-- `start` on the configuration still held would launch something. -/
def StaleStarts (s : ServerState) : ServerEvent → Prop
  | .command _ ans => (TaskMonitor.start (monitor real control ans) s.r).1 ≠ []
  | _ => False

/-- A start command that arrives while a machine runs and does not parse, or that finds no machine
while the configuration still held would launch processes. -/
def Careless (s : ServerState) (e : ServerEvent) : Prop :=
  Stoppable s e ∧
    ((s.state = .running ∧ Unparsable e) ∨ (NotFound e ∧ StaleStarts real control s e))

def stopped (s : ServerState) : List ServerAct :=
  if s.state = .running then [.kill, .waitFinish s.pids] else []

def leftPids (s : ServerState) : List Nat := if s.state = .running then [] else s.pids

variable {real : ℚ → Str} {control : Int}

/-- Where the children can be stopped, a start command goes on to load the configuration. -/
theorem startCommand_eq {s : ServerState} {ans : Answers}
    (h : s.state = .running → ans.killSent = true) (loaded : Loaded) :
    startCommand real control s ans loaded =
      load real control { s with pids := leftPids s } ans (stopped s) loaded := by
  unfold startCommand stopped leftPids
  by_cases hs : s.state = .running
  · rw [if_pos hs, if_pos (h hs), if_pos hs, if_pos hs]
  · rw [if_neg hs, if_neg hs, if_neg hs]

theorem startCommand_stuck {s : ServerState} {ans : Answers}
    (h : ¬ (s.state = .running → ans.killSent = true)) (loaded : Loaded) :
    startCommand real control s ans loaded = ([], .exit (.returned 1)) := by
  obtain ⟨hs, hk⟩ := Classical.not_imp.mp h
  rw [startCommand, if_pos hs, if_neg hk]

/-- What a command that leaves the server in its loop can have done. -/
inductive Kept (s : ServerState) (e : ServerEvent) : List ServerAct → ServerState → Prop
  | nothing : Kept s e [] s
  | vented (tasks : List Task) : s.state = .running →
      Kept s e [.doVent s.r tasks, .waitFinish (tasks.map Task.pid)] s
  | stopped : Kept s e [.kill, .waitFinish s.pids] { s with state := .idle, pids := [] }
  | skipped (left : Json) : Unparsable e → Stoppable s e →
      Kept s e (stopped s) { s with r := left, pids := leftPids s }
  | started (config : Json) (tasks : List Task) :
      Kept s e (stopped s ++ [.start config tasks (.returned true)])
        { state := .running
          r := config
          pids := leftPids s ++ tasks.map Task.pid }

/-- A configuration is started: afterwards the server runs it. -/
theorem startLoaded_next {s s' : ServerState} {ans : Answers} {done o : List ServerAct}
    {config : Json} (h : startLoaded real control s ans done config = (o, .next s')) :
    ∃ tasks, o = done ++ [.start config tasks (.returned true)] ∧
      s' = { state := .running
             r := config
             pids := s.pids ++ tasks.map Task.pid } := by
  rcases hstart : TaskMonitor.start (monitor real control ans) config with ⟨tasks, ending⟩
  simp only [startLoaded, hstart] at h
  cases ending with
  | returned b =>
    cases b with
    | true =>
      simp only [Prod.mk.injEq, Flow.next.injEq] at h
      exact ⟨tasks, h.1.symm, h.2.symm⟩
    | false => simp at h
  | escaped f => simp at h

/-- What loading comes to, if the server goes on. -/
theorem load_next {s s' : ServerState} {ans : Answers} {done o : List ServerAct} {loaded : Loaded}
    (h : load real control s ans done loaded = (o, .next s')) :
    (∃ left, loaded = .skip left ∧ o = done ∧ s' = { s with r := left }) ∨
      ∃ config tasks, o = done ++ [.start config tasks (.returned true)] ∧
        s' = { state := .running
               r := config
               pids := s.pids ++ tasks.map Task.pid } := by
  cases loaded with
  | threw => simp [load] at h
  | skip left =>
    simp only [load, Prod.mk.injEq, Flow.next.injEq] at h
    exact Or.inl ⟨left, rfl, h.1.symm, h.2.symm⟩
  | go config =>
    obtain ⟨tasks, ho, hs'⟩ := startLoaded_next h
    exact Or.inr ⟨config, tasks, ho, hs'⟩

/-- What a start command preserves, if the server goes on. -/
theorem startCommand_next {s s' : ServerState} {e : ServerEvent} {ans : Answers}
    {o : List ServerAct} {loaded : Loaded}
    (hstop : (s.state = .running → ans.killSent = true) → Stoppable s e)
    (hskip : ∀ left, loaded = .skip left → Unparsable e)
    (h : startCommand real control s ans loaded = (o, .next s')) : Kept s e o s' := by
  by_cases hk : s.state = .running → ans.killSent = true
  · rw [startCommand_eq hk] at h
    rcases load_next h with ⟨left, hl, rfl, rfl⟩ | ⟨config, tasks, rfl, rfl⟩
    · exact .skipped left (hskip left hl) (hstop hk)
    · exact .started config tasks
  · rw [startCommand_stuck hk] at h
    simp at h

theorem ofRead_skip {text : ReadJson} {left : Json} (h : ofRead text = .skip left) :
    text = .failed left := by
  cases text with
  | parsed v => cases h
  | failed v =>
    cases h
    rfl

/-- What every command preserves, if the server goes on. -/
theorem body_next {s s' : ServerState} {e : ServerEvent} {o : List ServerAct}
    (h : body real control s e = (o, .next s')) : Kept s e o s' := by
  cases e with
  | interrupted => simp [body] at h
  | garbage => simp [body] at h
  | command msg ans =>
    simp only [body] at h
    cases hb : branch msg with
    | loadFromDb id =>
      rw [hb] at h
      -- both kinds of start differ in where the configuration comes from
      refine startCommand_next (fun hk => hk) (fun left hl => ?_) h
      simp only [Unparsable, hb]
      cases hdb : ans.db id with
      | threw =>
        rw [hdb] at hl
        cases hl
      | missing =>
        rw [hdb] at hl
        cases hl
      | found text =>
        rw [hdb] at hl
        exact ⟨left, by rw [ofRead_skip hl]⟩
    | loadFromFile config =>
      rw [hb] at h
      refine startCommand_next (fun hk => hk) (fun left hl => ?_) h
      simp only [Unparsable, hb]
      exact ⟨left, ofRead_skip hl⟩
    | vent =>
      rw [hb] at h
      simp only [ventCommand] at h
      split at h
      · next hs =>
        split at h
        · cases h
          exact .vented _ hs
        · simp at h
        · simp at h
      · cases h
        exact .nothing
    | stop =>
      rw [hb] at h
      simp only [stopCommand] at h
      split at h
      · split at h
        · cases h
          exact .stopped
        · simp at h
      · cases h
        exact .nothing
    -- quitting ends the loop in every case
    | quit =>
      rw [hb] at h
      simp only [quitCommand] at h
      split at h
      · split at h
        · simp at h
        · simp at h
      · simp at h
    | unknown =>
      rw [hb] at h
      cases h
      exact .nothing

/-! ## The invariant

As long as no command is careless, the variables of the server say what is running, and a server
that runs nothing has no pids left. -/

structure Inv (acts : List ServerAct) (s : ServerState) : Prop where
  sound : Sound acts s
  idle : s.state ≠ .running → s.pids = []

theorem inv_init : Inv [] init where
  sound := fun h => by cases h
  idle := fun _ => rfl

/-- What one step preserves, unless it is careless. -/
theorem inv_step {acts o : List ServerAct} {s s' : ServerState} {e : ServerEvent}
    (hinv : Inv acts s) (hok : ¬ Careless real control s e)
    (h : body real control s e = (o, .next s')) : Inv (acts ++ o) s' := by
  have hleft : leftPids s = [] := by
    unfold leftPids
    split
    · rfl
    · next hs => exact hinv.idle hs
  cases body_next h with
  | nothing =>
    rw [List.append_nil]
    exact hinv
  | vented tasks hs =>
    refine ⟨fun hs' => ?_, hinv.idle⟩
    rw [current_append]
    exact hinv.sound hs'
  | stopped => exact ⟨fun hs' => absurd hs' (by simp), fun _ => rfl⟩
  | skipped left hparse hstop =>
    -- the machine was not running, or the step would be careless
    have hs : s.state ≠ .running := fun hs => hok ⟨hstop, Or.inl ⟨hs, hparse⟩⟩
    exact ⟨fun hs' => absurd hs' hs, fun _ => hleft⟩
  | started config tasks =>
    refine ⟨fun _ => ?_, fun hs' => absurd rfl hs'⟩
    rw [current_append, List.foldl_append]
    simp only [List.foldl_cons, List.foldl_nil, follow, hleft, List.nil_append]

/-! ## Whole runs

The invariant holds at the end of every run without a careless command. Conversely a careless
command makes its turn unsafe. -/

/-- The configuration of a start command cannot be found or parsed. -/
def Unloadable (e : ServerEvent) : Prop := NotFound e ∨ Unparsable e

/-- What is asked of a turn: a start command without a configuration starts no process, and
venting is done for a machine that runs. -/
structure SafeTurn (real : ℚ → Str) (control : Int) (acts : List ServerAct) (s : ServerState)
    (e : ServerEvent) : Prop where
  starts : Unloadable e → ∀ config tasks ending,
    .start config tasks ending ∈ (body real control s e).1 → tasks = []
  vents : ∀ config tasks, .doVent config tasks ∈ (body real control s e).1 →
    ∃ pids, current acts = some (config, pids)

/-- The server is sound between any two messages, and every turn is safe. -/
def SafeRun (real : ℚ → Str) (control : Int) (es : List ServerEvent) : Prop :=
  ∀ pre, pre <+: es → ∀ outs s, run (body real control) init pre = (outs, .next s) →
    Sound outs.flatten s ∧
      ∀ e, pre ++ [e] <+: es → SafeTurn real control outs.flatten s e

theorem not_mem_stopped (s : ServerState) (config : Json) (tasks : List Task) (ending : Ending) :
    ServerAct.start config tasks ending ∉ stopped s := by
  unfold stopped
  split <;> simp

theorem startLoaded_acts (s : ServerState) (ans : Answers) (done : List ServerAct)
    (config : Json) :
    (startLoaded real control s ans done config).1 =
      done ++ [.start config (TaskMonitor.start (monitor real control ans) config).1
        (TaskMonitor.start (monitor real control ans) config).2] := by
  simp only [startLoaded]
  split <;> rfl

/-- The acts of a start command whose machine is not found. -/
theorem body_notFound {s : ServerState} {msg : MachineMsg} {ans : Answers}
    (h : NotFound (.command msg ans)) (hstop : Stoppable s (.command msg ans)) :
    (body real control s (.command msg ans)).1 =
      stopped s ++ [.start s.r (TaskMonitor.start (monitor real control ans) s.r).1
        (TaskMonitor.start (monitor real control ans) s.r).2] := by
  simp only [NotFound] at h
  cases hb : branch msg with
  | loadFromDb id =>
    rw [hb] at h
    simp only at h
    simp only [body, hb, h, loadDb]
    rw [startCommand_eq hstop, load, startLoaded_acts]
  | _ =>
    rw [hb] at h
    exact h.elim

/-- A start command that does not parse stops what runs and starts nothing. -/
theorem body_unparsable {s : ServerState} {e : ServerEvent} (h : Unparsable e)
    (hstop : Stoppable s e) :
    ∃ left, body real control s e =
      (stopped s, .next { s with r := left, pids := leftPids s }) := by
  cases e with
  | command msg ans =>
    simp only [Unparsable] at h
    cases hb : branch msg with
    | loadFromDb id =>
      rw [hb] at h
      obtain ⟨left, hdb⟩ := h
      refine ⟨left, ?_⟩
      simp only [body, hb, hdb, loadDb, ofRead]
      rw [startCommand_eq hstop, load]
    | loadFromFile config =>
      rw [hb] at h
      obtain ⟨left, hfile⟩ := h
      refine ⟨left, ?_⟩
      simp only [body, hb, hfile, ofRead]
      rw [startCommand_eq hstop, load]
    | _ =>
      rw [hb] at h
      exact h.elim
  | _ => exact h.elim

/-- A start command that cannot stop what runs does nothing. -/
theorem body_not_stoppable {s : ServerState} {e : ServerEvent} (h : Unloadable e)
    (hstop : ¬ Stoppable s e) : (body real control s e).1 = [] := by
  cases e with
  | command msg ans =>
    have hbranch : (∃ id, branch msg = .loadFromDb id) ∨
        ∃ config, branch msg = .loadFromFile config := by
      simp only [Unloadable, NotFound, Unparsable] at h
      cases hb : branch msg with
      | loadFromDb id => exact Or.inl ⟨id, rfl⟩
      | loadFromFile config => exact Or.inr ⟨config, rfl⟩
      | _ =>
        rw [hb] at h
        exact (h.elim id id).elim
    rcases hbranch with ⟨id, hb⟩ | ⟨config, hb⟩
    · simp only [body, hb]
      rw [startCommand_stuck hstop]
    · simp only [body, hb]
      rw [startCommand_stuck hstop]
  | _ => exact (h.elim id id).elim

/-- Loading a configuration starts no vent. -/
theorem doVent_not_mem_load {config : Json} {tasks : List Task} (s : ServerState)
    (ans : Answers) {done : List ServerAct} (h : .doVent config tasks ∉ done)
    (loaded : Loaded) : .doVent config tasks ∉ (load real control s ans done loaded).1 := by
  cases loaded with
  | threw => exact h
  | skip left => exact h
  | go config =>
    rw [load, startLoaded_acts]
    simpa using h

/-- A start command vents nothing. -/
theorem doVent_not_mem_startCommand {config : Json} {tasks : List Task} (s : ServerState)
    (ans : Answers) (loaded : Loaded) :
    .doVent config tasks ∉ (startCommand real control s ans loaded).1 := by
  by_cases hk : s.state = .running → ans.killSent = true
  · rw [startCommand_eq hk]
    apply doVent_not_mem_load
    unfold stopped
    split <;> simp
  · rw [startCommand_stuck hk]
    exact List.not_mem_nil

/-- A vent is started only while the server runs, and for its own configuration. -/
theorem vent_running {s : ServerState} {e : ServerEvent} {config : Json} {tasks : List Task}
    (h : .doVent config tasks ∈ (body real control s e).1) :
    s.state = .running ∧ config = s.r := by
  cases e with
  | interrupted => exact absurd h List.not_mem_nil
  | garbage => exact absurd h List.not_mem_nil
  | command msg ans =>
    simp only [body] at h
    cases hb : branch msg with
    | loadFromDb id =>
      rw [hb] at h
      exact absurd h (doVent_not_mem_startCommand s ans _)
    | loadFromFile c =>
      rw [hb] at h
      exact absurd h (doVent_not_mem_startCommand s ans _)
    | vent =>
      rw [hb] at h
      simp only [ventCommand] at h
      split at h
      -- the one command that starts a vent asks for the state first
      · next hs =>
        refine ⟨hs, ?_⟩
        split at h <;> simp at h <;> exact h.1
      · exact absurd h List.not_mem_nil
    | stop =>
      rw [hb] at h
      simp only [stopCommand] at h
      split at h
      · split at h <;> simp at h
      · simp at h
    | quit =>
      rw [hb] at h
      simp only [quitCommand] at h
      split at h
      · split at h <;> simp at h
      · simp at h
    | unknown =>
      rw [hb] at h
      exact absurd h List.not_mem_nil

/-- A turn from a sound server is safe unless it is careless about a machine not found. -/
theorem safeTurn_of {acts : List ServerAct} {s : ServerState} {e : ServerEvent}
    (hsound : Sound acts s) (hok : ¬ Careless real control s e) :
    SafeTurn real control acts s e where
  starts hload config tasks ending hmem := by
    by_cases hstop : Stoppable s e
    · rcases hload with hmissing | hparse
      · cases e with
        | command msg ans =>
          rw [body_notFound hmissing hstop, List.mem_append] at hmem
          rcases hmem with hmem | hmem
          · exact absurd hmem (not_mem_stopped s config tasks ending)
          · obtain ⟨-, rfl, -⟩ : config = s.r ∧ tasks = _ ∧ ending = _ := by simpa using hmem
            by_contra hne
            exact hok ⟨hstop, Or.inr ⟨hmissing, hne⟩⟩
        | _ => exact hmissing.elim
      · obtain ⟨left, hbody⟩ := @body_unparsable real control _ _ hparse hstop
        rw [hbody] at hmem
        exact absurd hmem (not_mem_stopped s config tasks ending)
    · rw [body_not_stoppable hload hstop] at hmem
      exact absurd hmem List.not_mem_nil
  vents config tasks hmem := by
    obtain ⟨hs, rfl⟩ := vent_running hmem
    exact ⟨s.pids, hsound hs⟩

/-- **When the server is right about what runs.** In a run none of whose turns is careless, and in
no other, the server is sound between any two messages and every turn is safe. -/
theorem safeRun_iff (real : ℚ → Str) (control : Int) (es : List ServerEvent) :
    SafeRun real control es ↔
      ∀ pre e, pre ++ [e] <+: es → ∀ outs s, run (body real control) init pre = (outs, .next s) →
        ¬ Careless real control s e := by
  refine ⟨fun hsafe pre e hpre outs s hrun hbad => ?_, fun hok pre hpre outs s hrun => ?_⟩
  · obtain ⟨hstop, hwhich⟩ := hbad
    rcases hwhich with ⟨hs, hparse⟩ | ⟨hmissing, hstale⟩
    · -- the machine is stopped and the server still says it is running
      obtain ⟨left, hbody⟩ := @body_unparsable real control _ _ hparse hstop
      have hnext := run_snoc hrun e
      rw [hbody] at hnext
      have hsound := (hsafe _ hpre _ _ hnext).1 hs
      rw [List.flatten_append, current_append, stopped, if_pos hs] at hsound
      simp [follow] at hsound
    · cases e with
      | command msg ans =>
        have hturn := (hsafe pre ((List.prefix_append _ _).trans hpre) outs s hrun).2 _ hpre
        have hacts := @body_notFound real control _ _ _ hmissing hstop
        refine hstale (hturn.starts (Or.inl hmissing) s.r _
          (TaskMonitor.start (monitor real control ans) s.r).2 ?_)
        rw [hacts]
        exact List.mem_append_right _ (List.mem_singleton.mpr rfl)
      | _ => exact hmissing.elim
  · have hinv : Inv outs.flatten s := by
      apply run_invariant_guarded (I := fun _ acts s => Inv acts s)
        (G := fun s e => ¬ Careless real control s e) inv_init _ _ hrun
      · intro _ acts s e o s' hinv hstep hbody
        exact inv_step hinv hstep hbody
      · intro pre' e hpre' outs' s' hrun'
        exact hok pre' e (hpre'.trans hpre) outs' s' hrun'
    exact ⟨hinv.sound, fun e he => safeTurn_of hinv.sound (hok pre e he outs s hrun)⟩

/-- Start a machine from this text, with everything else going well. -/
def startFile (text : ReadJson) : ServerEvent :=
  .command { code := 2, data := "m.json".toList }
    { killSent := true
      db := fun _ => .missing
      file := fun _ => text
      run := fun n => n + 1 }

def emptyMachine : Json := .obj [("blocks".toList, .arr [])]

/-- A second start whose file does not parse stops the first machine, and the server goes on
saying that it runs. -/
theorem not_safeRun :
    ¬ ∀ (real : ℚ → Str) (control : Int) (es : List ServerEvent), SafeRun real control es := by
  intro h
  have hrun : run (body (fun _ => []) 7000) init
      [startFile (.parsed emptyMachine), startFile (.failed .null)] =
      ([[.start emptyMachine [] (.returned true)], [.kill, .waitFinish []]],
        .next { state := .running, r := .null, pids := [] }) := rfl
  have hsound := (h (fun _ => []) 7000 _ _ List.prefix_rfl _ _ hrun).1 rfl
  exact absurd hsound (by simp [current, follow])

end Server

end Skweltch
