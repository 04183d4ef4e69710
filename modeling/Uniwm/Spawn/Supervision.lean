import Mathlib.Data.List.Induction
import Mathlib.Tactic.SplitIfs
import Uniwm.Spawn.CommandLine
import Uniwm.Model.Supervisor
import Uniwm.Base.Machine

/-!
# uniwm — one worker at a time

`run_supervisor` starts a new worker when its wait for the old one has ended. It does not look
at the result of `wm_proc_wait`, although that function has an error for a wait that fails, and
although the result of `wm_proc_spawn_self` is looked at.

* A worker that runs is held by the loop (`Holds`), or a wait for it failed and the loop went on
  without it (`Lost`): `holds_or_lost`, an invariant of every run.
* A worker that was lost stays so until it exits by itself (`Stray`, `stray_run`).
* `oneWorker_iff`: a worker is created only when none runs, in every step of a run, exactly if
  each worker whose wait fails exits before the next one is created.
* `lost_worker_runs`: a wait fails, and the next worker is created beside the old one.

`supervise_attempts` is the connection to `runSupervisor`.
-/

namespace Uniwm

open Base

-- ----------------------------------------------------------------------------
-- What a spawn goes on to do
-- ----------------------------------------------------------------------------

/-- These calls create no process, and they terminate the one created if there is no child. -/
def Settles (attempt : Attempt) (todo : List ProcCall) : Prop :=
  (∀ line, .createProcess line ∉ todo) ∧
    (attempt.spawned.error = .ok ∨ ∃ p, .terminateProcess p ∈ todo)

theorem notMem_of_commandLine {calls : List ProcCall}
    (h : calls.filterMap ProcCall.commandLine = []) (line : List WChar) :
    .createProcess line ∉ calls := by
  intro hmem
  have := List.filterMap_eq_nil_iff.mp h _ hmem
  cases this

/-- The calls of a spawn that creates a process: those behind the creation settle it. -/
theorem spawn_calls {w : SpawnSystem} {args : List Argument} {cmdline : List WChar}
    (hbuilt : buildCommandLine w args = .ok cmdline) (hcreated : w.createProcess.isSome)
    (j : Job) :
    ∃ after, (wmProcSpawnSelf w j args true).calls =
        (ensureJob w j).2 ++ .createProcess cmdline :: after ∧
      Settles ⟨w, wmProcSpawnSelf w j args true⟩ after := by
  obtain ⟨⟨process, thread⟩, hprocess⟩ := Option.isSome_iff_exists.mp hcreated
  generalize hassigned : ((ensureJob w j).1.job.map fun job =>
      ProcCall.assignToJob job process).toList = assigned
  have hassign : assigned.filterMap ProcCall.commandLine = [] := by
    rw [← hassigned]
    cases (ensureJob w j).1.job <;> rfl
  cases hmalloc : w.malloc with
  | true =>
    refine ⟨assigned ++ [.resumeThread thread], ?_, ?_, Or.inl ?_⟩
    · simp [wmProcSpawnSelf, hbuilt, hprocess, hmalloc, hassigned]
    · exact notMem_of_commandLine (by simp [hassign, ProcCall.commandLine])
    · simp [wmProcSpawnSelf, hbuilt, hprocess, hmalloc]
  | false =>
    -- without memory for the child the process is terminated at once
    refine ⟨assigned ++ [.resumeThread thread, .terminateProcess process, .closeHandle thread,
      .closeHandle process], ?_, ?_, Or.inr ⟨process, by simp⟩⟩
    · simp [wmProcSpawnSelf, hbuilt, hprocess, hmalloc, hassigned]
    · exact notMem_of_commandLine (by simp [hassign, ProcCall.commandLine])

/-- Once a spawn has created its process, it settles. -/
theorem spawn_settles {w : SpawnSystem} {j : Job} {args : List Argument}
    {pre post : List ProcCall} {line : List WChar} (hcreated : w.createProcess.isSome)
    (hsplit : (wmProcSpawnSelf w j args true).calls = pre ++ .createProcess line :: post) :
    Settles ⟨w, wmProcSpawnSelf w j args true⟩ post := by
  cases hbuilt : buildCommandLine w args with
  | error e =>
    have hcalls : (wmProcSpawnSelf w j args true).calls = [] := by
      simp [wmProcSpawnSelf, hbuilt]
    rw [hcalls] at hsplit
    exact absurd hsplit (by simp)
  | ok cmdline =>
    obtain ⟨after, hcalls, hsettles⟩ := spawn_calls hbuilt hcreated j
    rw [hcalls, List.append_cons_inj_of_notMem
      (notMem_of_commandLine (ensureJob_commandLine w j) line) (hsettles.1 line)] at hsplit
    rw [← hsplit.2.2]
    exact hsettles

-- ----------------------------------------------------------------------------
-- What a step does
-- ----------------------------------------------------------------------------

/-- The supervisor stands so, with no change to its job and its workers. -/
def Supervision.at (s : Supervision) (stage : SuperviseStage) : Supervision :=
  { s with stage := stage }

/-- The steps that change something, and the others. -/
inductive Supervises (args : List Argument) (s : Supervision) :
    SuperviseAct → Supervision → Prop where
  | stays {a : SuperviseAct} (hexit : ∀ k, a ≠ .exit k) : Supervises args s a s
  | spawns {w : SpawnSystem} (hstage : s.stage = .starting) :
    Supervises args s (.spawn w)
      { s with
        job := (wmProcSpawnSelf w s.job args true).job
        stage := .calling ⟨w, wmProcSpawnSelf w s.job args true⟩
          (wmProcSpawnSelf w s.job args true).calls none }
  | creates {attempt : Attempt} {line : List WChar} {todo : List ProcCall} {worker : Option Nat}
    (hstage : s.stage = .calling attempt (.createProcess line :: todo) worker)
    (hcreated : attempt.system.createProcess.isSome) :
    Supervises args s .call
      { s with
        stage := .calling attempt todo (some s.created)
        created := s.created + 1
        alive := s.alive ++ [s.created] }
  | terminates {attempt : Attempt} {p : Handle} {todo : List ProcCall} {k : Nat}
    (hstage : s.stage = .calling attempt (.terminateProcess p :: todo) (some k)) :
    Supervises args s .call ((s.at (.calling attempt todo (some k))).bury k)
  | calls {attempt : Attempt} {c : ProcCall} {todo : List ProcCall} {worker : Option Nat}
    (hstage : s.stage = .calling attempt (c :: todo) worker)
    (hcreate : ∀ line, c = .createProcess line → ¬ attempt.system.createProcess.isSome)
    (hterminate : ∀ p, c = .terminateProcess p → worker = none) :
    Supervises args s .call (s.at (.calling attempt todo worker))
  | waits {attempt : Attempt} {k : Nat} (hstage : s.stage = .calling attempt [] (some k)) :
    Supervises args s .call (s.at (.waiting k))
  | fails {attempt : Attempt} {worker : Option Nat}
    (hstage : s.stage = .calling attempt [] worker)
    (hfail : attempt.spawned.error = .ok → worker = none) :
    Supervises args s .call (s.at .starting)
  | returns {object : Bool} {code : Int} {k : Nat} (hstage : s.stage = .waiting k)
    (halive : object = true → k ∉ s.alive) :
    Supervises args s (.wait object code) (s.at .starting)
  | exits (k : Nat) : Supervises args s (.exit k) (s.bury k)

theorem spawn_ne_exit (w : SpawnSystem) (k : Nat) : SuperviseAct.spawn w ≠ .exit k := by
  intro h
  cases h

theorem call_ne_exit (k : Nat) : SuperviseAct.call ≠ .exit k := by
  intro h
  cases h

theorem wait_ne_exit (object : Bool) (code : Int) (k : Nat) :
    SuperviseAct.wait object code ≠ .exit k := by
  intro h
  cases h

theorem Supervises.idle {args : List Argument} {s s' : Supervision} {a : SuperviseAct}
    (hexit : ∀ k, a ≠ .exit k) (hsame : s' = s) : Supervises args s a s' := by
  rw [hsame]
  exact .stays hexit

/-- The next call of a spawn. -/
theorem supervises_perform (args : List Argument) {s : Supervision} {attempt : Attempt}
    {c : ProcCall} {todo : List ProcCall} {worker : Option Nat}
    (hstage : s.stage = .calling attempt (c :: todo) worker) :
    Supervises args s .call (s.perform attempt c todo worker) := by
  cases c with
  | createProcess line =>
    rw [Supervision.perform]
    by_cases hcreated : attempt.system.createProcess.isSome
    · rw [if_pos hcreated]
      exact .creates hstage hcreated
    · rw [if_neg hcreated]
      exact .calls hstage (fun _ _ => hcreated) (by intro p h; cases h)
  | terminateProcess p =>
    cases worker with
    | none => exact .calls hstage (by intro line h; cases h) (fun _ _ => rfl)
    | some k => exact .terminates hstage
  | assignToJob job process =>
    exact .calls hstage (by intro line h; cases h) (by intro p h; cases h)
  | resumeThread thread =>
    exact .calls hstage (by intro line h; cases h) (by intro p h; cases h)
  | closeHandle handle =>
    exact .calls hstage (by intro line h; cases h) (by intro p h; cases h)

/-- The end of a spawn. -/
theorem supervises_returns (args : List Argument) {s : Supervision} {attempt : Attempt}
    {worker : Option Nat} (hstage : s.stage = .calling attempt [] worker) :
    Supervises args s .call (s.at (attempt.returns worker)) := by
  unfold Attempt.returns
  by_cases herror : attempt.spawned.error = .ok
  · rw [if_neg (not_not.mpr herror)]
    cases worker with
    | none => exact .fails hstage (fun _ => rfl)
    | some k => exact .waits hstage
  · rw [if_pos herror]
    exact .fails hstage (fun h => absurd h herror)

/-- Each step is one of these. -/
theorem supervises (args : List Argument) (s : Supervision) (a : SuperviseAct) :
    Supervises args s a (superviseStep args s a).1 := by
  cases a with
  | spawn w =>
    cases hstage : s.stage with
    | starting =>
      rw [superviseStep]
      simp only [hstage]
      exact .spawns hstage
    | calling attempt todo worker =>
      exact .idle (spawn_ne_exit w) (by simp only [superviseStep, hstage])
    | waiting k => exact .idle (spawn_ne_exit w) (by simp only [superviseStep, hstage])
  | call =>
    cases hstage : s.stage with
    | starting => exact .idle call_ne_exit (by simp only [superviseStep, hstage])
    | waiting k => exact .idle call_ne_exit (by simp only [superviseStep, hstage])
    | calling attempt todo worker =>
      rw [superviseStep]
      simp only [hstage]
      cases todo with
      | cons c todo => exact supervises_perform args hstage
      | nil => exact supervises_returns args hstage
  | wait object code =>
    have hwait := wait_ne_exit object code
    cases hstage : s.stage with
    | starting => exact .idle hwait (by simp only [superviseStep, hstage])
    | calling attempt todo worker => exact .idle hwait (by simp only [superviseStep, hstage])
    | waiting k =>
      rw [superviseStep]
      simp only [hstage]
      split_ifs with hgoes
      · exact .stays hwait
      · refine .returns hstage (fun hobject halive => hgoes ?_)
        simp [hobject, halive]
  | exit k => exact .exits k

@[simp] theorem bury_stage (s : Supervision) (k : Nat) : (s.bury k).stage = s.stage := rfl

@[simp] theorem bury_created (s : Supervision) (k : Nat) : (s.bury k).created = s.created := rfl

@[simp] theorem mem_bury {s : Supervision} {k j : Nat} :
    j ∈ (s.bury k).alive ↔ j ∈ s.alive ∧ j ≠ k := by
  simp [Supervision.bury]

section Step

variable {args : List Argument} {s s' : Supervision} {a : SuperviseAct}

/-- A worker runs after a step if it ran before and the step is not its exit, or if the step
created it. -/
theorem Supervises.alive (h : Supervises args s a s') {k : Nat} (hk : k ∈ s'.alive) :
    (k ∈ s.alive ∧ a ≠ .exit k) ∨ (k = s.created ∧ s'.created = s.created + 1) := by
  cases h with
  | stays hexit => exact Or.inl ⟨hk, hexit k⟩
  | spawns => exact Or.inl ⟨hk, spawn_ne_exit _ k⟩
  | calls => exact Or.inl ⟨hk, call_ne_exit k⟩
  | waits => exact Or.inl ⟨hk, call_ne_exit k⟩
  | fails => exact Or.inl ⟨hk, call_ne_exit k⟩
  | returns => exact Or.inl ⟨hk, wait_ne_exit _ _ k⟩
  | terminates => exact Or.inl ⟨(mem_bury.mp hk).1, call_ne_exit k⟩
  | exits j =>
    obtain ⟨hk, hne⟩ := mem_bury.mp hk
    refine Or.inl ⟨hk, ?_⟩
    intro h
    cases h
    exact hne rfl
  | creates =>
    rcases List.mem_append.mp hk with hk | hk
    · exact Or.inl ⟨hk, call_ne_exit k⟩
    · exact Or.inr ⟨List.mem_singleton.mp hk, rfl⟩

theorem Supervises.created_le (h : Supervises args s a s') : s.created ≤ s'.created := by
  cases h <;> simp [Supervision.at]

/-- Workers are numbered below the next number. -/
theorem Supervises.below (h : Supervises args s a s') (hbelow : ∀ k ∈ s.alive, k < s.created) :
    ∀ k ∈ s'.alive, k < s'.created := by
  intro k hk
  rcases h.alive hk with ⟨hk, -⟩ | ⟨rfl, hnext⟩
  · have := hbelow k hk
    have := h.created_le
    omega
  · omega

end Step

-- ----------------------------------------------------------------------------
-- The worker that the loop holds
-- ----------------------------------------------------------------------------

/-- The worker is the one of the spawn, or the one waited for. -/
def SuperviseStage.Holds : SuperviseStage → Nat → Prop
  | .starting, _ => False
  | .calling _ _ worker, k => worker = some k
  | .waiting j, k => j = k

/-- What is left of a spawn creates one process at most, and settles it. -/
def SuperviseStage.Planned (alive : List Nat) : SuperviseStage → Prop
  | .calling attempt todo none =>
    ∀ pre line post, todo = pre ++ .createProcess line :: post →
      attempt.system.createProcess.isSome → Settles attempt post
  | .calling attempt todo (some k) =>
    (∀ line, .createProcess line ∉ todo) ∧
      (k ∈ alive → attempt.spawned.error = .ok ∨ ∃ p, .terminateProcess p ∈ todo)
  | _ => True

section Step

variable {args : List Argument} {s s' : Supervision} {a : SuperviseAct}

/-- While a creation is still to come, the spawn holds no worker. -/
theorem worker_none {alive : List Nat} {attempt : Attempt} {line : List WChar}
    {todo : List ProcCall} {worker : Option Nat}
    (hplan : (SuperviseStage.calling attempt (.createProcess line :: todo) worker).Planned alive) :
    worker = none := by
  cases worker with
  | none => rfl
  | some k => exact absurd List.mem_cons_self (hplan.1 line)

theorem Supervises.planned (h : Supervises args s a s') (hplan : s.stage.Planned s.alive) :
    s'.stage.Planned s'.alive := by
  cases h with
  | stays => exact hplan
  | spawns =>
    intro pre line post hsplit hcreated
    exact spawn_settles hcreated hsplit
  | @creates attempt line todo worker hstage hcreated =>
    rw [hstage] at hplan
    obtain rfl := worker_none hplan
    obtain ⟨hnone, hsettled⟩ := hplan [] line todo rfl hcreated
    exact ⟨hnone, fun _ => hsettled⟩
  | @terminates attempt p todo k hstage =>
    rw [hstage] at hplan
    refine ⟨fun line hline => hplan.1 line (List.mem_cons_of_mem _ hline), ?_⟩
    -- the worker has just been ended
    intro hk
    exact absurd rfl (mem_bury.mp hk).2
  | @calls attempt c todo worker hstage hcreate hterminate =>
    rw [hstage] at hplan
    cases worker with
    | none =>
      intro pre line post hsplit hcreated
      exact hplan (c :: pre) line post (by rw [hsplit, List.cons_append]) hcreated
    | some k =>
      refine ⟨fun line hline => hplan.1 line (List.mem_cons_of_mem _ hline), ?_⟩
      intro hk
      rcases hplan.2 hk with hok | ⟨p, hp⟩
      · exact Or.inl hok
      · rcases List.mem_cons.mp hp with hp | hp
        · exact absurd (hterminate p hp.symm) (Option.some_ne_none k)
        · exact Or.inr ⟨p, hp⟩
  | waits => trivial
  | fails => trivial
  | returns => trivial
  | exits j =>
    rw [bury_stage]
    rcases hstage : s.stage with _ | ⟨attempt, todo, _ | k⟩ | k
    · trivial
    · rw [hstage] at hplan
      exact hplan
    · rw [hstage] at hplan
      exact ⟨hplan.1, fun hk => hplan.2 (mem_bury.mp hk).1⟩
    · trivial

end Step

-- ----------------------------------------------------------------------------
-- Workers that were lost
-- ----------------------------------------------------------------------------

/-- The step creates a worker. -/
def Creates (s : Supervision) (a : SuperviseAct) : Prop :=
  a = .call ∧ ∃ attempt line todo worker,
    s.stage = .calling attempt (.createProcess line :: todo) worker ∧
      attempt.system.createProcess.isSome

/-- The wait for the worker `k` fails, and the worker runs. -/
def FailsWait (s : Supervision) (a : SuperviseAct) (k : Nat) : Prop :=
  (∃ code, a = .wait false code) ∧ s.stage = .waiting k ∧ k ∈ s.alive

/-- The state after `acts`. -/
abbrev supervise (args : List Argument) (acts : List SuperviseAct) : Supervision :=
  final (superviseStep args) .init acts

/-- A wait for the worker failed while it was running, and it has not exited since. -/
def Lost (args : List Argument) (past : List SuperviseAct) (k : Nat) : Prop :=
  ∃ before a after, past = before ++ a :: after ∧ FailsWait (supervise args before) a k ∧
    .exit k ∉ after

theorem supervise_concat (args : List Argument) (past : List SuperviseAct) (a : SuperviseAct) :
    supervise args (past ++ [a]) = (superviseStep args (supervise args past) a).1 := by
  rw [supervise, final_append]
  rfl

section Runs

variable {args : List Argument} {past : List SuperviseAct} {a : SuperviseAct} {k : Nat}

theorem Lost.concat (h : Lost args past k) (ha : a ≠ .exit k) : Lost args (past ++ [a]) k := by
  obtain ⟨before, b, after, rfl, hfail, hexit⟩ := h
  refine ⟨before, b, after ++ [a], by simp, hfail, ?_⟩
  rw [List.mem_append, List.mem_singleton]
  rintro (hmem | rfl)
  · exact hexit hmem
  · exact ha rfl

theorem supervise_below (args : List Argument) (past : List SuperviseAct) :
    ∀ k ∈ (supervise args past).alive, k < (supervise args past).created :=
  final_history (superviseStep args) (fun s _ => ∀ k ∈ s.alive, k < s.created)
    (fun s _ a hbelow => (supervises args s a).below hbelow) (by simp [Supervision.init]) past

theorem supervise_planned (args : List Argument) (past : List SuperviseAct) :
    (supervise args past).stage.Planned (supervise args past).alive :=
  final_history (superviseStep args) (fun s _ => s.stage.Planned s.alive)
    (fun s _ a hplan => (supervises args s a).planned hplan) (s := .init) trivial past

/-- A worker that the loop goes on without has been lost. -/
theorem Supervises.holds {s s' : Supervision} (h : Supervises args s a s')
    (hplan : s.stage.Planned s.alive) (hk : k ∈ s'.alive) (hnot : ¬ s'.stage.Holds k) :
    k ∈ s.alive ∧ a ≠ .exit k ∧ (¬ s.stage.Holds k ∨ FailsWait s a k) := by
  have hcall := call_ne_exit k
  cases h with
  | stays hexit => exact ⟨hk, hexit k, Or.inl hnot⟩
  | spawns hstage =>
    refine ⟨hk, spawn_ne_exit _ k, Or.inl ?_⟩
    rw [hstage]
    exact id
  | creates hstage hcreated =>
    rcases List.mem_append.mp hk with hk | hk
    · rw [hstage] at hplan ⊢
      obtain rfl := worker_none hplan
      exact ⟨hk, hcall, Or.inl (Option.some_ne_none k).symm⟩
    · -- the new worker is held
      rw [List.mem_singleton.mp hk] at hnot
      exact absurd rfl hnot
  | terminates hstage =>
    refine ⟨(mem_bury.mp hk).1, hcall, Or.inl ?_⟩
    rw [hstage]
    exact hnot
  | calls hstage =>
    refine ⟨hk, hcall, Or.inl ?_⟩
    rw [hstage]
    exact hnot
  | waits hstage =>
    refine ⟨hk, hcall, Or.inl ?_⟩
    rw [hstage]
    intro hheld
    exact hnot (Option.some.inj hheld)
  | fails hstage hfail =>
    refine ⟨hk, hcall, Or.inl ?_⟩
    rw [hstage] at hplan ⊢
    intro hheld
    obtain rfl : _ = some k := hheld
    rcases hplan.2 hk with hok | ⟨p, hp⟩
    · exact absurd (hfail hok) (Option.some_ne_none k)
    · cases hp
  | @returns object code j hstage halive =>
    refine ⟨hk, wait_ne_exit object code k, ?_⟩
    by_cases hjk : j = k
    · -- only a wait that failed has ended
      subst hjk
      cases object with
      | true => exact absurd hk (halive rfl)
      | false => exact Or.inr ⟨⟨code, rfl⟩, hstage, hk⟩
    · refine Or.inl ?_
      rw [hstage]
      exact hjk
  | exits j =>
    obtain ⟨hk, hne⟩ := mem_bury.mp hk
    refine ⟨hk, ?_, Or.inl hnot⟩
    intro h
    cases h
    exact hne rfl

/-- **Held or lost.** Each worker that runs is held by the loop, or a wait for it has failed. -/
theorem holds_or_lost (args : List Argument) (past : List SuperviseAct) :
    ∀ k ∈ (supervise args past).alive,
      (supervise args past).stage.Holds k ∨ Lost args past k := by
  induction past using List.reverseRecOn with
  | nil =>
    intro k hk
    cases hk
  | append_singleton past a ih =>
    intro k hk
    by_cases hheld : (supervise args (past ++ [a])).stage.Holds k
    · exact Or.inl hheld
    rw [supervise_concat] at hk hheld
    obtain ⟨hk', hexit, hcase⟩ :=
      (supervises args (supervise args past) a).holds (supervise_planned args past) hk hheld
    refine Or.inr ?_
    rcases hcase with hnot | hfail
    · exact ((ih k hk').resolve_left hnot).concat hexit
    · exact ⟨past, a, [], rfl, hfail, List.not_mem_nil⟩

/-- What runs when a worker is created was lost. -/
theorem lost_of_creates (hcreates : Creates (supervise args past) a)
    (hk : k ∈ (supervise args past).alive) : Lost args past k := by
  obtain ⟨-, attempt, line, todo, worker, hstage, -⟩ := hcreates
  have hplan := supervise_planned args past
  refine (holds_or_lost args past k hk).resolve_left ?_
  rw [hstage] at hplan ⊢
  obtain rfl := worker_none hplan
  exact (Option.some_ne_none k).symm

end Runs

-- ----------------------------------------------------------------------------
-- One worker
-- ----------------------------------------------------------------------------

/-- A worker is created only when none runs, and two never run. -/
def OneWorker (args : List Argument) (acts : List SuperviseAct) : Prop :=
  (∀ past a rest, acts = past ++ a :: rest → Creates (supervise args past) a →
      (supervise args past).alive = []) ∧
    ∀ past, past <+: acts → (supervise args past).alive.length ≤ 1

/-- A worker whose wait fails while it runs has exited before another one is created. -/
def LostExitFirst (args : List Argument) (acts : List SuperviseAct) : Prop :=
  ∀ before a mid b after k, acts = before ++ a :: (mid ++ b :: after) →
    FailsWait (supervise args before) a k → Creates (supervise args (before ++ a :: mid)) b →
      .exit k ∈ mid

/-- The worker runs, and neither the loop nor a later worker has to do with it. -/
structure Stray (s : Supervision) (k : Nat) : Prop where
  alive : k ∈ s.alive
  numbered : k < s.created
  left : ¬ s.stage.Holds k

section One

variable {args : List Argument} {acts past : List SuperviseAct} {a : SuperviseAct} {k : Nat}

/-- Only its own exit ends a stray worker. -/
theorem Supervises.stray {s s' : Supervision} (h : Supervises args s a s') (hstray : Stray s k)
    (ha : a ≠ .exit k) : Stray s' k := by
  obtain ⟨halive, hnumbered, hleft⟩ := hstray
  cases h with
  | stays => exact ⟨halive, hnumbered, hleft⟩
  | spawns => exact ⟨halive, hnumbered, (Option.some_ne_none k).symm⟩
  | creates hstage hcreated =>
    refine ⟨List.mem_append_left _ halive, by show k < s.created + 1; omega, ?_⟩
    -- the new worker has another number
    intro hheld
    have := Option.some.inj hheld
    omega
  | terminates hstage =>
    rw [hstage] at hleft
    exact ⟨mem_bury.mpr ⟨halive, fun h => hleft (congrArg some h.symm)⟩, hnumbered, hleft⟩
  | calls hstage =>
    rw [hstage] at hleft
    exact ⟨halive, hnumbered, hleft⟩
  | waits hstage =>
    rw [hstage] at hleft
    exact ⟨halive, hnumbered, fun h => hleft (congrArg some h)⟩
  | fails => exact ⟨halive, hnumbered, id⟩
  | returns => exact ⟨halive, hnumbered, id⟩
  | exits j =>
    exact ⟨mem_bury.mpr ⟨halive, fun h => ha (congrArg SuperviseAct.exit h.symm)⟩, hnumbered,
      hleft⟩

theorem stray_run (before : List SuperviseAct) {mid : List SuperviseAct}
    (hstray : Stray (supervise args before) k) (hexit : .exit k ∉ mid) :
    Stray (supervise args (before ++ mid)) k := by
  rw [supervise, final_append]
  exact final_induction (superviseStep args) (fun s => Stray s k) (fun a => a ≠ .exit k)
    (fun s a ha hs => (supervises args s a).stray hs ha) hstray
    (fun a ha h => hexit (h ▸ ha))

/-- A worker whose wait fails is stray from then on. -/
theorem FailsWait.stray (h : FailsWait (supervise args past) a k) :
    Stray (supervise args (past ++ [a])) k := by
  obtain ⟨⟨code, rfl⟩, hstage, halive⟩ := h
  have hstep : superviseStep args (supervise args past) (.wait false code) =
      ((supervise args past).at .starting, .waited (wmProcWait false code)) := by
    simp [superviseStep, hstage, Supervision.at]
  rw [supervise_concat, hstep]
  exact ⟨halive, supervise_below args past k halive, id⟩

/-- Where a worker is created only when none runs, two never run. -/
theorem alive_length_le
    (hnone : ∀ past a rest, acts = past ++ a :: rest → Creates (supervise args past) a →
      (supervise args past).alive = []) : (supervise args acts).alive.length ≤ 1 := by
  induction acts using List.reverseRecOn with
  | nil => simp [supervise, Supervision.init]
  | append_singleton acts a ih =>
    have hle := ih (fun past b rest hsplit => hnone past b (rest ++ [a]) (by simp [hsplit]))
    have hnow := hnone acts a [] rfl
    rw [supervise_concat]
    generalize supervise args acts = s at hle hnow
    have hstep := supervises args s a
    generalize (superviseStep args s a).1 = s' at hstep
    cases hstep with
    | stays => exact hle
    | spawns => exact hle
    | @creates attempt line todo worker hstage hcreated =>
      have hempty := hnow ⟨rfl, attempt, line, todo, worker, hstage, hcreated⟩
      simp [hempty]
    | terminates => exact Nat.le_trans (List.length_filter_le _ _) hle
    | calls => exact hle
    | waits => exact hle
    | fails => exact hle
    | returns => exact hle
    | exits => exact Nat.le_trans (List.length_filter_le _ _) hle

end One

/-- **One worker at a time.** In every run of the supervisor, a worker is created only when
none runs, exactly if each worker whose wait fails while it runs exits before the next worker
is created. -/
theorem oneWorker_iff (args : List Argument) (acts : List SuperviseAct) :
    OneWorker args acts ↔ LostExitFirst args acts := by
  constructor
  · rintro ⟨hone, -⟩ before a mid b after k rfl hfail hcreates
    by_contra hexit
    have hstray : Stray (supervise args (before ++ a :: mid)) k := by
      rw [List.append_cons]
      exact stray_run (before ++ [a]) hfail.stray hexit
    have halive := hstray.alive
    rw [hone (before ++ a :: mid) b after (by simp) hcreates] at halive
    cases halive
  · intro hexits
    have hnone : ∀ past a rest, acts = past ++ a :: rest → Creates (supervise args past) a →
        (supervise args past).alive = [] := by
      rintro past b rest rfl hcreates
      rw [List.eq_nil_iff_forall_not_mem]
      intro k hk
      obtain ⟨before, a, mid, rfl, hfail, hexit⟩ := lost_of_creates hcreates hk
      exact hexit (hexits before a mid b rest k (by simp) hfail hcreates)
    refine ⟨hnone, ?_⟩
    rintro past ⟨rest, rfl⟩
    refine alive_length_le fun before a mid hsplit => hnone before a (mid ++ rest) ?_
    rw [hsplit, List.append_assoc, List.cons_append]

/-- The first worker runs, and the wait for it fails: the loop starts the next spawn. -/
def failedWait : List SuperviseAct :=
  [.spawn spawnSystem, .call, .call, .call, .wait false 0, .spawn spawnSystem]

/-- The second worker is created while the first one runs. -/
theorem lost_worker_runs :
    (supervise [workerFlag] (failedWait ++ [.call])).alive = [0, 1] ∧
      ¬ OneWorker [workerFlag] (failedWait ++ [.call]) := by
  have halive : (supervise [workerFlag] (failedWait ++ [.call])).alive = [0, 1] := by
    decide +kernel
  refine ⟨halive, fun hone => ?_⟩
  have hle := hone.2 (failedWait ++ [.call]) (List.prefix_refl _)
  rw [halive] at hle
  exact absurd hle (by decide)

-- ----------------------------------------------------------------------------
-- The spawns of a run
-- ----------------------------------------------------------------------------

/-- The spawn that the report is of. -/
def SuperviseReport.attempt : SuperviseReport → Option Attempt
  | .spawned attempt => some attempt
  | _ => none

/-- A step begins a spawn with the job that the last one left, or does nothing to either. -/
theorem superviseStep_attempt (args : List Argument) (s : Supervision) (a : SuperviseAct) :
    (∃ w, (superviseStep args s a).2.attempt = some ⟨w, wmProcSpawnSelf w s.job args true⟩ ∧
        (superviseStep args s a).1.job = (wmProcSpawnSelf w s.job args true).job) ∨
      ((superviseStep args s a).2.attempt = none ∧ (superviseStep args s a).1.job = s.job) := by
  have hperform : ∀ attempt c todo worker, (s.perform attempt c todo worker).job = s.job := by
    intro attempt c todo worker
    cases c with
    | createProcess line =>
      rw [Supervision.perform]
      split_ifs <;> rfl
    | terminateProcess p => cases worker <;> rfl
    | _ => rfl
  cases a with
  | spawn w =>
    rw [superviseStep]
    split
    · exact Or.inl ⟨w, rfl, rfl⟩
    · exact Or.inr ⟨rfl, rfl⟩
  | call =>
    refine Or.inr ?_
    rw [superviseStep]
    split
    · exact ⟨rfl, hperform _ _ _ _⟩
    · exact ⟨rfl, rfl⟩
    · exact ⟨rfl, rfl⟩
  | wait object code =>
    refine Or.inr ?_
    rw [superviseStep]
    split
    · split_ifs <;> exact ⟨rfl, rfl⟩
    · exact ⟨rfl, rfl⟩
  | exit k => exact Or.inr ⟨rfl, rfl⟩

/-- The spawns of a run are those of `runSupervisor`, for what the system did in them. -/
theorem supervise_attempts (args : List Argument) (s : Supervision) (acts : List SuperviseAct) :
    let attempts := (outputs (superviseStep args) s acts).filterMap SuperviseReport.attempt
    attempts =
      (runSupervisor true args s.job (attempts.map fun attempt => ⟨attempt.system, none⟩)).1 := by
  induction acts generalizing s with
  | nil => rfl
  | cons a acts ih =>
    have hrest := ih (superviseStep args s a).1
    rcases superviseStep_attempt args s a with ⟨w, hspawn, hjob⟩ | ⟨hnone, hjob⟩
    · rw [hjob] at hrest
      simp only [outputs_cons, List.filterMap_cons_some hspawn, List.map_cons, runSupervisor,
        Bool.not_true, Bool.false_eq_true, if_false, List.cons.injEq, true_and]
      exact hrest
    · rw [hjob] at hrest
      simp only [outputs_cons, List.filterMap_cons_none hnone]
      exact hrest

end Uniwm
