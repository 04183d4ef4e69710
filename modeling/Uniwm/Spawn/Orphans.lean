import Uniwm.Model.Orphans
import Uniwm.Spawn.Rounds
import Uniwm.Spawn.Supervision

/-!
# uniwm — no worker outlives its supervisor

A worker is created suspended, put into the job and only then resumed, so that there is no
moment at which it runs outside.

* `Joins` checks that order along the calls that a spawn has still to make; the calls of a spawn
  that has a job pass (`spawn_joins`), and so does what is left of them at any point of a run
  (`Attended`).
* `no_orphans`: in every run in which the job can be had and no assignment fails, a worker that
  was resumed is in the job, and once the supervisor has ended, at whatever point, none of the
  workers that were resumed runs.
* `unassigned_orphan`: an assignment fails, and the worker is left running.

A worker that was created and not yet resumed stays behind suspended.
-/

namespace Uniwm

open Base

-- ----------------------------------------------------------------------------
-- The order of the calls
-- ----------------------------------------------------------------------------

/-- Along these calls a process is put into the job after it is created and before it is resumed.
`created` and `joined` tell how far that is. -/
def Joins (w : SpawnSystem) : Bool → Bool → List ProcCall → Prop
  | _, _, [] => True
  | _, _, .createProcess _ :: todo => Joins w w.createProcess.isSome false todo
  | created, _, .assignToJob _ _ :: todo => created = true ∧ Joins w created true todo
  | created, joined, .resumeThread _ :: todo => joined = true ∧ Joins w created joined todo
  | created, joined, _ :: todo => Joins w created joined todo

section Order

variable {w : SpawnSystem} {j : Job} {args : List Argument}

/-- A job that is looked for can be had. -/
def HasJob (w : SpawnSystem) : Prop := w.createJob.isSome = true ∧ w.limitJob = true

/-- A job that was looked for is there. -/
def Job.Had (j : Job) : Prop := j.tried = true → j.job.isSome = true

theorem ensureJob_had (hw : HasJob w) (hj : j.Had) :
    (ensureJob w j).1.Had ∧ (ensureJob w j).1.job.isSome = true ∧ (ensureJob w j).2 = [] := by
  obtain ⟨hcreate, hlimit⟩ := hw
  obtain ⟨created, hcreated⟩ := Option.isSome_iff_exists.mp hcreate
  unfold ensureJob
  by_cases htried : j.tried = true
  · rw [if_pos htried]
    exact ⟨hj, hj htried, rfl⟩
  · rw [if_neg htried, hcreated]
    dsimp only
    rw [if_pos hlimit]
    exact ⟨fun _ => rfl, rfl, rfl⟩

/-- Being further along does no harm. -/
theorem Joins.mono {created created' joined joined' : Bool} {todo : List ProcCall}
    (h : Joins w created joined todo) (hcreated : created = true → created' = true)
    (hjoined : joined = true → joined' = true) : Joins w created' joined' todo := by
  induction todo generalizing created created' joined joined' with
  | nil => trivial
  | cons c todo ih =>
    cases c with
    | createProcess line => exact h
    | assignToJob job process => exact ⟨hcreated h.1, ih h.2 hcreated id⟩
    | resumeThread thread => exact ⟨hjoined h.1, ih h.2 hcreated hjoined⟩
    | terminateProcess process => exact @ih created created' joined joined' h hcreated hjoined
    | closeHandle handle => exact @ih created created' joined joined' h hcreated hjoined

/-- **The calls of a spawn.** With a job they come in order. -/
theorem spawn_joins (hw : HasJob w) (hj : j.Had) :
    (wmProcSpawnSelf w j args true).job.Had ∧
      Joins w false false (wmProcSpawnSelf w j args true).calls := by
  obtain ⟨hhad, hjob, hcalls⟩ := ensureJob_had hw hj
  obtain ⟨job, hjob⟩ := Option.isSome_iff_exists.mp hjob
  have hspawns := spawns w j args
  generalize wmProcSpawnSelf w j args true = r at hspawns ⊢
  cases hspawns with
  | unbuilt => exact ⟨hj, trivial⟩
  | refused =>
    rw [hcalls]
    exact ⟨hhad, trivial⟩
  | created hbuilt hcreate =>
    rw [hcalls, hjob]
    exact ⟨hhad, by rw [hcreate]; rfl, rfl, trivial⟩
  | terminated hbuilt hcreate =>
    rw [hcalls, hjob]
    exact ⟨hhad, by rw [hcreate]; rfl, rfl, trivial⟩

end Order

-- ----------------------------------------------------------------------------
-- Runs
-- ----------------------------------------------------------------------------

/-- What is left of the spawn under way keeps the order. -/
def SuperviseStage.Attended (joined : List Nat) : SuperviseStage → Prop
  | .calling attempt todo worker =>
    Joins attempt.system worker.isSome (worker.any (· ∈ joined)) todo
  | _ => True

/-- Every worker that was resumed is in the job. -/
structure Guarded (s : SupervisorProcess) : Prop where
  job : s.supervision.job.Had
  attended : s.supervision.stage.Attended s.joined
  resumed : ∀ k ∈ s.resumed, k ∈ s.joined
  left : s.gone = true → ∀ k ∈ s.supervision.alive, k ∉ s.joined

/-- What a step has to keep while the supervisor is there: the job, the order of the calls, and
that it resumes who is in the job. -/
structure StepGuards (s : Supervision) (joined : List Nat) (s' : Supervision)
    (joins resumes : List Nat) : Prop where
  job : s'.job.Had
  attended : s'.stage.Attended (joined ++ joins)
  resumed : ∀ k ∈ resumes, k ∈ joined ++ joins

section Step

variable {args : List Argument} {s : Supervision} {joined : List Nat}

theorem perform_job (s : Supervision) (attempt : Attempt) (c : ProcCall) (todo : List ProcCall)
    (worker : Option Nat) : (s.perform attempt c todo worker).job = s.job := by
  cases c with
  | createProcess line =>
    rw [Supervision.perform]
    split <;> rfl
  | terminateProcess p => cases worker <;> rfl
  | _ => rfl

/-- A call that neither puts a process into the job nor resumes it. -/
theorem StepGuards.quiet {s' : Supervision} {a : SuperviseAct} (hjob : s'.job.Had)
    (hattended : s'.stage.Attended joined) (hjoins : joins s a true = [])
    (hresumes : resumes s a = []) : StepGuards s joined s' (joins s a true) (resumes s a) := by
  rw [hjoins, hresumes]
  refine ⟨hjob, ?_, fun k hk => absurd hk List.not_mem_nil⟩
  rw [List.append_nil]
  exact hattended

/-- The next call of a spawn. -/
theorem perform_guards (hjob : s.job.Had) {attempt : Attempt} {c : ProcCall}
    {todo : List ProcCall} {worker : Option Nat}
    (hstage : s.stage = .calling attempt (c :: todo) worker)
    (hattended : s.stage.Attended joined) :
    StepGuards s joined (s.perform attempt c todo worker) (joins s .call true)
      (resumes s .call) := by
  rw [hstage] at hattended
  have hjob' : (s.perform attempt c todo worker).job.Had := by
    rw [perform_job]
    exact hjob
  cases c with
  | createProcess line =>
    have htodo : Joins attempt.system attempt.system.createProcess.isSome false todo := hattended
    refine .quiet hjob' ?_ (by simp only [joins, hstage]) (by simp only [resumes, hstage])
    have hnot : false = true → worker.any (· ∈ joined) = true := fun h => absurd h (by decide)
    rw [Supervision.perform]
    split
    · exact htodo.mono (fun _ => rfl) (fun h => absurd h (by decide))
    · next hnone => exact htodo.mono (fun h => absurd h hnone) hnot
  | assignToJob job process =>
    obtain ⟨hworker, htodo⟩ := hattended
    obtain ⟨k, rfl⟩ := Option.isSome_iff_exists.mp hworker
    have hjoins : joins s .call true = [k] := by
      simp only [joins, hstage]
      rfl
    have hresumes : resumes s .call = [] := by simp only [resumes, hstage]
    rw [hjoins, hresumes]
    refine ⟨hjob', ?_, fun k hk => absurd hk List.not_mem_nil⟩
    exact htodo.mono id fun _ => by simp
  | resumeThread thread =>
    obtain ⟨hworker, htodo⟩ := hattended
    have hjoins : joins s .call true = [] := by simp only [joins, hstage]
    have hresumes : resumes s .call = worker.toList := by simp only [resumes, hstage]
    rw [hjoins, hresumes]
    refine ⟨hjob', by rw [List.append_nil]; exact htodo, fun k hk => ?_⟩
    rw [Option.mem_toList] at hk
    rw [List.append_nil]
    subst hk
    simpa using hworker
  | terminateProcess process =>
    refine .quiet hjob' ?_ (by simp only [joins, hstage]) (by simp only [resumes, hstage])
    cases worker <;> exact hattended
  | closeHandle handle =>
    exact .quiet hjob' hattended (by simp only [joins, hstage]) (by simp only [resumes, hstage])

/-- A step of the supervisor, or of a worker while it is there. -/
theorem supervise_guards (hjob : s.job.Had) (hattended : s.stage.Attended joined)
    {a : SuperviseAct} (hw : ∀ w, a = .spawn w → HasJob w) :
    StepGuards s joined (superviseStep args s a).1 (joins s a true) (resumes s a) := by
  cases a with
  | spawn w =>
    refine .quiet ?_ ?_ rfl rfl
    all_goals rw [superviseStep]
    · split
      · exact (spawn_joins (hw w rfl) hjob).1
      · exact hjob
    · split
      · exact (spawn_joins (hw w rfl) hjob).2
      · exact hattended
  | call =>
    cases hstage : s.stage with
    | starting =>
      have hstep : (superviseStep args s .call).1 = s := by simp only [superviseStep, hstage]
      rw [hstep]
      exact .quiet hjob hattended (by simp only [joins, hstage]) (by simp only [resumes, hstage])
    | waiting k =>
      have hstep : (superviseStep args s .call).1 = s := by simp only [superviseStep, hstage]
      rw [hstep]
      exact .quiet hjob hattended (by simp only [joins, hstage]) (by simp only [resumes, hstage])
    | calling attempt todo worker =>
      cases todo with
      | nil =>
        have hstep : (superviseStep args s .call).1 =
            { s with stage := attempt.returns worker } := by simp only [superviseStep, hstage]
        rw [hstep]
        refine .quiet hjob ?_ (by simp only [joins, hstage]) (by simp only [resumes, hstage])
        -- no call is left
        show (attempt.returns worker).Attended joined
        unfold Attempt.returns
        split
        · trivial
        · cases worker <;> trivial
      | cons c todo =>
        have hstep : (superviseStep args s .call).1 = s.perform attempt c todo worker := by
          simp only [superviseStep, hstage]
        rw [hstep]
        exact perform_guards hjob hstage hattended
  | wait object code =>
    refine .quiet ?_ ?_ rfl rfl
    all_goals rw [superviseStep]
    · split
      · split <;> exact hjob
      · exact hjob
    · split
      · split
        · exact hattended
        · trivial
      · exact hattended
  | exit k => exact .quiet hjob hattended rfl rfl

end Step

section Run

variable {args : List Argument} {s : SupervisorProcess}

/-- The step finds its job, if it looks for one, and puts who it wants to into it. -/
def SupervisorAct.Assigns : SupervisorAct → Prop
  | .act (.spawn w) _ => HasJob w
  | .act _ assigned => assigned = true
  | .killed => True

/-- **Step lemma.** -/
theorem Guarded.step (hs : Guarded s) {a : SupervisorAct} (ha : a.Assigns) :
    Guarded (s.step args a).1 := by
  cases a with
  | killed =>
    rw [SupervisorProcess.step]
    split
    · exact hs
    · refine ⟨hs.job, hs.attended, hs.resumed, fun _ k hk => ?_⟩
      have hout : k ∉ s.joined := by simpa using (List.mem_filter.mp hk).2
      exact hout
  | act a assigned =>
    by_cases hexit : ∃ k, a = .exit k
    · obtain ⟨k, rfl⟩ := hexit
      refine ⟨hs.job, hs.attended, hs.resumed, fun hgone j hj => ?_⟩
      exact hs.left hgone j (mem_bury.mp hj).1
    have hstep : s.step args (.act a assigned) =
        if s.gone then (s, ())
        else
          ({ s with
              supervision := (superviseStep args s.supervision a).1
              joined := s.joined ++ joins s.supervision a assigned
              resumed := s.resumed ++ resumes s.supervision a }, ()) := by
      cases a with
      | exit k => exact absurd ⟨k, rfl⟩ hexit
      | _ => rfl
    rw [hstep]
    by_cases hgone : s.gone = true
    · rw [if_pos hgone]
      exact hs
    · rw [if_neg hgone]
      have hassigned : joins s.supervision a assigned = joins s.supervision a true := by
        cases a with
        | call =>
          obtain rfl : assigned = true := ha
          rfl
        | _ => rfl
      have hguards := @supervise_guards args s.supervision s.joined hs.job hs.attended a (by
        rintro w rfl
        exact ha)
      rw [hassigned]
      refine ⟨hguards.job, hguards.attended, fun k hk => ?_, fun h => absurd h hgone⟩
      rcases List.mem_append.mp hk with hk | hk
      · exact List.mem_append_left _ (hs.resumed k hk)
      · exact hguards.resumed k hk

theorem Guarded.init : Guarded .init where
  job h := absurd h Bool.false_ne_true
  attended := trivial
  resumed _ hk := absurd hk List.not_mem_nil
  left h := absurd h Bool.false_ne_true

end Run

/-- **No orphans.** In every run of `run_supervisor` with `--restart` beside its workers, with
spawns, waits and exits in any order, the end of the supervisor at any moment, also between two
calls of a spawn, and any failure but those of the job and of the assignment to it: every worker
that was resumed is in the job, and once the supervisor has ended no worker that was resumed
runs. -/
theorem no_orphans (args : List Argument) (acts : List SupervisorAct)
    (hassigns : ∀ a ∈ acts, a.Assigns) :
    let s := final (SupervisorProcess.step args) .init acts
    (∀ k ∈ s.resumed, k ∈ s.joined) ∧
      (s.gone = true → ∀ k ∈ s.supervision.alive, k ∉ s.resumed) := by
  have hguarded : Guarded (final (SupervisorProcess.step args) .init acts) :=
    final_induction (SupervisorProcess.step args) Guarded SupervisorAct.Assigns
      (fun _ _ ha hs => hs.step ha) Guarded.init hassigns
  refine ⟨hguarded.resumed, fun hgone k hk hresumed => ?_⟩
  exact hguarded.left hgone k hk (hguarded.resumed k hresumed)

/-- A worker is created, put into the job and resumed, and then the supervisor ends. -/
def killedRun (assigned : Bool) : List SupervisorAct :=
  [.act (.spawn jobSystem) true, .act .call true, .act .call assigned, .act .call true, .killed]

theorem no_orphans_killed :
    let s := final (SupervisorProcess.step [workerFlag]) .init (killedRun true)
    (∀ k ∈ s.resumed, k ∈ s.joined) ∧
      (s.gone = true → ∀ k ∈ s.supervision.alive, k ∉ s.resumed) :=
  no_orphans [workerFlag] (killedRun true) (by
    rw [killedRun]
    simp [SupervisorAct.Assigns, HasJob, jobSystem])

/-- Without the job the worker runs on. -/
theorem unassigned_orphan :
    let s := final (SupervisorProcess.step [workerFlag]) .init (killedRun false)
    s.gone = true ∧ s.supervision.alive = [0] ∧ s.resumed = [0] := by
  decide +kernel

end Uniwm
