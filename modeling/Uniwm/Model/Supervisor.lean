import Uniwm.Model.Spawn

/-!
# uniwm — the supervisor

`main` and `run_supervisor` of `uniwm/src/main.c`: the arguments are sorted into flags and an
array for the worker, and the worker is started, waited for and started again.

* An argument is the bytes before its `NUL`; `argv[0]` is left out.
* A `Round` gives what the outside does in one round of `run_supervisor`. The pauses between
  rounds are not modelled.
* `superviseStep` is the same loop with `restart` set, one system call at a time, beside the
  workers that are running. Workers are numbered in the order of their creation; `created`,
  `alive` and the numbers are ghosts.
-/

namespace Uniwm

/-- An entry of `argv`. -/
abbrev Argument := List UInt8

/-- `"--worker"` -/
def workerFlag : Argument := [45, 45, 119, 111, 114, 107, 101, 114]

/-- `"--restart"` -/
def restartFlag : Argument := [45, 45, 114, 101, 115, 116, 97, 114, 116]

/-- `CHILD_ARGS_MAX` -/
abbrev childArgsMax : Nat := 64

/-- The locals of `main`. -/
structure MainArgs where
  childArgs : List Argument
  worker : Bool
  restart : Bool

/-- The loop of `main` for one argument. -/
def scanArgument (m : MainArgs) (arg : Argument) : MainArgs :=
  if arg = workerFlag then { m with worker := true }
  else if arg = restartFlag then { m with restart := true }
  -- no `else`: an argument that finds the array full is passed over
  else if m.childArgs.length < childArgsMax then { m with childArgs := m.childArgs ++ [arg] }
  else m

/-- The loop of `main`. -/
def scanArguments (argv : List Argument) : MainArgs :=
  argv.foldl scanArgument ⟨[workerFlag], false, false⟩

/-- What the outside does in one round: the answers to the spawn, and the exit code that
`wm_proc_wait` gives, if it gives one. -/
structure Round where
  system : SpawnSystem
  exitCode : Option Int

/-- A spawn of the supervisor. -/
structure Attempt where
  system : SpawnSystem
  spawned : Spawned

/-- `run_supervisor` for the rounds given: the spawns, and what it returns if it does. -/
def runSupervisor (restart : Bool) (args : List Argument) :
    Job → List Round → List Attempt × Option Int
  | _, [] => ([], none)
  | j, r :: rounds =>
    let spawned := wmProcSpawnSelf r.system j args true
    let attempt : Attempt := ⟨r.system, spawned⟩
    if !restart then
      ([attempt], if spawned.error ≠ .ok then some 1 else some (r.exitCode.getD 0))
    else
      let rest := runSupervisor restart args spawned.job rounds
      (attempt :: rest.1, rest.2)

/-- The spawns that `main` makes for the arguments `argv`: as the worker it makes none. -/
def mainSpawns (argv : List Argument) (rounds : List Round) : List Attempt :=
  let m := scanArguments argv
  if m.worker then [] else (runSupervisor m.restart m.childArgs .init rounds).1

-- ----------------------------------------------------------------------------
-- The loop and its workers
-- ----------------------------------------------------------------------------

/-- `wm_proc_wait` of a child, for whether `WaitForSingleObject` gives `WAIT_OBJECT_0` and the
exit code the system keeps: the error, and what it writes to `*exit_code`. -/
def wmProcWait (object : Bool) (code : Int) : WMError × Option Int :=
  if !object then (.unknown, none) else (.ok, some code)

/-- Where `run_supervisor` stands. -/
inductive SuperviseStage where
  /-- at the head of the loop -/
  | starting
  /-- in `wm_proc_spawn_self`: what this spawn does, the calls it has still to make, and the
  worker that it created -/
  | calling (attempt : Attempt) (todo : List ProcCall) (worker : Option Nat)
  /-- in `wm_proc_wait` for the child of a worker -/
  | waiting (worker : Nat)

/-- `run_supervisor` beside its workers. -/
structure Supervision where
  job : Job
  stage : SuperviseStage
  /-- the number of workers created -/
  created : Nat
  /-- those that run -/
  alive : List Nat

def Supervision.init : Supervision := ⟨.init, .starting, 0, []⟩

/-- What happens next: the supervisor starts a spawn, makes the next call of it, or its wait
ends; or a worker exits by itself. -/
inductive SuperviseAct where
  | spawn (w : SpawnSystem)
  | call
  | wait (object : Bool) (code : Int)
  | exit (worker : Nat)

/-- What a step does that can be seen. -/
inductive SuperviseReport where
  | spawned (attempt : Attempt)
  | waited (result : WMError × Option Int)
  | nothing

/-- A worker ends. -/
def Supervision.bury (s : Supervision) (k : Nat) : Supervision :=
  { s with alive := s.alive.filter fun j => j ≠ k }

/-- One call of a spawn. -/
def Supervision.perform (s : Supervision) (attempt : Attempt) (c : ProcCall)
    (todo : List ProcCall) (worker : Option Nat) : Supervision :=
  match c with
  | .createProcess _ =>
    if attempt.system.createProcess.isSome then
      { s with
        stage := .calling attempt todo (some s.created)
        created := s.created + 1
        alive := s.alive ++ [s.created] }
    else { s with stage := .calling attempt todo worker }
  | .terminateProcess _ =>
    let s := { s with stage := .calling attempt todo worker }
    -- the process is the one this spawn created
    match worker with
    | some k => s.bury k
    | none => s
  | _ => { s with stage := .calling attempt todo worker }

/-- Where the loop goes when a spawn returns: after an error there is no child to wait for. -/
def Attempt.returns (attempt : Attempt) (worker : Option Nat) : SuperviseStage :=
  if attempt.spawned.error ≠ .ok then .starting
  else
    match worker with
    | some k => .waiting k
    | none => .starting

/-- One step of `run_supervisor` with `restart` set, or of a worker. What cannot happen where
the loop stands changes nothing. -/
def superviseStep (args : List Argument) (s : Supervision) :
    SuperviseAct → Supervision × SuperviseReport
  | .spawn w =>
    match s.stage with
    | .starting =>
      let attempt : Attempt := ⟨w, wmProcSpawnSelf w s.job args true⟩
      ({ s with
          job := attempt.spawned.job
          stage := .calling attempt attempt.spawned.calls none }, .spawned attempt)
    | _ => (s, .nothing)
  | .call =>
    match s.stage with
    | .calling attempt (c :: todo) worker => (s.perform attempt c todo worker, .nothing)
    | .calling attempt [] worker => ({ s with stage := attempt.returns worker }, .nothing)
    | _ => (s, .nothing)
  | .wait object code =>
    match s.stage with
    | .waiting k =>
      -- `INFINITE`: only the end of the process, or a failure, ends the wait
      if object && k ∈ s.alive then (s, .nothing)
      -- the result is not looked at
      else ({ s with stage := .starting }, .waited (wmProcWait object code))
    | _ => (s, .nothing)
  | .exit k => (s.bury k, .nothing)

end Uniwm
