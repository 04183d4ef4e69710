import Uniwm.Base.Custody
import Uniwm.Model.Supervisor

/-!
# uniwm — the supervisor's calls

`run_supervisor` again, with everything it asks of the system: what it does with each handle,
when it looks at the clock and when it sleeps. `Uniwm.Model.Supervisor` has only the spawns of
it.

* The handles are those of the job, of the processes and of their threads.
* Times are in milliseconds, of `GetTickCount64`; what it gives is the system's.
-/

namespace Uniwm

open Base

/-- What a call of `wm_proc_spawn_self` does with handles. -/
def ProcCall.handles (w : SpawnSystem) : ProcCall → List (HandleEvent Handle)
  | createProcess _ =>
    match w.createProcess with
    | none => []
    | some (process, thread) => [.opens process, .opens thread]
  | assignToJob job process => [.uses job, .uses process]
  | resumeThread thread => [.uses thread]
  | terminateProcess process => [.uses process]
  | closeHandle handle => [.closes handle]

/-- The job that `ensure_job` creates, and sets the limit of. -/
def jobHandles (w : SpawnSystem) (j : Job) : List (HandleEvent Handle) :=
  if j.tried then []
  else
    match w.createJob with
    | none => []
    | some created => [.opens created, .uses created]

/-- What `wm_proc_spawn_self` does with handles. -/
def spawnHandles (w : SpawnSystem) (j : Job) (args : List Argument) : List (HandleEvent Handle) :=
  match buildCommandLine w args with
  | .error _ => []
  | .ok _ => jobHandles w j ++ (wmProcSpawnSelf w j args true).calls.flatMap (ProcCall.handles w)

/-- What `wm_proc_wait` does with the handles of a child, for whether the wait succeeds: then the
exit code is asked for. -/
def waitHandles (object : Bool) (child : Child) : List (HandleEvent Handle) :=
  .uses child.process :: if object then [.uses child.process] else []

/-- `wm_proc_close` -/
def wmProcClose (child : Child) : List (HandleEvent Handle) :=
  [.closes child.thread, .closes child.process]

/-- A call of the supervisor. -/
inductive SupervisorCall where
  | handle (e : HandleEvent Handle)
  | now (ms : UInt64)
  | sleep (ms : UInt32)
deriving DecidableEq

/-- `wm_proc_sleep_ms` -/
def wmProcSleepMs (ms : UInt64) : SupervisorCall := .sleep ms.toUInt32

/-- `SUPERVISOR_MIN_HEALTHY_MS` -/
abbrev supervisorMinHealthyMs : UInt64 := 2000

/-- `SUPERVISOR_RESTART_DELAY_MS` -/
abbrev supervisorRestartDelayMs : UInt64 := 1000

/-- A round with what the clock gives at its start and after the child has been closed. -/
structure TimedRound extends Round where
  start : UInt64
  ended : UInt64

/-- `wm_proc_wait` and `wm_proc_close`, for what the spawn wrote to `child`. -/
def TimedRound.finish (r : TimedRound) (child : Option Child) : List SupervisorCall :=
  match child with
  | none => []
  | some child =>
    (waitHandles r.exitCode.isSome child ++ wmProcClose child).map .handle

/-- The pause after a worker that did not run for long. -/
def TimedRound.pause (r : TimedRound) : List SupervisorCall :=
  if r.ended - r.start < supervisorMinHealthyMs then [wmProcSleepMs supervisorRestartDelayMs]
  else []

/-- `run_supervisor` for the rounds given: its calls, and what it returns if it does. -/
def supervisorCalls (restart : Bool) (args : List Argument) :
    Job → List TimedRound → List SupervisorCall × Option Int
  | _, [] => ([], none)
  | j, r :: rounds =>
    let spawned := wmProcSpawnSelf r.system j args true
    let calls := .now r.start :: (spawnHandles r.system j args).map .handle
    if spawned.error ≠ .ok then
      if !restart then (calls, some 1)
      else
        let rest := supervisorCalls restart args spawned.job rounds
        (calls ++ wmProcSleepMs supervisorRestartDelayMs :: rest.1, rest.2)
    else
      let calls := calls ++ r.finish spawned.child
      -- a wait that fails leaves the code at zero
      if !restart then (calls, some (r.exitCode.getD 0))
      else
        let rest := supervisorCalls restart args spawned.job rounds
        (calls ++ .now r.ended :: (r.pause ++ rest.1), rest.2)

/-- What is done with handles in these calls. -/
def handleEvents (calls : List SupervisorCall) : List (HandleEvent Handle) :=
  calls.filterMap fun
    | .handle e => some e
    | _ => none

end Uniwm
