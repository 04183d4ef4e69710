import Uniwm.Model.Supervisor

/-!
# uniwm — a supervisor that is killed

The machine of `Uniwm.Model.Supervisor` with what the job is for: `ensure_job` asks for
`JOB_OBJECT_LIMIT_KILL_ON_JOB_CLOSE`, and the handle of the job is closed when the supervisor's
process ends, whenever that is. That Windows then ends the processes in the job is what the flag
is documented to do; it is taken for granted here (`closeJob`).

* A worker is created suspended. It is in the job if `AssignProcessToJobObject` succeeded, and it
  runs its own code from `ResumeThread` on.
* The result of `AssignProcessToJobObject` is not looked at.
-/

namespace Uniwm

/-- A supervisor and its workers: those in the job and those that were resumed, by their numbers,
and whether the supervisor has ended. -/
structure SupervisorProcess where
  supervision : Supervision
  joined : List Nat
  resumed : List Nat
  gone : Bool

def SupervisorProcess.init : SupervisorProcess := ⟨.init, [], [], false⟩

/-- A step of the supervisor or of a worker, with what `AssignProcessToJobObject` gives if it is
called; or the supervisor ends. -/
inductive SupervisorAct where
  | act (a : SuperviseAct) (assigned : Bool)
  | killed

/-- The workers that a call of the supervisor puts into the job. -/
def joins (s : Supervision) (a : SuperviseAct) (assigned : Bool) : List Nat :=
  match a, s.stage with
  | .call, .calling _ (.assignToJob _ _ :: _) worker => if assigned then worker.toList else []
  | _, _ => []

/-- The workers that it resumes. -/
def resumes (s : Supervision) (a : SuperviseAct) : List Nat :=
  match a, s.stage with
  | .call, .calling _ (.resumeThread _ :: _) worker => worker.toList
  | _, _ => []

/-- The last handle of the job is closed: by its flag, Windows ends whoever is in it. -/
def SupervisorProcess.closeJob (s : SupervisorProcess) : SupervisorProcess :=
  { s with
    supervision := { s.supervision with
      alive := s.supervision.alive.filter fun k => k ∉ s.joined }
    gone := true }

/-- Once the supervisor has ended, only workers do something. -/
def SupervisorProcess.step (args : List Argument) (s : SupervisorProcess) :
    SupervisorAct → SupervisorProcess × Unit
  | .act (.exit k) _ => ({ s with supervision := s.supervision.bury k }, ())
  | .act a assigned =>
    if s.gone then (s, ())
    else
      ({ s with
          supervision := (superviseStep args s.supervision a).1
          joined := s.joined ++ joins s.supervision a assigned
          resumed := s.resumed ++ resumes s.supervision a }, ())
  | .killed => (if s.gone then s else s.closeJob, ())

end Uniwm
