import Uniwm.Base.Spaced
import Uniwm.Model.Rounds
import Uniwm.Spawn.Arguments

/-!
# uniwm — round after round

A supervisor with `--restart` runs for as long as it is let, so what a round leaves behind
adds up, and so do rounds that follow each other too fast.

* `supervisor_handles`: whatever fails, no handle is used or closed that is not open, and
  after each round only the job's handle is (`Kept`). What a spawn does with handles is settled
  call by call (`job_runs`, `created_runs`), and `round_runs` closes what the child has.
* `restart_rate`: by the supervisor's own clock its rounds start a second apart, so in any span
  of time there are only so many. A round that is over sooner is followed by a sleep; that the
  sleep is not cut short by more than `slack`, and that the clock does not go back, is the
  system's part (`Clocked`).

`supervisorCalls_returns` is the connection to `runSupervisor`.
-/

namespace Uniwm

open Base

-- ----------------------------------------------------------------------------
-- One spawn
-- ----------------------------------------------------------------------------

/-- The handles of a child. -/
def Child.handles (child : Child) : List Handle := [child.thread, child.process]

/-- The handles that are open once a spawn has returned: those of its child, and the job's. -/
def Spawned.leaves (r : Spawned) : List Handle :=
  (r.child.map Child.handles).getD [] ++ r.job.job.toList

/-- A job was looked for if there is one. -/
def Job.Tried (j : Job) : Prop := j.job.isSome = true → j.tried = true

section Spawn

variable {w : SpawnSystem} {j : Job} {args : List Argument} {post : List Handle → Prop}

/-- What a spawn does, for how far it comes. -/
inductive Spawns (w : SpawnSystem) (j : Job) (args : List Argument) : Spawned → Prop where
  | unbuilt {e : WMError} (hbuilt : buildCommandLine w args = .error e) (he : e ≠ .ok) :
    Spawns w j args ⟨e, none, j, []⟩
  | refused {line : List WChar} (hbuilt : buildCommandLine w args = .ok line)
    (hcreate : w.createProcess = none) :
    Spawns w j args
      ⟨.unknown, none, (ensureJob w j).1, (ensureJob w j).2 ++ [.createProcess line]⟩
  | created {line : List WChar} {process thread : Handle}
    (hbuilt : buildCommandLine w args = .ok line)
    (hcreate : w.createProcess = some (process, thread)) :
    Spawns w j args ⟨.ok, some ⟨process, thread⟩, (ensureJob w j).1,
      (ensureJob w j).2 ++ .createProcess line ::
        (((ensureJob w j).1.job.map (ProcCall.assignToJob · process)).toList ++
          [.resumeThread thread])⟩
  | terminated {line : List WChar} {process thread : Handle}
    (hbuilt : buildCommandLine w args = .ok line)
    (hcreate : w.createProcess = some (process, thread)) :
    Spawns w j args ⟨.outOfMemory, none, (ensureJob w j).1,
      (ensureJob w j).2 ++ .createProcess line ::
        (((ensureJob w j).1.job.map (ProcCall.assignToJob · process)).toList ++
          [.resumeThread thread, .terminateProcess process, .closeHandle thread,
            .closeHandle process])⟩

theorem spawns (w : SpawnSystem) (j : Job) (args : List Argument) :
    Spawns w j args (wmProcSpawnSelf w j args true) := by
  cases hbuilt : buildCommandLine w args with
  | error e =>
    have he := buildCommandLine_error hbuilt
    have hspawn : wmProcSpawnSelf w j args true = ⟨e, none, j, []⟩ := by
      simp [wmProcSpawnSelf, hbuilt]
    rw [hspawn]
    exact .unbuilt hbuilt (by rw [he]; decide)
  | ok line =>
    cases hcreate : w.createProcess with
    | none =>
      have hspawn : wmProcSpawnSelf w j args true = ⟨.unknown, none, (ensureJob w j).1,
          (ensureJob w j).2 ++ [.createProcess line]⟩ := by
        simp [wmProcSpawnSelf, hbuilt, hcreate]
      rw [hspawn]
      exact .refused hbuilt hcreate
    | some handles =>
      obtain ⟨process, thread⟩ := handles
      cases hmalloc : w.malloc with
      | true =>
        have hspawn := @Spawns.created w j args line process thread hbuilt hcreate
        convert hspawn using 1
        simp [wmProcSpawnSelf, hbuilt, hcreate, hmalloc]
      | false =>
        have hspawn := @Spawns.terminated w j args line process thread hbuilt hcreate
        convert hspawn using 1
        simp [wmProcSpawnSelf, hbuilt, hcreate, hmalloc]

theorem ensureJob_tried (hj : j.Tried) : (ensureJob w j).1.Tried := by
  unfold ensureJob
  split
  · exact hj
  · split
    · exact fun _ => rfl
    · split <;> exact fun _ => rfl

/-- `ensure_job` leaves open what it keeps. -/
theorem job_runs (hj : j.Tried) (h : post (ensureJob w j).1.job.toList) :
    Runs post (jobHandles w j ++ (ensureJob w j).2.flatMap (ProcCall.handles w))
      j.job.toList := by
  unfold jobHandles
  unfold ensureJob at h ⊢
  by_cases htried : j.tried = true
  · simp only [if_pos htried] at h ⊢
    exact h
  · simp only [if_neg htried] at h ⊢
    have hnone : j.job = none := by
      cases hjob : j.job with
      | none => rfl
      | some job => exact absurd (hj (by rw [hjob]; rfl)) htried
    rw [hnone] at h ⊢
    cases hcreate : w.createJob with
    | none =>
      simp only [hcreate] at h
      exact h
    | some created =>
      simp only [hcreate] at h ⊢
      refine runs_opens.mpr fun _ => runs_uses.mpr ⟨List.mem_cons_self, ?_⟩
      by_cases hlimit : w.limitJob = true
      · simp only [if_pos hlimit] at h ⊢
        exact h
      -- a job given up is closed
      · simp only [if_neg hlimit] at h ⊢
        refine runs_closes.mpr ⟨List.mem_cons_self, ?_⟩
        rw [List.erase_cons_head]
        exact h

/-- A process that is created joins the job and runs, and has two handles. -/
theorem created_runs {job : Option Handle} {process thread : Handle} {line : List WChar}
    {rest : List ProcCall} (hcreate : w.createProcess = some (process, thread))
    (h : Runs post (rest.flatMap (ProcCall.handles w)) (thread :: process :: job.toList)) :
    Runs post ((.createProcess line ::
      ((job.map (ProcCall.assignToJob · process)).toList ++ .resumeThread thread :: rest)).flatMap
        (ProcCall.handles w)) job.toList := by
  have hresume : Runs post ((ProcCall.resumeThread thread :: rest).flatMap (ProcCall.handles w))
      (thread :: process :: job.toList) := by
    rw [List.flatMap_cons]
    exact runs_uses.mpr ⟨List.mem_cons_self, h⟩
  rw [List.flatMap_cons, ProcCall.handles, hcreate]
  refine runs_opens.mpr fun _ => runs_opens.mpr fun _ => ?_
  cases job with
  | none => exact hresume
  | some job =>
    refine runs_uses.mpr ⟨?_, runs_uses.mpr ⟨?_, hresume⟩⟩
    · exact List.mem_cons_of_mem _ (List.mem_cons_of_mem _ List.mem_cons_self)
    · exact List.mem_cons_of_mem _ List.mem_cons_self

/-- The handles of a child are closed, and the others stay. -/
theorem close_runs {process thread : Handle} {held : List Handle} (h : post held) :
    Runs post [.closes thread, .closes process] (thread :: process :: held) := by
  refine runs_closes.mpr ⟨List.mem_cons_self, ?_⟩
  rw [List.erase_cons_head]
  refine runs_closes.mpr ⟨List.mem_cons_self, ?_⟩
  rw [List.erase_cons_head]
  exact h

/-- **A spawn.** Whatever fails in it, only the handles of its child and of the job stay open. -/
theorem spawn_runs (hj : j.Tried) (h : post (wmProcSpawnSelf w j args true).leaves) :
    Runs post (spawnHandles w j args) j.job.toList := by
  have hspawns := spawns w j args
  unfold spawnHandles
  generalize wmProcSpawnSelf w j args true = r at h hspawns
  cases hspawns with
  | unbuilt hbuilt he =>
    rw [hbuilt]
    exact h
  | refused hbuilt hcreate =>
    rw [hbuilt]
    simp only
    rw [List.flatMap_append, ← List.append_assoc, runs_append]
    refine job_runs hj ?_
    simp only [List.flatMap_cons, List.flatMap_nil, ProcCall.handles, hcreate]
    exact h
  | created hbuilt hcreate =>
    rw [hbuilt]
    simp only
    rw [List.flatMap_append, ← List.append_assoc, runs_append]
    exact job_runs hj (created_runs hcreate h)
  | terminated hbuilt hcreate =>
    rw [hbuilt]
    simp only
    rw [List.flatMap_append, ← List.append_assoc, runs_append]
    refine job_runs hj (created_runs hcreate ?_)
    exact runs_uses.mpr ⟨List.mem_cons_of_mem _ List.mem_cons_self, close_runs h⟩

/-- The job that a spawn leaves is the one that was there, or one that it created. -/
theorem spawned_job (hj : j.Tried) :
    (wmProcSpawnSelf w j args true).job.Tried ∧
      ∀ h ∈ (wmProcSpawnSelf w j args true).job.job,
        h ∈ j.job ∨ (w.createJob = some h ∧ w.limitJob = true) := by
  have hensured : ∀ h ∈ (ensureJob w j).1.job,
      h ∈ j.job ∨ (w.createJob = some h ∧ w.limitJob = true) := by
    intro h hh
    unfold ensureJob at hh
    split at hh
    · exact Or.inl hh
    · split at hh
      · exact Or.inl hh
      · next created hcreate =>
        split at hh
        · next hlimit =>
          obtain rfl : created = h := Option.some.inj hh
          exact Or.inr ⟨hcreate, hlimit⟩
        · exact Or.inl hh
  have hspawns := spawns w j args
  generalize wmProcSpawnSelf w j args true = r at hspawns
  cases hspawns with
  | unbuilt => exact ⟨hj, fun h hh => Or.inl hh⟩
  | refused => exact ⟨ensureJob_tried hj, hensured⟩
  | created => exact ⟨ensureJob_tried hj, hensured⟩
  | terminated => exact ⟨ensureJob_tried hj, hensured⟩

/-- There is a child exactly if there is no error. -/
theorem spawned_child : (wmProcSpawnSelf w j args true).error ≠ .ok →
    (wmProcSpawnSelf w j args true).child = none := by
  have hspawns := spawns w j args
  generalize wmProcSpawnSelf w j args true = r at hspawns
  cases hspawns with
  | created => exact fun h => absurd rfl h
  | _ => exact fun _ => rfl

end Spawn

-- ----------------------------------------------------------------------------
-- Rounds
-- ----------------------------------------------------------------------------

theorem handleEvents_map (es : List (HandleEvent Handle)) :
    handleEvents (es.map .handle) = es := by
  rw [handleEvents, List.filterMap_map]
  exact List.filterMap_some

theorem handleEvents_append (cs cs' : List SupervisorCall) :
    handleEvents (cs ++ cs') = handleEvents cs ++ handleEvents cs' :=
  List.filterMap_append

/-- A pause has to do with no handle. -/
theorem handleEvents_pause (r : TimedRound) (cs : List SupervisorCall) :
    handleEvents (r.pause ++ cs) = handleEvents cs := by
  rw [handleEvents_append, TimedRound.pause]
  split <;> rfl

/-- What a finished round is left with. -/
theorem finish_runs {post : List Handle → Prop} (r : TimedRound) (spawned : Spawned)
    (h : post spawned.job.job.toList) :
    Runs post (handleEvents (r.finish spawned.child)) spawned.leaves := by
  unfold TimedRound.finish Spawned.leaves
  cases spawned.child with
  | none => exact h
  | some child =>
    have hprocess : child.process ∈ child.handles ++ spawned.job.job.toList :=
      List.mem_cons_of_mem _ List.mem_cons_self
    simp only [handleEvents_map, waitHandles, List.cons_append]
    refine runs_uses.mpr ⟨hprocess, ?_⟩
    split
    · exact runs_uses.mpr ⟨hprocess, close_runs h⟩
    · exact close_runs h

/-- Nothing is open, or a job that the system gave. -/
def Kept (Given : Handle → Prop) (held : List Handle) : Prop :=
  held = [] ∨ ∃ h, Given h ∧ held = [h]

theorem kept_job {Given : Handle → Prop} {j : Job} (hgiven : ∀ h ∈ j.job, Given h) :
    Kept Given j.job.toList := by
  cases hjob : j.job with
  | none => exact Or.inl rfl
  | some h => exact Or.inr ⟨h, hgiven h hjob, rfl⟩

/-- **The rounds.** Each starts with the job only, and so does the next one. -/
theorem round_runs (restart : Bool) (args : List Argument) {Given : Handle → Prop} {j : Job}
    (hj : j.Tried) (hgiven : ∀ h ∈ j.job, Given h) {rounds : List TimedRound}
    (hrounds : ∀ r ∈ rounds, ∀ h, r.system.createJob = some h → r.system.limitJob = true →
      Given h) :
    Runs (Kept Given) (handleEvents (supervisorCalls restart args j rounds).1) j.job.toList := by
  induction rounds generalizing j with
  | nil => exact kept_job hgiven
  | cons r rounds ih =>
    rw [List.forall_mem_cons] at hrounds
    obtain ⟨htried, hjob⟩ := @spawned_job r.system j args hj
    have hgiven' : ∀ h ∈ (wmProcSpawnSelf r.system j args true).job.job, Given h := by
      intro h hh
      rcases hjob h hh with hh | ⟨hcreate, hlimit⟩
      · exact hgiven h hh
      · exact hrounds.1 h hcreate hlimit
    have hrest := ih htried hgiven' hrounds.2
    -- a round is a spawn, and what comes after it
    have hround : ∀ cs, Runs (Kept Given) (handleEvents cs)
        (wmProcSpawnSelf r.system j args true).leaves →
        Runs (Kept Given) (handleEvents (.now r.start ::
          (spawnHandles r.system j args).map .handle ++ cs)) j.job.toList := by
      intro cs hcs
      show Runs (Kept Given)
        (handleEvents ((spawnHandles r.system j args).map .handle ++ cs)) j.job.toList
      rw [handleEvents_append, handleEvents_map, runs_append]
      exact spawn_runs hj hcs
    rw [supervisorCalls]
    simp only
    by_cases herror : (wmProcSpawnSelf r.system j args true).error = .ok
    · rw [if_neg (not_not.mpr herror)]
      cases restart with
      | false =>
        simp only [Bool.not_false, if_true]
        exact hround _ (finish_runs r _ (kept_job hgiven'))
      | true =>
        simp only [Bool.not_true, Bool.false_eq_true, if_false]
        rw [List.append_assoc]
        refine hround _ ?_
        rw [handleEvents_append, runs_append]
        refine finish_runs r _ ?_
        show Runs (Kept Given) (handleEvents (r.pause ++ _)) _
        rw [handleEvents_pause]
        exact hrest
    · have hleaves : (wmProcSpawnSelf r.system j args true).leaves =
          (wmProcSpawnSelf r.system j args true).job.job.toList := by
        rw [Spawned.leaves, spawned_child herror]
        rfl
      rw [← hleaves] at hrest
      rw [if_pos herror]
      cases restart with
      | false =>
        have hend := hround [] (by rw [hleaves]; exact kept_job hgiven')
        rw [List.append_nil] at hend
        exact hend
      | true =>
        simp only [Bool.not_true, Bool.false_eq_true, if_false]
        exact hround _ hrest

/-- The calls end as `runSupervisor` does. -/
theorem supervisorCalls_returns (restart : Bool) (args : List Argument) (j : Job)
    (rounds : List TimedRound) :
    (supervisorCalls restart args j rounds).2 =
      (runSupervisor restart args j (rounds.map TimedRound.toRound)).2 := by
  induction rounds generalizing j with
  | nil => rfl
  | cons r rounds ih =>
    rw [supervisorCalls, List.map_cons, runSupervisor]
    simp only
    by_cases herror : (wmProcSpawnSelf r.system j args true).error = .ok
    · cases restart with
      | false => simp [herror]
      | true => simpa [herror] using ih _
    · cases restart with
      | false => simp [herror]
      | true => simpa [herror] using ih _

/-- **Handles.** In every run of `run_supervisor`, with or without `--restart`, of any number of
rounds and whatever fails in them: as long as the system opens no handle that is open already,
only handles are used and closed that are open, and after the rounds nothing is open, or only a
job that kills its processes when it is closed. -/
theorem supervisor_handles (restart : Bool) (args : List Argument) (rounds : List TimedRound)
    (hfresh : AtEachStep HandleEvent.step (fun held e _ => e.Fresh held) []
      (handleEvents (supervisorCalls restart args .init rounds).1)) :
    let events := handleEvents (supervisorCalls restart args .init rounds).1
    AtEachStep HandleEvent.step (fun held e _ => e.Lawful held) [] events ∧
      (final HandleEvent.step [] events = [] ∨
        ∃ h, (∃ r ∈ rounds, r.system.createJob = some h ∧ r.system.limitJob = true) ∧
          final HandleEvent.step [] events = [h]) := by
  have hruns := @round_runs restart args
    (fun h => ∃ r ∈ rounds, r.system.createJob = some h ∧ r.system.limitJob = true) .init
    (fun h => absurd h Bool.false_ne_true) (fun _ hh => nomatch hh) rounds
    (fun r hr h hcreate hlimit => ⟨r, hr, hcreate, hlimit⟩)
  exact hruns.sound hfresh

/-- A system that has a job to give, and gives the same handles each time. -/
def jobSystem : SpawnSystem := { spawnSystem with createJob := some 3, limitJob := true }

/-- A round whose worker exits with 3 after half a second. -/
def shortRound : TimedRound := ⟨⟨jobSystem, some 3⟩, 0, 500⟩

/-- A round in which there is no memory for the child. -/
def starvedRound : TimedRound := ⟨⟨{ jobSystem with malloc := false }, none⟩, 1490, 1490⟩

theorem short_starved_calls :
    (supervisorCalls true [workerFlag] .init [shortRound, starvedRound]).1 =
      .now 0 :: [.opens 3, .uses 3, .opens 1, .opens 2, .uses 3, .uses 1, .uses 2, .uses 1,
          .uses 1, .closes 2, .closes 1].map .handle ++
        [.now 500, .sleep 1000, .now 1490] ++
          [.opens 1, .opens 2, .uses 3, .uses 1, .uses 2, .uses 1, .closes 2, .closes 1].map
            .handle ++ [.sleep 1000] := by
  decide +kernel

/-- In both rounds the process has the handle 1. -/
theorem supervisor_handles_starved :
    let events := handleEvents
      (supervisorCalls true [workerFlag] .init [shortRound, starvedRound]).1
    AtEachStep HandleEvent.step (fun held e _ => e.Lawful held) [] events ∧
      (final HandleEvent.step [] events = [] ∨
        ∃ h, (∃ r ∈ [shortRound, starvedRound],
            r.system.createJob = some h ∧ r.system.limitJob = true) ∧
          final HandleEvent.step [] events = [h]) :=
  supervisor_handles true [workerFlag] [shortRound, starvedRound] (by
    rw [short_starved_calls]
    simp [handleEvents, atEachStep_cons, HandleEvent.Fresh, HandleEvent.step, HandleEvent.after])

-- ----------------------------------------------------------------------------
-- The clock
-- ----------------------------------------------------------------------------

/-- The clock, which showed `t`, does not go back, and each sleep lasts for its time less
`slack`. -/
def Clocked (slack : Nat) : Nat → List SupervisorCall → Prop
  | _, [] => True
  | t, .handle _ :: cs => Clocked slack t cs
  | t, .now ms :: cs => t ≤ ms.toNat ∧ Clocked slack ms.toNat cs
  | t, .sleep ms :: cs => Clocked slack (t + (ms.toNat - slack)) cs

section Clock

variable {slack t : Nat}

theorem clocked_handles (es : List (HandleEvent Handle)) (cs : List SupervisorCall) :
    Clocked slack t (es.map .handle ++ cs) ↔ Clocked slack t cs := by
  induction es with
  | nil => exact Iff.rfl
  | cons e es ih => exact ih

theorem clocked_finish (r : TimedRound) (child : Option Child) (cs : List SupervisorCall) :
    Clocked slack t (r.finish child ++ cs) ↔ Clocked slack t cs := by
  cases child with
  | none => exact Iff.rfl
  | some child => exact clocked_handles ..

/-- After a round that was short the clock shows a second more, and after another one two. -/
theorem clocked_pause {r : TimedRound} {cs : List SupervisorCall}
    (hended : r.start.toNat ≤ r.ended.toNat)
    (h : Clocked slack r.ended.toNat (r.pause ++ cs)) :
    ∃ t', r.start.toNat + (1000 - slack) ≤ t' ∧ Clocked slack t' cs := by
  have hran : (r.ended - r.start).toNat = r.ended.toNat - r.start.toNat :=
    UInt64.toNat_sub_of_le _ _ (UInt64.le_iff_toNat_le.mpr hended)
  unfold TimedRound.pause at h
  by_cases hshort : r.ended - r.start < supervisorMinHealthyMs
  · rw [if_pos hshort] at h
    refine ⟨r.ended.toNat + (1000 - slack), by omega, ?_⟩
    exact h
  · rw [if_neg hshort] at h
    have hlong : 2000 ≤ (r.ended - r.start).toNat := by
      rw [UInt64.lt_iff_toNat_lt] at hshort
      exact Nat.not_lt.mp hshort
    exact ⟨r.ended.toNat, by omega, h⟩

/-- The rounds start a second apart, and none before the clock shows `t`. -/
theorem rounds_spaced {args : List Argument} {j : Job} {rounds : List TimedRound}
    (hclock : Clocked slack t (supervisorCalls true args j rounds).1) :
    Spaced (1000 - slack) (rounds.map fun r => r.start.toNat) ∧
      ∀ r ∈ rounds.head?, t ≤ r.start.toNat := by
  induction rounds generalizing j t with
  | nil => exact ⟨List.Pairwise.nil, fun _ hr => nomatch hr⟩
  | cons r rounds ih =>
    have hcalls : t ≤ r.start.toNat ∧ ∃ t', r.start.toNat + (1000 - slack) ≤ t' ∧
        Clocked slack t' (supervisorCalls true args
          (wmProcSpawnSelf r.system j args true).job rounds).1 := by
      rw [supervisorCalls] at hclock
      simp only [Bool.not_true, Bool.false_eq_true, if_false] at hclock
      by_cases herror : (wmProcSpawnSelf r.system j args true).error = .ok
      · rw [if_neg (not_not.mpr herror), List.append_assoc] at hclock
        obtain ⟨hstart, hrest⟩ := hclock
        rw [List.append_eq, clocked_handles, clocked_finish] at hrest
        exact ⟨hstart, clocked_pause hrest.1 hrest.2⟩
      · rw [if_pos herror] at hclock
        obtain ⟨hstart, hrest⟩ := hclock
        rw [List.append_eq, clocked_handles] at hrest
        exact ⟨hstart, _, Nat.le_refl _, hrest⟩
    obtain ⟨hstart, t', hnext, hrest⟩ := hcalls
    obtain ⟨hspaced, hhead⟩ := ih hrest
    refine ⟨?_, fun r' hr' => Option.some.inj hr' ▸ hstart⟩
    cases rounds with
    | nil => exact List.pairwise_singleton _ _
    | cons r' rounds =>
      exact spaced_cons_cons (Nat.le_trans hnext (hhead r' rfl)) hspaced

end Clock

/-- **Restarts.** If the clock does not go back and no sleep is cut short by more than `slack`, the
rounds of `run_supervisor` with `--restart` start at least a second less `slack` apart, whatever
becomes of their workers, and a span of `T` milliseconds has `T / (1000 - slack) + 1` of them at
most. -/
theorem restart_rate {slack : Nat} (hslack : slack < 1000) (args : List Argument)
    (rounds : List TimedRound)
    (hclock : Clocked slack 0 (supervisorCalls true args .init rounds).1) :
    Spaced (1000 - slack) (rounds.map fun r => r.start.toNat) ∧
      ∀ lo T, ((rounds.map fun r => r.start.toNat).filter
        fun a => lo ≤ a ∧ a ≤ lo + T).length ≤ T / (1000 - slack) + 1 := by
  obtain ⟨hspaced, -⟩ := rounds_spaced hclock
  exact ⟨hspaced, fun lo T => spaced_window (by omega) hspaced lo T⟩

/-- The first sleep lasts for 990 milliseconds. -/
theorem restart_rate_starved :
    Spaced (1000 - 16) ([shortRound, starvedRound].map fun r => r.start.toNat) ∧
      ∀ lo T, (([shortRound, starvedRound].map fun r => r.start.toNat).filter
        fun a => lo ≤ a ∧ a ≤ lo + T).length ≤ T / (1000 - 16) + 1 :=
  restart_rate (by decide) [workerFlag] [shortRound, starvedRound] (by
    rw [short_starved_calls]
    simp [Clocked])

end Uniwm
