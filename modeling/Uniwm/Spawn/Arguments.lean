import Mathlib.Data.List.Induction
import Uniwm.Model.Supervisor
import Uniwm.Spawn.CommandLine

/-!
# uniwm — the arguments that reach the worker

Three capacities stand between the supervisor's arguments and the worker's: `main` keeps 63
of them, an argument has 4095 wide characters at most, and the command line 32767. Only the
second is checked. `main` passes over what finds its array full, and `append_quoted` stops
where the buffer ends.

`attempt_carries_iff`: one spawn carries all arguments, or fails without a process, exactly
if no process is created anyway or all arguments fit; `supervisor_carries_iff` says it of
every spawn of a run. That what does not fit is lost goes by lengths: the line built is
never as long as the buffer (`buildCommandLine_length`). `last_argument_dropped` gives 64
arguments.
-/

namespace Uniwm

open Base

/-! ## What main keeps -/

/-- The arguments that are meant for the worker. -/
def workerArguments (argv : List Argument) : List Argument :=
  workerFlag :: argv.filter fun arg => arg ≠ workerFlag && arg ≠ restartFlag

theorem scanArguments_concat (argv : List Argument) (arg : Argument) :
    scanArguments (argv ++ [arg]) = scanArgument (scanArguments argv) arg := by
  simp [scanArguments]

/-- `main` keeps the first 64 of them, its own flag among them. -/
theorem scanArguments_childArgs (argv : List Argument) :
    (scanArguments argv).childArgs = (workerArguments argv).take childArgsMax := by
  induction argv using List.reverseRecOn with
  | nil => rfl
  | append_singleton argv arg ih =>
    rw [scanArguments_concat]
    unfold scanArgument
    by_cases hworker : arg = workerFlag
    · simp only [if_pos hworker, ih]
      simp [workerArguments, hworker]
    · by_cases hrestart : arg = restartFlag
      · simp only [if_neg hworker, if_pos hrestart, ih]
        simp [workerArguments, hrestart]
      · have hmore : workerArguments (argv ++ [arg]) = workerArguments argv ++ [arg] := by
          simp [workerArguments, hworker, hrestart]
        simp only [if_neg hworker, if_neg hrestart, hmore, List.take_append, ih,
          List.length_take]
        by_cases hroom : (workerArguments argv).length < childArgsMax
        · have hlt : min childArgsMax (workerArguments argv).length < childArgsMax := by omega
          have hone : 1 ≤ childArgsMax - (workerArguments argv).length := by omega
          rw [if_pos hlt, List.take_of_length_le (l := [arg]) (by simpa using hone)]
        · have hge : ¬ min childArgsMax (workerArguments argv).length < childArgsMax := by omega
          have hzero : childArgsMax - (workerArguments argv).length = 0 := by omega
          rw [if_neg hge, hzero, List.take_zero, List.append_nil, ih]

/-! ## What the buffer keeps -/

theorem wideString_length_le {buf : Nat → WChar} {i k : Nat} (n : Nat) (hEnd : buf (i + k) = 0) :
    (wideString buf i n).length ≤ k := by
  induction n generalizing i k with
  | zero => exact Nat.zero_le _
  | succ n ih =>
    unfold wideString
    split
    · exact Nat.zero_le _
    · next hne =>
      cases k with
      | zero => exact absurd hEnd hne
      | succ k =>
        have hrest := ih (i := i + 1) (k := k) (by rw [← hEnd]; congr 1; omega)
        rw [List.length_cons]
        omega

/-- The line built is shorter than the buffer. -/
theorem buildCommandLine_length {w : SpawnSystem} {args : List Argument} {line : List WChar}
    (hok : buildCommandLine w args = .ok line) : line.length < commandLineCap := by
  obtain ⟨t, ht, rfl⟩ := buildCommandLine_inv hok
  have hlen := commandLineText_len ht
  have hend : t.terminate (0 + t.len) = 0 := by
    rw [WText.terminate, if_pos hlen, Nat.zero_add, Function.update_self]
  have hle := wideString_length_le commandLineCap hend
  omega

/-! ## When a process is created -/

section Build

variable {w : SpawnSystem} {args : List Argument}

theorem appendArgs_ok_iff {wide : List UInt8 → Option (List WChar)} {t : WText} :
    (∃ t', appendArgs wide t args = .ok t') ↔
      ∀ arg ∈ args, (multiByteToWideChar wide arg).isSome = true := by
  induction args generalizing t with
  | nil => simp [appendArgs]
  | cons arg args ih =>
    rw [List.forall_mem_cons]
    cases hwide : multiByteToWideChar wide arg with
    | none => simp [appendArgs, hwide]
    | some warg =>
      simp only [appendArgs, hwide, Option.isSome_some, true_and]
      exact ih

/-- The command line is built if the path and the arguments can be had. -/
theorem buildCommandLine_ok_iff :
    (∃ line, buildCommandLine w args = .ok line) ↔
      (w.moduleFileName ≠ [] ∧ w.moduleFileName.length < maxPath) ∧
        ∀ arg ∈ args, (multiByteToWideChar w.wide arg).isSome = true := by
  have hpath : ((w.moduleFileName.take maxPath).length = 0 ∨
      (w.moduleFileName.take maxPath).length ≥ maxPath) ↔
        ¬ (w.moduleFileName ≠ [] ∧ w.moduleFileName.length < maxPath) := by
    rw [List.length_take, ne_eq, ← List.length_eq_zero_iff]
    omega
  unfold buildCommandLine
  simp only
  by_cases hok : w.moduleFileName ≠ [] ∧ w.moduleFileName.length < maxPath
  · rw [if_neg (hpath.not.mpr (not_not.mpr hok)), and_iff_right hok,
      ← appendArgs_ok_iff (t := appendQuoted commandLineCap ⟨w.cmdline, 0⟩
        (w.moduleFileName.take maxPath))]
    cases appendArgs w.wide _ args <;> simp
  · rw [if_pos (hpath.mpr hok)]
    simp [hok]

theorem appendArgs_error {wide : List UInt8 → Option (List WChar)} {t : WText} {e : WMError}
    (h : appendArgs wide t args = .error e) : e = .unknown := by
  induction args generalizing t with
  | nil => cases h
  | cons arg args ih =>
    rw [appendArgs] at h
    cases hwide : multiByteToWideChar wide arg with
    | none =>
      simp only [hwide] at h
      cases h
      rfl
    | some warg =>
      simp only [hwide] at h
      exact ih h

theorem buildCommandLine_error {e : WMError} (h : buildCommandLine w args = .error e) :
    e = .unknown := by
  unfold buildCommandLine at h
  simp only at h
  split at h
  · cases h
    rfl
  · split at h
    · next ht =>
      cases h
      exact appendArgs_error ht
    · cases h

end Build

/-! ## One spawn -/

/-- The command lines of the processes that a spawn starts. -/
def Attempt.started (a : Attempt) : List (List WChar) :=
  if a.system.createProcess.isSome then a.spawned.commandLines else []

/-- The worker is started with all its arguments, or no process is started and an error is
returned. -/
def Attempt.Carries (argv : List Argument) (a : Attempt) : Prop :=
  (∃ wargs, List.Forall₂ (fun arg warg => a.system.wide arg = some warg) (workerArguments argv)
      wargs ∧ a.started = [commandLine a.system.moduleFileName wargs]) ∨
    (a.started = [] ∧ a.spawned.error ≠ .ok)

/-- The path and the arguments `args` can be had, and `CreateProcessW` succeeds. -/
structure CanStart (w : SpawnSystem) (args : List Argument) : Prop where
  path : w.moduleFileName ≠ [] ∧ w.moduleFileName.length < maxPath
  converts : ∀ arg ∈ args, (multiByteToWideChar w.wide arg).isSome = true
  created : w.createProcess.isSome = true

/-- The arguments fit the array of `main`, and the line with all of them fits its buffer. -/
structure AllFit (w : SpawnSystem) (argv : List Argument) : Prop where
  count : (workerArguments argv).length ≤ childArgsMax
  line : ∀ wargs, List.Forall₂ (fun arg warg => w.wide arg = some warg) (workerArguments argv)
    wargs → (commandLine w.moduleFileName wargs).length < commandLineCap

/-- The path and the converted arguments have no `NUL` in them, as strings end at one. -/
structure NulFree (w : SpawnSystem) (args : List Argument) : Prop where
  path : 0 ∉ w.moduleFileName
  wide : ∀ arg ∈ args, ∀ warg, w.wide arg = some warg → 0 ∉ warg

section Attempt

variable {w : SpawnSystem} {args : List Argument} {wargs : List (List WChar)}

/-- What the conversions give, all at once. -/
theorem exists_converted
    (h : ∀ arg ∈ args, (multiByteToWideChar w.wide arg).isSome = true) :
    ∃ wargs, List.Forall₂ (fun arg warg => w.wide arg = some warg) args wargs ∧
      ∀ warg ∈ wargs, warg.length < argWideCap := by
  induction args with
  | nil => exact ⟨[], .nil, fun _ hmem => nomatch hmem⟩
  | cons arg args ih =>
    rw [List.forall_mem_cons] at h
    obtain ⟨warg, hwarg⟩ := Option.isSome_iff_exists.mp h.1
    obtain ⟨wargs, hwargs, hcap⟩ := ih h.2
    rw [multiByteToWideChar, Option.filter_eq_some_iff] at hwarg
    refine ⟨warg :: wargs, .cons hwarg.1 hwargs, List.forall_mem_cons.mpr ⟨?_, hcap⟩⟩
    simpa using hwarg.2

/-- An argument converts to one text. -/
theorem converted_unique {wargs' : List (List WChar)}
    (h : List.Forall₂ (fun arg warg => w.wide arg = some warg) args wargs)
    (h' : List.Forall₂ (fun arg warg => w.wide arg = some warg) args wargs') :
    wargs = wargs' := by
  refine List.right_unique_forall₂' ?_ h h'
  intro arg warg warg' heq heq'
  exact Option.some.inj (heq.symm.trans heq')

theorem NulFree.subset {args' : List Argument} (hNul : NulFree w args) (hsub : args' ⊆ args) :
    NulFree w args' :=
  ⟨hNul.path, fun arg harg => hNul.wide arg (hsub harg)⟩

theorem NulFree.converted (hNul : NulFree w args)
    (h : List.Forall₂ (fun arg warg => w.wide arg = some warg) args wargs) :
    ∀ warg ∈ wargs, 0 ∉ warg := by
  induction h with
  | nil => exact fun _ hmem => nomatch hmem
  | cons harg _ ih =>
    refine List.forall_mem_cons.mpr ⟨hNul.wide _ (List.mem_cons_self ..) _ harg, ih ?_⟩
    exact hNul.subset (List.subset_cons_self ..)

/-- If the line fits, it is what is built. -/
theorem CanStart.buildCommandLine_eq (hStart : CanStart w args) (hNul : NulFree w args)
    (hWide : List.Forall₂ (fun arg warg => w.wide arg = some warg) args wargs)
    (hLine : (commandLine w.moduleFileName wargs).length < commandLineCap) :
    buildCommandLine w args = .ok (commandLine w.moduleFileName wargs) := by
  obtain ⟨wargs', hwide', hcap⟩ := exists_converted hStart.converts
  have hsame : wargs = wargs' := converted_unique hWide hwide'
  have hfits : SpawnFits w args wargs := {
    path_ne_nil := hStart.path.1
    path_nul := hNul.path
    path_cap := hStart.path.2
    wide := hWide
    arg_nul := hNul.converted hWide
    arg_cap := by rw [hsame]; exact hcap
    line_cap := hLine }
  exact hfits.buildCommandLine_eq

/-- In any case the line built is not longer than the one with all the arguments. -/
theorem CanStart.buildCommandLine_le (hStart : CanStart w args) (hNul : NulFree w args)
    (hWide : List.Forall₂ (fun arg warg => w.wide arg = some warg) args wargs)
    {line : List WChar} (hBuilt : buildCommandLine w args = .ok line) :
    line.length ≤ (commandLine w.moduleFileName wargs).length := by
  by_cases hfits : (commandLine w.moduleFileName wargs).length < commandLineCap
  · rw [hStart.buildCommandLine_eq hNul hWide hfits] at hBuilt
    cases hBuilt
    exact Nat.le_refl _
  · have hlen := buildCommandLine_length hBuilt
    omega

/-- Leaving arguments out makes the line shorter. -/
theorem commandLine_take_lt (path : List WChar) {n : Nat} (hn : n < wargs.length) :
    (commandLine path (wargs.take n)).length < (commandLine path wargs).length := by
  have hsplit : wargs.take n ++ wargs.drop n = wargs := List.take_append_drop ..
  obtain ⟨warg, rest, hdrop⟩ : ∃ warg rest, wargs.drop n = warg :: rest :=
    List.exists_cons_of_length_pos (by rw [List.length_drop]; omega)
  have hline : commandLine path wargs =
      commandLine path (wargs.take n) ++ quotedLine windows .space (warg :: rest) := by
    rw [← hdrop, commandLine, commandLine, List.append_assoc, quotedLine, quotedLine, quotedLine,
      ← List.flatMap_append, hsplit]
  rw [hline, List.length_append, quotedLine, List.flatMap_cons, List.cons_append,
    List.length_cons]
  omega

/-- A spawn that builds a line and can create a process starts it with that line. -/
theorem started_eq {line : List WChar} (j : Job) (hBuilt : buildCommandLine w args = .ok line)
    (hCreated : w.createProcess.isSome = true) :
    (⟨w, wmProcSpawnSelf w j args true⟩ : Attempt).started = [line] := by
  rw [Attempt.started, if_pos hCreated]
  exact wmProcSpawnSelf_commandLines j hBuilt

/-- A spawn that does not come that far starts nothing and returns an error. -/
theorem not_started (j : Job) (hStart : ¬ CanStart w args) :
    (⟨w, wmProcSpawnSelf w j args true⟩ : Attempt).started = [] ∧
      (wmProcSpawnSelf w j args true).error ≠ .ok := by
  cases hbuilt : buildCommandLine w args with
  | error e =>
    have herror := buildCommandLine_error hbuilt
    have hspawn : wmProcSpawnSelf w j args true = ⟨e, none, j, []⟩ := by
      simp only [wmProcSpawnSelf, hbuilt, Bool.not_true, Bool.false_eq_true, if_false]
    rw [Attempt.started, hspawn, herror]
    -- the process is created after the line is built, so none is
    refine ⟨ite_self _, ?_⟩
    show WMError.unknown ≠ .ok
    decide
  | ok line =>
    obtain ⟨hpath, hconverts⟩ := buildCommandLine_ok_iff.mp ⟨line, hbuilt⟩
    have hcreate : w.createProcess = none := by
      rw [← Option.not_isSome_iff_eq_none]
      exact fun hcreated => hStart ⟨hpath, hconverts, hcreated⟩
    have herror : (wmProcSpawnSelf w j args true).error = .unknown := by
      simp only [wmProcSpawnSelf, hbuilt, hcreate, Bool.not_true, Bool.false_eq_true, if_false]
    rw [Attempt.started, hcreate, herror]
    exact ⟨rfl, by decide⟩

/-- If the line built is the one with all the arguments, they fit. -/
theorem CanStart.allFit {argv : List Argument}
    (hStart : CanStart w ((workerArguments argv).take childArgsMax))
    (hNul : NulFree w (workerArguments argv))
    (hWide : List.Forall₂ (fun arg warg => w.wide arg = some warg) (workerArguments argv) wargs)
    (hBuilt : buildCommandLine w ((workerArguments argv).take childArgsMax) =
      .ok (commandLine w.moduleFileName wargs)) : AllFit w argv := by
  refine ⟨?_, ?_⟩
  -- with an argument left out the line would be too short
  · by_contra hmany
    have htake := List.forall₂_take childArgsMax hWide
    have hle := hStart.buildCommandLine_le (hNul.subset (List.take_subset ..)) htake hBuilt
    have hmore : childArgsMax < wargs.length := by
      rw [← hWide.length_eq]
      omega
    have hlt := commandLine_take_lt w.moduleFileName hmore
    omega
  -- and so it would be if it had met the end of the buffer
  · intro wargs' hwide'
    rw [converted_unique hwide' hWide]
    exact buildCommandLine_length hBuilt

/-- If they fit, the line built is that one. -/
theorem AllFit.exists_line {argv : List Argument} (hFit : AllFit w argv)
    (hStart : CanStart w ((workerArguments argv).take childArgsMax))
    (hNul : NulFree w (workerArguments argv)) :
    ∃ wargs, List.Forall₂ (fun arg warg => w.wide arg = some warg) (workerArguments argv) wargs ∧
      buildCommandLine w ((workerArguments argv).take childArgsMax) =
        .ok (commandLine w.moduleFileName wargs) := by
  have hall : (workerArguments argv).take childArgsMax = workerArguments argv :=
    List.take_of_length_le hFit.count
  rw [hall] at hStart ⊢
  obtain ⟨wargs, hwide, -⟩ := exists_converted hStart.converts
  exact ⟨wargs, hwide, hStart.buildCommandLine_eq hNul hwide (hFit.line wargs hwide)⟩

/-- **One spawn.** It carries the arguments of `argv`, or fails without a process, exactly if
it comes to no process anyway or all the arguments fit. -/
theorem attempt_carries_iff {argv : List Argument} (hNul : NulFree w (workerArguments argv))
    (j : Job) :
    (⟨w, wmProcSpawnSelf w j (scanArguments argv).childArgs true⟩ : Attempt).Carries argv ↔
      (CanStart w (scanArguments argv).childArgs → AllFit w argv) := by
  rw [scanArguments_childArgs]
  by_cases hstart : CanStart w ((workerArguments argv).take childArgsMax)
  · obtain ⟨line, hbuilt⟩ := buildCommandLine_ok_iff.mpr ⟨hstart.path, hstart.converts⟩
    have hstarted := started_eq j hbuilt hstart.created
    rw [forall_prop_of_true hstart]
    constructor
    · rintro (⟨wargs, hwide, hline⟩ | ⟨hnone, -⟩)
      · rw [hstarted] at hline
        have heq : line = commandLine w.moduleFileName wargs := List.singleton_inj.mp hline
        exact hstart.allFit hNul hwide (heq ▸ hbuilt)
      -- a process was started, so this spawn did not fail
      · rw [hstarted] at hnone
        cases hnone
    · intro hfit
      obtain ⟨wargs, hwide, hline⟩ := hfit.exists_line hstart hNul
      rw [hbuilt] at hline
      exact Or.inl ⟨wargs, hwide, by rw [hstarted, Except.ok.inj hline]⟩
  · exact iff_of_true (Or.inr (not_started j hstart)) fun h => absurd h hstart

end Attempt

/-! ## Runs of the supervisor -/

/-- Every spawn of a run is one with the arguments that `main` kept. -/
theorem mem_runSupervisor {restart : Bool} {args : List Argument} {j : Job} {rounds : List Round}
    {a : Attempt} (h : a ∈ (runSupervisor restart args j rounds).1) :
    ∃ r ∈ rounds, ∃ j', a = ⟨r.system, wmProcSpawnSelf r.system j' args true⟩ := by
  induction rounds generalizing j with
  | nil => cases h
  | cons r rounds ih =>
    unfold runSupervisor at h
    simp only at h
    split at h
    · rw [List.mem_singleton] at h
      exact ⟨r, List.mem_cons_self .., j, h⟩
    · rcases List.mem_cons.mp h with h | h
      · exact ⟨r, List.mem_cons_self .., j, h⟩
      · obtain ⟨r', hr', hspawn⟩ := ih h
        exact ⟨r', List.mem_cons_of_mem _ hr', hspawn⟩

/-- **The worker's arguments arrive.** For every `argv` and every round of the supervisor:
each worker is started with the quoted path, `--worker` and every other argument for it, or
there is an error and no process, exactly if, where a process is created at all, these are
64 arguments at most and the line with all of them has at most 32767 characters. -/
theorem supervisor_carries_iff (argv : List Argument) (rounds : List Round)
    (hNul : ∀ r ∈ rounds, NulFree r.system (workerArguments argv)) :
    (∀ a ∈ mainSpawns argv rounds, a.Carries argv) ↔
      ∀ a ∈ mainSpawns argv rounds,
        CanStart a.system (scanArguments argv).childArgs → AllFit a.system argv := by
  refine forall₂_congr fun a ha => ?_
  obtain ⟨r, hr, j, rfl⟩ : ∃ r ∈ rounds, ∃ j,
      a = ⟨r.system, wmProcSpawnSelf r.system j (scanArguments argv).childArgs true⟩ := by
    unfold mainSpawns at ha
    simp only at ha
    split at ha
    · cases ha
    · exact mem_runSupervisor ha
  exact attempt_carries_iff (hNul r hr) j

/-! ### Sixty-four arguments -/

/-- The arguments `a`, as often as given. -/
def letters (n : Nat) : List Argument := List.replicate n [97]

theorem spawnSystem_letters (n : Nat) : NulFree spawnSystem (workerArguments (letters n)) := by
  refine ⟨by decide, ?_⟩
  rintro arg harg _ ⟨⟩
  rcases List.mem_cons.mp harg with rfl | harg
  · decide
  · rw [List.eq_of_mem_replicate (List.mem_of_mem_filter harg)]
    decide

theorem supervisor_carries_iff_letter :
    (∀ a ∈ mainSpawns (letters 1) [⟨spawnSystem, some 0⟩], a.Carries (letters 1)) ↔
      ∀ a ∈ mainSpawns (letters 1) [⟨spawnSystem, some 0⟩],
        CanStart a.system (scanArguments (letters 1)).childArgs → AllFit a.system (letters 1) :=
  supervisor_carries_iff (letters 1) [⟨spawnSystem, some 0⟩] (by
    intro r hr
    rw [List.mem_singleton.mp hr]
    exact spawnSystem_letters 1)

theorem spawnSystem_canStart (n : Nat) :
    CanStart spawnSystem ((workerArguments (letters n)).take childArgsMax) := by
  refine ⟨by decide, ?_, rfl⟩
  intro arg harg
  rcases List.mem_cons.mp (List.mem_of_mem_take harg) with rfl | harg
  · decide
  · rw [List.eq_of_mem_replicate (List.mem_of_mem_filter harg)]
    decide

/-- Of 64 arguments the last one is dropped: the worker is started all the same, without an
error. -/
theorem last_argument_dropped :
    ∃ a, mainSpawns (letters 64) [⟨spawnSystem, some 0⟩] = [a] ∧ a.spawned.error = .ok ∧
      a.started.length = 1 ∧ (scanArguments (letters 64)).childArgs = workerFlag :: letters 63 ∧
      ¬ a.Carries (letters 64) := by
  have hworker : (scanArguments (letters 64)).worker = false := by decide +kernel
  have hrestart : (scanArguments (letters 64)).restart = false := by decide +kernel
  have hstart := spawnSystem_canStart 64
  rw [← scanArguments_childArgs] at hstart
  obtain ⟨line, hbuilt⟩ := buildCommandLine_ok_iff.mpr ⟨hstart.path, hstart.converts⟩
  refine ⟨⟨spawnSystem, wmProcSpawnSelf spawnSystem .init (scanArguments (letters 64)).childArgs
    true⟩, ?_, ?_, ?_, by decide +kernel, ?_⟩
  · simp only [mainSpawns, hworker, hrestart, runSupervisor, Bool.false_eq_true, Bool.not_false,
      if_true, if_false]
  · simp only [wmProcSpawnSelf, hbuilt, Bool.not_true, Bool.false_eq_true, if_false]
    rfl
  · rw [started_eq .init hbuilt rfl, List.length_singleton]
  · rw [attempt_carries_iff (spawnSystem_letters 64)]
    intro hfit
    exact absurd (hfit hstart).count (by decide +kernel)

end Uniwm
