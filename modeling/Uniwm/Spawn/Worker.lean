import Uniwm.Model.Worker
import Uniwm.Spawn.Arguments

/-!
# uniwm — every process started is a worker

The supervisor starts its own executable, and that the new process does not become a
supervisor too hangs on one argument that has to survive being quoted into the command line and
split again.

* `spawned_are_workers`: it does, for all arguments, fitting or not: the path and `--worker`
  come first, the buffer has room for them (`commandLineText_starts`), and what follows begins
  with a blank. So a process that the supervisor starts never starts another.
* `worker_script`: if all arguments fit and are split as they were given, the worker runs the
  script that follows the first `-c` among the arguments that are no flags of the supervisor.

The C runtime splits the command line by the rules of `Uniwm.Base.CommandLine` and gives `main`
the arguments in bytes (`narrow`).
-/

namespace Uniwm

open Base

-- ----------------------------------------------------------------------------
-- The text up to its end
-- ----------------------------------------------------------------------------

/-- What is read of an array with a `NUL` in it is the text up to the first one. -/
theorem wideString_takeWhile {buf : Nat → WChar} {i k n : Nat} (hEnd : buf (i + k) = 0)
    (hRoom : k < n) :
    wideString buf i n = ((List.range k).map fun j => buf (i + j)).takeWhile (· ≠ 0) := by
  induction n generalizing i k with
  | zero => exact absurd hRoom (Nat.not_lt_zero k)
  | succ n ih =>
    rw [wideString]
    cases k with
    | zero =>
      rw [Nat.add_zero] at hEnd
      rw [if_pos hEnd, List.range_zero, List.map_nil, List.takeWhile_nil]
    | succ k =>
      rw [List.range_succ_eq_map, List.map_cons, List.map_map, Nat.add_zero]
      by_cases hzero : buf i = 0
      · rw [if_pos hzero, List.takeWhile_cons_of_neg (by simp [hzero])]
      · rw [if_neg hzero, List.takeWhile_cons_of_pos (by simp [hzero]),
          ih (i := i + 1) (k := k) (by rw [← hEnd]; congr 1; omega) (by omega)]
        congr 2
        refine List.map_congr_left fun j _ => ?_
        show buf (i + 1 + j) = buf (i + (j + 1))
        congr 1
        omega

theorem wideString_terminate_eq {t : WText} (hRoom : t.len < commandLineCap) :
    wideString t.terminate 0 commandLineCap = cString t.text := by
  have hterminate : t.terminate = Function.update t.buf t.len 0 := by
    rw [WText.terminate, if_pos hRoom]
  have hend : t.terminate (0 + t.len) = 0 := by
    rw [hterminate, Nat.zero_add, Function.update_self]
  rw [wideString_takeWhile hend hRoom, cString, WText.text]
  congr 1
  refine List.map_congr_left fun j hj => ?_
  rw [List.mem_range] at hj
  rw [hterminate, Nat.zero_add, Function.update_of_ne (Nat.ne_of_lt hj)]

/-- A text without `NUL` stands before what follows it. -/
theorem cString_append {s rest : List WChar} (hNul : 0 ∉ s) :
    cString (s ++ rest) = s ++ cString rest := by
  rw [cString, List.takeWhile_append_of_pos, cString]
  intro c hc
  rw [decide_eq_true_eq]
  rintro rfl
  exact hNul hc

-- ----------------------------------------------------------------------------
-- How a command line starts
-- ----------------------------------------------------------------------------

/-- `L"--worker"` -/
def workerText : List WChar := [45, 45, 119, 111, 114, 107, 101, 114]

/-- The path has no quote and no `NUL`, and the conversions take `--worker` to itself. -/
structure PlainSystem (narrow : List WChar → Argument) (w : SpawnSystem) : Prop where
  path_quote : .quote ∉ w.moduleFileName
  path_nul : 0 ∉ w.moduleFileName
  wide : w.wide workerFlag = some workerText
  narrow : narrow workerText = workerFlag

/-- What a program finds in `argv`, without `argv[0]`. -/
def mainArgv (narrow : List WChar → Argument) (line : List WChar) : List Argument :=
  (argv windows line).tail.map narrow

section Line

variable {narrow : List WChar → Argument} {w : SpawnSystem} {rest : List Argument}

theorem quoted_length {s : List WChar} (hQuote : .quote ∉ s) :
    (quoted windows s).length = s.length + 2 := by
  have hescaped : escaped windows s = s := escaped_of_notMem hQuote
  rw [quoted, hescaped, List.length_append, List.length_cons, List.length_singleton]

/-- Whatever the arguments, the text starts with the path and `--worker`, both in quotes, and a
blank follows unless it ends there. -/
theorem commandLineText_starts (hw : PlainSystem narrow w)
    (hcap : w.moduleFileName.length < maxPath) {t : WText}
    (hok : commandLineText w (workerFlag :: rest) = .ok t) :
    ∃ cs : List WChar, (∀ c ∈ cs.head?, c = .space) ∧
      t.text = quoted windows w.moduleFileName ++ .space :: quoted windows workerText ++ cs := by
  have hself : w.moduleFileName.take maxPath = w.moduleFileName :=
    List.take_of_length_le (Nat.le_of_lt hcap)
  have hlong : w.moduleFileName.length < 260 := hcap
  have hpath : cString w.moduleFileName = w.moduleFileName := cString_of_notMem hw.path_nul
  have hpathLen := quoted_length hw.path_quote
  -- the path takes 261 places at most
  have htext₀ : (appendQuoted commandLineCap ⟨w.cmdline, 0⟩ w.moduleFileName).text =
      quoted windows w.moduleFileName := by
    have h := @appendQuoted_text commandLineCap ⟨w.cmdline, 0⟩ w.moduleFileName
      (by rw [hpath, hpathLen]; show 0 + _ < 32768; omega)
    rw [hpath] at h
    exact h
  rw [commandLineText, hself] at hok
  generalize appendQuoted commandLineCap ⟨w.cmdline, 0⟩ w.moduleFileName = t₀ at htext₀ hok
  have hlen₀ : t₀.len = w.moduleFileName.length + 2 := by
    rw [← WText.length_text, htext₀, hpathLen]
  have hworker : multiByteToWideChar w.wide workerFlag = some workerText :=
    multiByteToWideChar_eq_some hw.wide (by decide)
  have hspace : t₀.len + 1 < commandLineCap := by
    show t₀.len + 1 < 32768
    omega
  rw [appendArgs, hworker] at hok
  simp only [if_pos hspace] at hok
  -- and `--worker` ten more
  have htext₁ : (appendQuoted commandLineCap (t₀.put .space) workerText).text =
      t₀.text ++ .space :: quoted windows workerText := by
    have hsame : cString workerText = workerText := by decide
    have h := @appendQuoted_text commandLineCap (t₀.put .space) workerText (by
      have hten : (quoted windows (cString workerText)).length = 10 := by decide
      rw [hten, WText.put_len]
      show t₀.len + 1 + 10 < 32768
      omega)
    rw [h, hsame, WText.text_put, List.append_assoc, List.singleton_append]
  generalize appendQuoted commandLineCap (t₀.put .space) workerText = t₁ at htext₁ hok
  have hlen₁ : t₁.len = t₀.len + 11 := by
    have hten : (quoted windows workerText).length = 10 := by decide
    rw [← WText.length_text, htext₁, List.length_append, List.length_cons, hten,
      WText.length_text]
  rw [htext₀] at htext₁
  cases rest with
  | nil =>
    cases hok
    refine ⟨[], fun c hc => ?_, ?_⟩
    · exact absurd hc (Option.not_mem_none c)
    · rw [List.append_nil, htext₁]
  | cons arg rest =>
    have hroom : t₁.len + 1 < commandLineCap := by
      show t₁.len + 1 < 32768
      omega
    rw [appendArgs] at hok
    cases hwide : multiByteToWideChar w.wide arg with
    | none => simp [hwide] at hok
    | some warg =>
      simp only [hwide, if_pos hroom] at hok
      obtain ⟨cs, rfl, -⟩ := (appendQuoted_appends warg).trans (appendArgs_appends hok)
      refine ⟨.space :: cs, fun c hc => by simpa using hc.symm, ?_⟩
      rw [WText.text_puts, WText.text_put, htext₁, List.append_assoc _ [WChar.space] cs]
      rfl

/-- So it starts the arguments that a program splits it into. -/
theorem mainArgv_starts (hw : PlainSystem narrow w) {line : List WChar}
    (hok : buildCommandLine w (workerFlag :: rest) = .ok line) :
    workerFlag ∈ mainArgv narrow line := by
  obtain ⟨⟨-, hcap⟩, -⟩ := buildCommandLine_ok_iff.mp ⟨line, hok⟩
  obtain ⟨t, ht, rfl⟩ := buildCommandLine_inv hok
  obtain ⟨cs, hspace, htext⟩ := commandLineText_starts hw hcap ht
  have hnul : 0 ∉ quoted windows w.moduleFileName ++ .space :: quoted windows workerText := by
    rw [List.mem_append, List.mem_cons]
    rintro (h | h | h)
    · exact zero_notMem_quoted hw.path_nul h
    · exact absurd h (by decide)
    · exact zero_notMem_quoted (by decide) h
  have hblank : windows.blank .space = true := by decide
  have hrest : ∀ c ∈ (cString cs).head?, windows.blank c = true := by
    intro c hc
    cases cs with
    | nil => exact nomatch hc
    | cons d cs =>
      obtain rfl : d = .space := hspace d rfl
      rw [cString_cons (by decide)] at hc
      cases hc
      exact hblank
  have hfaithful : Faithful windows workerText := by
    simp [Faithful, workerText, windows, WChar.quote, WChar.backslash]
  have hescaped : escaped windows w.moduleFileName = w.moduleFileName :=
    escaped_of_notMem hw.path_quote
  have hline : cString t.text = windows.quote :: w.moduleFileName ++ windows.quote ::
      (WChar.space :: quoted windows workerText ++ cString cs) := by
    rw [htext, cString_append hnul, quoted, hescaped]
    simp
  rw [wideString_terminate_eq (commandLineText_len ht), mainArgv, hline,
    argv_quoted hw.path_quote, List.tail_cons, splitArgs_quoted_cons hblank hfaithful hrest,
    List.map_cons, hw.narrow]
  exact List.mem_cons_self

end Line

-- ----------------------------------------------------------------------------
-- Every process is a worker
-- ----------------------------------------------------------------------------

/-- `main` takes the worker's branch if the flag is among its arguments. -/
theorem scanArguments_worker (argv : List Argument) :
    (scanArguments argv).worker = true ↔ workerFlag ∈ argv := by
  induction argv using List.reverseRecOn with
  | nil => exact iff_of_false Bool.false_ne_true (List.not_mem_nil)
  | append_singleton argv arg ih =>
    rw [scanArguments_concat, List.mem_append, List.mem_singleton, ← ih]
    unfold scanArgument
    by_cases hworker : arg = workerFlag
    · simp [hworker]
    · rw [if_neg hworker]
      split
      · simp [Ne.symm hworker]
      · split <;> simp [Ne.symm hworker]

/-- A spawn of `main` is made with the arguments that it kept, the flag before all. -/
theorem mem_mainSpawns {argv : List Argument} {rounds : List Round} {a : Attempt}
    (ha : a ∈ mainSpawns argv rounds) :
    ∃ r ∈ rounds, ∃ j,
      a = ⟨r.system, wmProcSpawnSelf r.system j (scanArguments argv).childArgs true⟩ := by
  unfold mainSpawns at ha
  simp only at ha
  split at ha
  · exact nomatch ha
  · exact mem_runSupervisor ha

/-- The line that a process is started with is one that was built. -/
theorem built_of_started {w : SpawnSystem} {j : Job} {args : List Argument} {line : List WChar}
    (h : line ∈ (⟨w, wmProcSpawnSelf w j args true⟩ : Attempt).started) :
    buildCommandLine w args = .ok line := by
  by_cases hstart : CanStart w args
  · obtain ⟨built, hbuilt⟩ := buildCommandLine_ok_iff.mpr ⟨hstart.path, hstart.converts⟩
    rw [started_eq j hbuilt hstart.created, List.mem_singleton] at h
    rw [h, hbuilt]
  · rw [(not_started j hstart).1] at h
    exact nomatch h

/-- **No process starts a supervisor.** Whatever arguments `main` was given and whatever they
lose on the way, in every round of the supervisor: a process that is started finds `--worker`
among its arguments, so it is a worker, and it starts no process in turn. -/
theorem spawned_are_workers {narrow : List WChar → Argument} (argv : List Argument)
    (rounds : List Round) (hsystem : ∀ r ∈ rounds, PlainSystem narrow r.system) :
    ∀ a ∈ mainSpawns argv rounds, ∀ line ∈ a.started,
      (scanArguments (mainArgv narrow line)).worker = true ∧
        ∀ rounds', mainSpawns (mainArgv narrow line) rounds' = [] := by
  intro a ha line hline
  obtain ⟨r, hr, j, rfl⟩ := mem_mainSpawns ha
  have hbuilt := built_of_started hline
  rw [scanArguments_childArgs, workerArguments, childArgsMax, List.take_succ_cons] at hbuilt
  have hworker := (scanArguments_worker _).mpr (mainArgv_starts (hsystem r hr) hbuilt)
  refine ⟨hworker, fun rounds' => ?_⟩
  rw [mainSpawns]
  simp only [hworker, if_true]

/-- Every wide character is cut to its low byte. -/
def lowBytes (warg : List WChar) : Argument := warg.map UInt16.toUInt8

theorem spawnSystem_plain : PlainSystem lowBytes spawnSystem :=
  ⟨by decide, by decide, by decide, by decide⟩

/-- With the arguments `--restart` and `a\`, in a round whose worker exits with 3. -/
theorem spawned_are_workers_swallowed :
    ∃ a ∈ mainSpawns [restartFlag, [97, 92]] [⟨spawnSystem, some 3⟩], ∃ line ∈ a.started,
      (scanArguments (mainArgv lowBytes line)).worker = true ∧
        mainSpawns (mainArgv lowBytes line) [⟨spawnSystem, some 3⟩] = [] := by
  have hstarted : ∃ a ∈ mainSpawns [restartFlag, [97, 92]] [⟨spawnSystem, some 3⟩],
      ∃ line ∈ a.started, True := by
    decide +kernel
  obtain ⟨a, ha, line, hline, -⟩ := hstarted
  obtain ⟨hworker, hnone⟩ := spawned_are_workers [restartFlag, [97, 92]] [⟨spawnSystem, some 3⟩]
    (by rw [List.forall_mem_singleton]; exact spawnSystem_plain) a ha line hline
  exact ⟨a, ha, line, hline, hworker, hnone _⟩

-- ----------------------------------------------------------------------------
-- The script that is run
-- ----------------------------------------------------------------------------

/-- All arguments arrive: they fit, and in none of them a backslash stands before a quote or at
the end, and each is converted forth and back. -/
structure Arrives (narrow : List WChar → Argument) (argv : List Argument) (w : SpawnSystem) :
    Prop where
  plain : PlainSystem narrow w
  nul : NulFree w (workerArguments argv)
  fit : AllFit w argv
  same : ∀ arg ∈ workerArguments argv, ∀ warg, w.wide arg = some warg →
    Faithful windows warg ∧ narrow warg = arg

theorem parseScript_worker (argv : List Argument) :
    parseScript (workerFlag :: argv) = parseScript argv := by
  cases argv with
  | nil => rfl
  | cons path argv =>
    have hne : workerFlag ≠ scriptFlag := by decide
    rw [parseScript, if_neg hne]

/-- The arguments are split as they were given. -/
theorem Arrives.mainArgv_eq {narrow : List WChar → Argument} {argv : List Argument}
    {w : SpawnSystem} (h : Arrives narrow argv w) {line : List WChar}
    (hok : buildCommandLine w ((workerArguments argv).take childArgsMax) = .ok line)
    (hcreated : w.createProcess.isSome = true) :
    mainArgv narrow line = workerArguments argv := by
  obtain ⟨hpath, hconverts⟩ := buildCommandLine_ok_iff.mp ⟨line, hok⟩
  obtain ⟨wargs, hwide, hbuilt⟩ := h.fit.exists_line ⟨hpath, hconverts, hcreated⟩ h.nul
  obtain rfl : commandLine w.moduleFileName wargs = line :=
    Except.ok.inj (hbuilt.symm.trans hok)
  have hback : (∀ warg ∈ wargs, Faithful windows warg) ∧
      wargs.map narrow = workerArguments argv := by
    have hsame := h.same
    clear hok hbuilt hconverts
    generalize workerArguments argv = args at hsame hwide
    induction hwide with
    | nil => exact ⟨fun _ hmem => absurd hmem List.not_mem_nil, rfl⟩
    | cons harg _ ih =>
      rw [List.forall_mem_cons] at hsame
      obtain ⟨hfaithful, hnarrow⟩ := hsame.1 _ harg
      obtain ⟨hrest, hmap⟩ := ih hsame.2
      exact ⟨List.forall_mem_cons.mpr ⟨hfaithful, hrest⟩, by rw [List.map_cons, hnarrow, hmap]⟩
  have hblank : windows.blank .space = true := by decide
  rw [mainArgv, argv_commandLine h.plain.path_quote, List.tail_cons,
    (splitArgs_quoted_iff hblank wargs).mpr hback.1, hback.2]

/-- **The worker's script.** In every round whose system carries all arguments over, a worker
that is started runs the script after the first `-c` among the arguments of the supervisor, its
two flags left out, and `config.lua` without one. -/
theorem worker_script {narrow : List WChar → Argument} (argv : List Argument)
    (rounds : List Round) (harrives : ∀ r ∈ rounds, Arrives narrow argv r.system) :
    ∀ a ∈ mainSpawns argv rounds, ∀ line ∈ a.started,
      mainArgv narrow line = workerArguments argv ∧
        parseScript (mainArgv narrow line) =
          parseScript (argv.filter fun arg => arg ≠ workerFlag && arg ≠ restartFlag) := by
  intro a ha line hline
  obtain ⟨r, hr, j, rfl⟩ := mem_mainSpawns ha
  have hbuilt := built_of_started hline
  have hcreated : r.system.createProcess.isSome = true := by
    by_contra hnone
    rw [Attempt.started, if_neg hnone] at hline
    exact absurd hline List.not_mem_nil
  rw [scanArguments_childArgs] at hbuilt
  have hargv := (harrives r hr).mainArgv_eq hbuilt hcreated
  exact ⟨hargv, by rw [hargv, workerArguments, parseScript_worker]⟩

/-- The arguments `-c`, `--restart` and `a`. -/
def scriptArguments : List Argument := [scriptFlag, restartFlag, [97]]

theorem spawnSystem_arrives : Arrives lowBytes scriptArguments spawnSystem := by
  have hwide : ∀ arg ∈ workerArguments scriptArguments, ∀ warg,
      spawnSystem.wide arg = some warg →
        0 ∉ warg ∧ Faithful windows warg ∧ lowBytes warg = arg := by
    have hargs : workerArguments scriptArguments = [workerFlag, scriptFlag, [97]] := by decide
    rw [hargs]
    rintro arg harg _ ⟨⟩
    simp only [List.mem_cons, List.not_mem_nil, or_false] at harg
    rcases harg with rfl | rfl | rfl <;>
      simp [workerFlag, scriptFlag, Faithful, windows, lowBytes, WChar.quote, WChar.backslash]
  refine ⟨spawnSystem_plain, ⟨by decide, fun arg harg warg h => (hwide arg harg warg h).1⟩,
    ⟨by decide, ?_⟩, fun arg harg warg h => (hwide arg harg warg h).2⟩
  intro wargs hwargs
  have hconverted : List.Forall₂ (fun arg warg => spawnSystem.wide arg = some warg)
      (workerArguments scriptArguments) [workerText, [45, 99], [97]] :=
    .cons rfl (.cons rfl (.cons rfl .nil))
  rw [converted_unique hwargs hconverted]
  decide

theorem worker_script_given :
    ∃ a ∈ mainSpawns scriptArguments [⟨spawnSystem, some 0⟩], ∃ line ∈ a.started,
      mainArgv lowBytes line = [workerFlag, scriptFlag, [97]] ∧
        parseScript (mainArgv lowBytes line) = [97] := by
  have hstarted : ∃ a ∈ mainSpawns scriptArguments [⟨spawnSystem, some 0⟩],
      ∃ line ∈ a.started, True := by
    decide +kernel
  obtain ⟨a, ha, line, hline, -⟩ := hstarted
  obtain ⟨hargv, hscript⟩ := worker_script scriptArguments [⟨spawnSystem, some 0⟩]
    (by rw [List.forall_mem_singleton]; exact spawnSystem_arrives) a ha line hline
  exact ⟨a, ha, line, hline, hargv.trans (by decide), hscript.trans (by decide)⟩

/-- `-c --restart a` names the script `a`, though it is not what follows `-c`. -/
example : parseScript (workerArguments scriptArguments) = [97] ∧
    parseScript scriptArguments = restartFlag := by decide

end Uniwm
