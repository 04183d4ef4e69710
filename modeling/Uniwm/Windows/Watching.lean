import Uniwm.Windows.Seeding

/-!
# uniwm — one way of learning about windows

Whether the watcher polls, whether the target's hooks are installed and whether the
process has a target at all is kept in three places. `OneWay` says that they agree: the
watcher polls and no hook delivers, or it does not poll and sink and hooks are all in
place.

How a run stands is settled by two things: which hooks the target got when watching
started (`Step.hooksGranted`), and whether the process has been torn down since.

* Both hooks granted: good until `wm_process_fini` takes the hooks away; `watch.active`
  stays set, so no later `wm_window_watch_ensure` puts them back.
* Only the first granted: `win_on_window_changed` reports failure but leaves hook and
  sink in place, and the watcher polls as well, until a teardown removes the hook.
* None granted: the watcher polls, for good.

`one_way_iff` states this for the state after every successful
`wm_window_watch_ensure` of every run.
-/

namespace Uniwm

open Base

variable {keyMax : Nat}

/-! ## The property -/

/-- A notification would reach `target_window_sink`. -/
def WinHooks.Delivers (hooks : WinHooks) : Prop :=
  hooks.windowSink = some .targetWindowSink ∧
    (hooks.windowEventHook = true ∨ hooks.foregroundEventHook = true)

/-- Exactly one way of learning about windows is in force. -/
def OneWay (s : System keyMax) : Prop :=
  (s.input.watch.poll = true ∧ ¬ s.hooks.Delivers) ∨
    (s.input.watch.poll = false ∧ s.hooks = ⟨some .targetWindowSink, true, true⟩)

/-! ## The start -/

/-- Which hooks the target installs when it is asked. -/
inductive HooksGranted where
  | none
  | windowOnly
  | both
deriving DecidableEq, Repr

/-- The process as the step's call of `wm_window_watch_ensure` finds it. -/
def Step.processAt (p : Process) : Step → Process
  | .setDefault ti _ _ _ => { p with defaultTi := ti }
  | _ => p

/-- The hooks granted when the step starts watching. -/
def hooksGranted (p : Process) (o : EnsureOutcome) : HooksGranted :=
  match (wmProcess p o.targetInit).2 with
  | Option.none => .none
  | some _ => if !o.windowHook then .none else if o.foregroundHook then .both else .windowOnly

/-- The step starts watching, with the outcomes `o`. -/
structure StartsWatching (s : System keyMax) (seed : Step) (o : EnsureOutcome) : Prop where
  inactive : s.input.watch.active = false
  outcome : seed.outcome = some o
  ok : (s.step seed).2.ensured = some .ok

/-! ## After the start -/

/-- No hook is installed, and the watcher polls if `poll`. -/
structure Unhooked (poll : Bool) (s : System keyMax) : Prop where
  wm : s.input.wm = true
  active : s.input.watch.active = true
  polls : s.input.watch.poll = poll
  windowHook : s.hooks.windowEventHook = false
  foregroundHook : s.hooks.foregroundEventHook = false

/-- The sink and the first hook are installed, the second if `foreground`, and the
process has its target; the watcher polls if `poll`. -/
structure Hooked (poll foreground : Bool) (s : System keyMax) : Prop where
  wm : s.input.wm = true
  active : s.input.watch.active = true
  polls : s.input.watch.poll = poll
  hooks : s.hooks = ⟨some .targetWindowSink, true, foreground⟩
  target : s.process.processWm.isSome = true

section Steps

variable {s : System keyMax} {poll foreground : Bool}

theorem wmProcess_kept (p : Process) (targetInit : Bool) (h : p.processWm.isSome = true) :
    wmProcess p targetInit = (p, p.processWm) := by
  unfold wmProcess
  split
  · next hp => rw [hp]
  · next hp => rw [hp] at h; cases h

/-- Once watching, only a teardown touches the hooks. -/
theorem step_hooks (hactive : s.input.watch.active = true) {st : Step} (hst : st ≠ .processFini) :
    (s.step st).1.hooks = s.hooks := by
  cases st with
  | setDefault ti wmInit groupOk o =>
    show (wmSetDefault s ti wmInit groupOk o).2.hooks = s.hooks
    rw [wmSetDefault, wmWindowWatchEnsure_active (by rw [← hactive, inputEnsure_watch])]
  | ensure o =>
    show (wmWindowWatchEnsure s o).2.hooks = s.hooks
    rw [wmWindowWatchEnsure_active hactive]
  | processFini => exact absurd rfl hst
  -- the other steps have no access to the hooks
  | _ => rfl

/-- Once watching, a target that the process has stays until a teardown. -/
theorem step_target (hactive : s.input.watch.active = true)
    (htarget : s.process.processWm.isSome = true) {st : Step} (hst : st ≠ .processFini) :
    (s.step st).1.process.processWm.isSome = true := by
  cases st with
  | setDefault ti wmInit groupOk o =>
    show (wmSetDefault s ti wmInit groupOk o).2.process.processWm.isSome = true
    rw [wmSetDefault, wmWindowWatchEnsure_active (by rw [← hactive, inputEnsure_watch])]
    exact htarget
  | ensure o =>
    show (wmWindowWatchEnsure s o).2.process.processWm.isSome = true
    rw [wmWindowWatchEnsure_active hactive]
    exact htarget
  | process targetInit =>
    show (wmProcess s.process targetInit).1.processWm.isSome = true
    rw [wmProcess_kept _ _ htarget]
    exact htarget
  | processFini => exact absurd rfl hst
  | _ => exact htarget

theorem step_flags_fields (hwm : s.input.wm = true) (hactive : s.input.watch.active = true)
    (st : Step) : (s.step st).1.input.wm = true ∧ (s.step st).1.input.watch.active = true ∧
      (s.step st).1.input.watch.poll = s.input.watch.poll := by
  have hkept := flagsKept (watching_flags hwm hactive st)
  exact ⟨hkept.wm.trans hwm, hkept.active.trans hactive, hkept.poll⟩

theorem winDestroy_unhooked (hooks : WinHooks) :
    (winDestroy hooks).windowEventHook = false ∧
      (winDestroy hooks).foregroundEventHook = false := by
  unfold winDestroy
  cases hooks.windowEventHook <;> simp

theorem Unhooked.step (hs : Unhooked poll s) (st : Step) : Unhooked poll (s.step st).1 := by
  obtain ⟨hwm, hactive, hpoll⟩ := step_flags_fields hs.wm hs.active st
  by_cases hst : st = .processFini
  · subst hst
    have hhooks : (s.step .processFini).1.hooks.windowEventHook = false ∧
        (s.step .processFini).1.hooks.foregroundEventHook = false := by
      show (wmProcessFini s).hooks.windowEventHook = false ∧
        (wmProcessFini s).hooks.foregroundEventHook = false
      -- without a process there is nothing to destroy, and no hook
      unfold wmProcessFini
      split
      · exact ⟨hs.windowHook, hs.foregroundHook⟩
      · next ti _ =>
        cases ti
        exact winDestroy_unhooked s.hooks
    exact ⟨hwm, hactive, hpoll.trans hs.polls, hhooks.1, hhooks.2⟩
  · have hhooks := step_hooks hs.active hst
    exact ⟨hwm, hactive, hpoll.trans hs.polls, hhooks ▸ hs.windowHook, hhooks ▸ hs.foregroundHook⟩

theorem Hooked.step (hs : Hooked poll foreground s) {st : Step} (hst : st ≠ .processFini) :
    Hooked poll foreground (s.step st).1 := by
  obtain ⟨hwm, hactive, hpoll⟩ := step_flags_fields hs.wm hs.active st
  exact ⟨hwm, hactive, hpoll.trans hs.polls, (step_hooks hs.active hst).trans hs.hooks,
    step_target hs.active hs.target hst⟩

/-- A teardown takes the hooks away and leaves the watcher's flags as they are. -/
theorem Hooked.fini (hs : Hooked poll foreground s) : Unhooked poll (s.step .processFini).1 := by
  obtain ⟨hwm, hactive, hpoll⟩ := step_flags_fields hs.wm hs.active .processFini
  obtain ⟨ti, hti⟩ := Option.isSome_iff_exists.mp hs.target
  have hhooks : (s.step .processFini).1.hooks = winDestroy s.hooks := by
    show (wmProcessFini s).hooks = _
    rw [wmProcessFini, hti]
    cases ti
    rfl
  have hunhooked := winDestroy_unhooked s.hooks
  exact ⟨hwm, hactive, hpoll.trans hs.polls, hhooks ▸ hunhooked.1, hhooks ▸ hunhooked.2⟩

/-- **Run lemmas.** -/
theorem Unhooked.run (hs : Unhooked poll s) (steps : List Step) :
    Unhooked poll (final System.step s steps) :=
  final_induction System.step (Unhooked poll) (fun _ => True) (fun _ st _ h => h.step st) hs
    fun _ _ => trivial

theorem Hooked.run (hs : Hooked poll foreground s) {steps : List Step}
    (hSteps : Step.processFini ∉ steps) : Hooked poll foreground (final System.step s steps) :=
  final_induction System.step (Hooked poll foreground) (· ≠ .processFini)
    (fun _ _ hst h => h.step hst) hs fun _ hst hfini => hSteps (hfini ▸ hst)

theorem Hooked.run_fini (hs : Hooked poll foreground s) {steps : List Step}
    (hSteps : Step.processFini ∈ steps) : Unhooked poll (final System.step s steps) := by
  induction steps generalizing s with
  | nil => simp at hSteps
  | cons st steps ih =>
    by_cases hst : st = .processFini
    · subst hst
      exact hs.fini.run steps
    -- before the teardown the hooks stay
    · exact ih (hs.step hst) ((List.mem_cons.mp hSteps).resolve_left (Ne.symm hst))

/-! ## What the property then is -/

theorem Unhooked.oneWay_iff (hs : Unhooked poll s) : OneWay s ↔ poll = true := by
  unfold OneWay WinHooks.Delivers
  rw [hs.windowHook, hs.foregroundHook, hs.polls]
  constructor
  -- the second way needs hooks, and there are none
  · rintro (⟨hpoll, -⟩ | ⟨-, hhooks⟩)
    · exact hpoll
    · have := hs.windowHook
      simp [hhooks] at this
  · exact fun hpoll => Or.inl ⟨hpoll, by simp⟩

theorem Hooked.oneWay_iff (hs : Hooked poll foreground s) :
    OneWay s ↔ poll = false ∧ foreground = true := by
  unfold OneWay WinHooks.Delivers
  rw [hs.hooks, hs.polls]
  cases poll <;> cases foreground <;> simp

end Steps

/-! ## How watching starts -/

section Start

variable {s : System keyMax}

/-- Neither hook is installed. -/
def WinHooks.Free (hooks : WinHooks) : Prop :=
  hooks.windowEventHook = false ∧ hooks.foregroundEventHook = false

theorem wmProcess_some {p : Process} {targetInit : Bool} {ti : TargetInterface}
    (h : (wmProcess p targetInit).2 = some ti) :
    (wmProcess p targetInit).1.processWm = some ti := by
  unfold wmProcess at h ⊢
  split
  · next hp => simp_all
  · next hp =>
    split
    · next hd => simp [hp, hd] at h
    · next hd =>
      simp only [hp, hd] at h
      split <;> simp_all

/-- What the target leaves when it is asked with no hook installed. -/
theorem askTarget_spec {hooks : WinHooks} (hfree : hooks.Free) (p : Process)
    (o : EnsureOutcome) :
    let answer := askTarget (wmProcess p o.targetInit).2 hooks o.windowHook o.foregroundHook
    match hooksGranted p o with
    | .none => answer.1 = false ∧ answer.2.Free
    | .windowOnly => answer = (false, ⟨some .targetWindowSink, true, false⟩)
    | .both => answer = (true, ⟨some .targetWindowSink, true, true⟩) := by
  obtain ⟨sink, windowHook, foregroundHook⟩ := hooks
  obtain ⟨rfl, rfl⟩ : windowHook = false ∧ foregroundHook = false := hfree
  unfold hooksGranted askTarget
  cases (wmProcess p o.targetInit).2 with
  | none => exact ⟨rfl, rfl, rfl⟩
  | some ti =>
    cases ti
    -- the hooks are asked for one after the other, and the first is not given back
    cases o.windowHook <;> cases o.foregroundHook <;>
      simp [TargetInterface.capabilities, wmTargetCapWindowEvents,
        TargetInterface.onWindowChanged, winOnWindowChanged, WinHooks.Free]

/-- How a run stands right after watching has started. -/
def Stands (granted : HooksGranted) (s : System keyMax) : Prop :=
  match granted with
  | .none => Unhooked true s
  | .windowOnly => Hooked true false s
  | .both => Hooked false true s

theorem ensure_stands {o : EnsureOutcome} (hinactive : s.input.watch.active = false)
    (hidle : s.input.watch.poll = false) (hfree : s.hooks.Free)
    (hok : (wmWindowWatchEnsure s o).1 = .ok) :
    Stands (hooksGranted s.process o) (wmWindowWatchEnsure s o).2 := by
  have hinput : (wmInputEnsure s.input o.wmInit o.groupOk).1 = .ok := by
    by_contra hfailed
    rw [wmWindowWatchEnsure_failed hinactive hfailed] at hok
    exact hfailed hok
  have hkept := flagsKept (pollWindows_flags false o.visits
    (wmInputEnsure s.input o.wmInit o.groupOk).2.activate)
  have hwm := hkept.wm.trans (inputEnsure_wm hinput)
  have hactive : (pollWindows false o.visits
      (wmInputEnsure s.input o.wmInit o.groupOk).2.activate).watch.active = true := hkept.active
  have hpoll := hkept.poll.trans
    ((congrArg Watch.poll (inputEnsure_watch s.input o.wmInit o.groupOk)).trans hidle)
  -- what the target answers settles `poll` and the hooks
  have hask := askTarget_spec hfree s.process o
  rw [wmWindowWatchEnsure_fresh hinactive hinput]
  unfold Stands
  -- a hook is granted only by a target, and then the process keeps it
  have htarget : hooksGranted s.process o ≠ .none →
      (wmProcess s.process o.targetInit).1.processWm.isSome = true := by
    intro hgranted
    cases hti : (wmProcess s.process o.targetInit).2 with
    | none => simp [hooksGranted, hti] at hgranted
    | some ti => rw [wmProcess_some hti]; rfl
  cases hgranted : hooksGranted s.process o with
  | none =>
    simp only [hgranted] at hask
    exact ⟨by simpa [hask.1, Input.pollUnless] using hwm,
      by simpa [hask.1, Input.pollUnless] using hactive,
      by simp [hask.1, Input.pollUnless], hask.2.1, hask.2.2⟩
  -- refused the second hook, `win_on_window_changed` fails and leaves the first
  | windowOnly =>
    simp only [hgranted] at hask
    exact ⟨by simpa [hask, Input.pollUnless] using hwm,
      by simpa [hask, Input.pollUnless] using hactive,
      by simp [hask, Input.pollUnless], by rw [hask], htarget (by simp [hgranted])⟩
  | both =>
    simp only [hgranted] at hask
    exact ⟨by simpa [hask, Input.pollUnless] using hwm,
      by simpa [hask, Input.pollUnless] using hactive,
      by simpa [hask, Input.pollUnless] using hpoll, by rw [hask], htarget (by simp [hgranted])⟩

/-- Before watching nothing polls and no hook is installed. -/
structure Idle (s : System keyMax) : Prop where
  idle : s.input.watch.poll = false
  free : s.hooks.Free

theorem Idle.fini (hs : Idle s) : Idle (wmProcessFini s) := by
  unfold wmProcessFini
  split
  · exact hs
  · next ti _ =>
    cases ti
    exact ⟨hs.idle, winDestroy_unhooked s.hooks⟩

/-- A call of `wm_window_watch_ensure` that does not leave the watcher active touches
neither. -/
theorem Idle.ensure (hs : Idle s) {o : EnsureOutcome}
    (h : (wmWindowWatchEnsure s o).2.input.watch.active = false) :
    Idle (wmWindowWatchEnsure s o).2 := by
  rcases ensure_watch s o with hactive | hwatch
  · exact absurd (h.symm.trans hactive) (by decide)
  · have hinactive : s.input.watch.active = false := by rw [← hwatch]; exact h
    refine ⟨by rw [hwatch]; exact hs.idle, ?_⟩
    have hinput : (wmInputEnsure s.input o.wmInit o.groupOk).1 ≠ .ok := by
      intro hinput
      rw [wmWindowWatchEnsure_fresh hinactive hinput, seeded_active] at h
      cases h
    rw [wmWindowWatchEnsure_failed hinactive hinput]
    exact hs.free

theorem idle_step {st : Step} (hs : s.input.watch.active = false → Idle s) :
    (s.step st).1.input.watch.active = false → Idle (s.step st).1 := by
  intro h
  have hidle := hs (step_inactive h)
  have hsame : (s.step st).1.input.flags = s.input.flags →
      (s.step st).1.hooks = s.hooks → Idle (s.step st).1 := by
    intro hflags hhooks
    have hpoll : (s.step st).1.input.watch.poll = s.input.watch.poll :=
      congrArg (·.2.2.2) hflags
    exact ⟨hpoll.trans hidle.idle, hhooks ▸ hidle.free⟩
  cases st with
  | setDefault ti wmInit groupOk o =>
    have hready : Idle { s with
        process := { s.process with defaultTi := ti }
        input := (wmInputEnsure s.input wmInit groupOk).2 } :=
      ⟨by rw [inputEnsure_watch]; exact hidle.idle, hidle.free⟩
    exact hready.ensure h
  | process targetInit => exact ⟨hidle.idle, hidle.free⟩
  | processFini => exact hidle.fini
  | ensure o => exact hidle.ensure h
  | _ => exact hsame (step_flags rfl) rfl

theorem idle_run (before : List Step)
    (h : (final System.step (System.init keyMax) before).input.watch.active = false) :
    Idle (final System.step (System.init keyMax) before) :=
  final_induction System.step (fun s => s.input.watch.active = false → Idle s) (fun _ => True)
    (fun _ _ _ hs => idle_step hs) (fun _ => ⟨rfl, rfl, rfl⟩) (fun _ _ => trivial) h

theorem StartsWatching.stands {seed : Step} {o : EnsureOutcome} (hs : StartsWatching s seed o)
    (hidle : Idle s) : Stands (hooksGranted (seed.processAt s.process) o) (s.step seed).1 := by
  obtain ⟨hinactive, houtcome, hok⟩ := hs
  cases seed with
  | setDefault ti wmInit groupOk o' =>
    cases houtcome
    have hwatch := inputEnsure_watch s.input wmInit groupOk
    exact ensure_stands (s := { s with
        process := { s.process with defaultTi := ti }
        input := (wmInputEnsure s.input wmInit groupOk).2 })
      (hwatch ▸ hinactive) (hwatch ▸ hidle.idle) hidle.free (Option.some.inj hok)
  | ensure o' =>
    cases houtcome
    exact ensure_stands hinactive hidle.idle hidle.free (Option.some.inj hok)
  | _ => cases houtcome

/-- A step that leaves the watcher active started it, if it was not active before. -/
theorem startsWatching_of_active {st : Step} (hinactive : s.input.watch.active = false)
    (h : (s.step st).1.input.watch.active = true) : ∃ o, StartsWatching s st o := by
  have hsame : (s.step st).1.input.flags = s.input.flags → False := by
    intro hflags
    have hactive : (s.step st).1.input.watch.active = s.input.watch.active :=
      congrArg (·.2.2.1) hflags
    rw [hactive, hinactive] at h
    cases h
  cases st with
  | setDefault ti wmInit groupOk o =>
    exact ⟨o, hinactive, rfl, congrArg some ((ensure_ok_iff ..).mpr h)⟩
  | ensure o => exact ⟨o, hinactive, rfl, congrArg some ((ensure_ok_iff ..).mpr h)⟩
  | _ => exact (hsame (step_flags rfl)).elim

/-- A run that leaves the watcher active has a step that started it. -/
theorem run_starts {steps : List Step} (hinactive : s.input.watch.active = false)
    (h : (final System.step s steps).input.watch.active = true) :
    ∃ before seed after o, steps = before ++ seed :: after ∧
      StartsWatching (final System.step s before) seed o := by
  induction steps generalizing s with
  | nil =>
    rw [final_nil, hinactive] at h
    cases h
  -- the start is the first step after which the watcher is active
  | cons st steps ih =>
    cases hnext : (s.step st).1.input.watch.active with
    | true =>
      obtain ⟨o, ho⟩ := startsWatching_of_active hinactive hnext
      exact ⟨[], st, steps, o, rfl, ho⟩
    | false =>
      obtain ⟨before, seed, after, o, rfl, ho⟩ := ih hnext h
      exact ⟨st :: before, seed, after, o, rfl, ho⟩

theorem ensured_active {st : Step} (hok : (s.step st).2.ensured = some .ok) :
    (s.step st).1.input.watch.active = true := by
  cases st with
  | setDefault ti wmInit groupOk o => exact (ensure_ok_iff ..).mp (Option.some.inj hok)
  | ensure o => exact (ensure_ok_iff ..).mp (Option.some.inj hok)
  | _ => cases hok

end Start

/-! ## Whole runs -/

/-- What has to be done after the start: a teardown of the process if only the first
hook was granted, none if both were. -/
def HooksGranted.Asks (granted : HooksGranted) (after : List Step) : Prop :=
  match granted with
  | .none => True
  | .windowOnly => .processFini ∈ after
  | .both => .processFini ∉ after

/-- What followed the start of watching is what the hooks granted then ask for. -/
def StandsWell (keyMax : Nat) (steps : List Step) : Prop :=
  ∃ before seed after o, steps = before ++ seed :: after ∧
    StartsWatching (final System.step (System.init keyMax) before) seed o ∧
    (hooksGranted (seed.processAt (final System.step (System.init keyMax) before).process)
      o).Asks after

theorem Stands.oneWay_iff {granted : HooksGranted} {s : System keyMax} (hs : Stands granted s)
    (after : List Step) :
    OneWay (final System.step s after) ↔ granted.Asks after := by
  cases granted with
  | none => exact iff_of_true ((Unhooked.run hs after).oneWay_iff.mpr rfl) trivial
  | windowOnly =>
    by_cases hfini : Step.processFini ∈ after
    · exact iff_of_true ((Hooked.run_fini hs hfini).oneWay_iff.mpr rfl) hfini
    · exact iff_of_false (fun h => absurd ((Hooked.run hs hfini).oneWay_iff.mp h).1 (by decide))
        hfini
  | both =>
    by_cases hfini : Step.processFini ∈ after
    · exact iff_of_false
        (fun h => absurd ((Hooked.run_fini hs hfini).oneWay_iff.mp h) (by decide))
        (fun h => h hfini)
    · exact iff_of_true ((Hooked.run hs hfini).oneWay_iff.mpr ⟨rfl, rfl⟩) hfini

/-- **One way of learning.** After a `wm_window_watch_ensure` that returns OK, in any
run, exactly one way of learning about windows is in force if and only if the run stands
well. -/
theorem one_way_iff {past : List Step} {st : Step}
    (hOk : ((final System.step (System.init keyMax) past).step st).2.ensured = some .ok) :
    OneWay (final System.step (System.init keyMax) (past ++ [st])) ↔
      StandsWell keyMax (past ++ [st]) := by
  have hsplit : ∀ before seed after o, past ++ [st] = before ++ seed :: after →
      StartsWatching (final System.step (System.init keyMax) before) seed o →
      (OneWay (final System.step (System.init keyMax) (past ++ [st])) ↔
        (hooksGranted (seed.processAt
          (final System.step (System.init keyMax) before).process) o).Asks after) := by
    intro before seed after o hsteps hstarts
    rw [hsteps, final_append, final_cons]
    exact (hstarts.stands (idle_run before hstarts.inactive)).oneWay_iff after
  constructor
  · intro hOneWay
    have hactive : (final System.step (System.init keyMax) (past ++ [st])).input.watch.active =
        true := by
      rw [final_append]
      exact ensured_active hOk
    obtain ⟨before, seed, after, o, hsteps, hstarts⟩ := run_starts rfl hactive
    exact ⟨before, seed, after, o, hsteps, hstarts,
      (hsplit before seed after o hsteps hstarts).mp hOneWay⟩
  · rintro ⟨before, seed, after, o, hsteps, hstarts, hwell⟩
    exact (hsplit before seed after o hsteps hstarts).mpr hwell

/-- The target grants the first hook and refuses the second. -/
def halfHooked : Step :=
  .setDefault (some .windows) true true ⟨true, true, [], true, true, false⟩

/-- The target grants both hooks. -/
def fullyHooked : Step :=
  .setDefault (some .windows) true true ⟨true, true, [], true, true, true⟩

theorem one_way_iff_fullyHooked :
    OneWay (final System.step (System.init 128) ([] ++ [fullyHooked])) ↔
      StandsWell 128 ([] ++ [fullyHooked]) :=
  one_way_iff rfl

/-- With the second hook refused the call returns OK, the watcher polls and the first
hook delivers; after both were granted and the process was torn down, another call
returns OK with nothing in force. -/
theorem two_ways_or_none :
    (((System.init 128).step halfHooked).2.ensured = some .ok ∧
      ¬ OneWay (final System.step (System.init 128) [halfHooked])) ∧
    (((final System.step (System.init 128) [fullyHooked, .processFini]).step
        (.ensure ⟨true, true, [], true, true, true⟩)).2.ensured = some .ok ∧
      ¬ OneWay (final System.step (System.init 128)
        [fullyHooked, .processFini, .ensure ⟨true, true, [], true, true, true⟩])) := by
  refine ⟨⟨rfl, ?_⟩, rfl, ?_⟩
  · rintro (⟨-, hsilent⟩ | ⟨hpoll, -⟩)
    · exact hsilent ⟨rfl, Or.inl rfl⟩
    · cases hpoll
  · rintro (⟨hpoll, -⟩ | ⟨-, hhooks⟩)
    · cases hpoll
    · cases hhooks

end Uniwm
