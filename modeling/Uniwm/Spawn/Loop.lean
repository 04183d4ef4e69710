import Uniwm.Model.Worker
import Uniwm.Windows.Latency

/-!
# uniwm — what a worker waits for

After its script a worker either loops for ever or ends; `wm_should_run` decides, and it looks
at two flags only. `Waits` says what hangs on them, in every state of a worker:

* if one is set, there is an input to poll;
* without `input_wm.loop` no key is suppressed or bound;
* without `watch.active` nothing polls and no hook is installed;
* a hook is installed only while the process has its target.

`run_worker_ends` follows: the loop never finds its input missing, a worker that ends with
status 0 leaves nothing that it could have waited for, and one that ends takes its hooks away.
-/

namespace Uniwm

open Base

variable {keyMax : Nat}

-- ----------------------------------------------------------------------------
-- The keyboard
-- ----------------------------------------------------------------------------

/-- No key is suppressed or bound. -/
structure Unkeyed (s : Input keyMax) : Prop where
  suppress : s.suppress.combos.count = 0
  keybind : s.keybind.table.binds.count = 0

theorem keys_framed : FramedStart (fun s : Input keyMax => (s.suppress, s.keybind)) where
  setList := by intros; rfl
  unref := by intros; rfl
  push := by intros; rfl
  input := by intros; rfl
  watch := by intros; rfl
  count := by intros; rfl

section Keyboard

variable {s s' : Input keyMax}

theorem Unkeyed.frame (hs : Unkeyed s)
    (h : (s'.suppress, s'.keybind) = (s.suppress, s.keybind)) : Unkeyed s' := by
  obtain ⟨hsuppress, hkeybind⟩ := Prod.mk.inj h
  exact ⟨by rw [hsuppress]; exact hs.suppress, by rw [hkeybind]; exact hs.keybind⟩

theorem fireFrom_empty {t : KeybindTable} (ht : t.binds.count = 0) (cbs : Callbacks)
    (key : MCKey) (best : Nat) (down : Vector Bool keyMax) (fuel i : Nat) (ran : List Keybind) :
    fireFrom cbs key best down fuel i t ran = (t, []) := by
  cases fuel with
  | zero => rfl
  | succ fuel =>
    have hnone : t.binds.get? i = none := by
      rw [Slots.get?, dif_neg (by omega)]
    rw [fireFrom, hnone]

/-- A key event finds no binding to run. -/
theorem processKeybinds_empty {kb : Keybinds keyMax} (hkb : kb.table.binds.count = 0)
    (cbs : Callbacks) (event : WMEvent) :
    (processKeybinds cbs kb event).1.table.binds.count = 0 := by
  have hkey : ∀ key down, (processKey cbs kb key down).1.table.binds.count = 0 := by
    intro key down
    simp only [processKey]
    split
    · exact hkb
    · rw [fireFrom_empty hkb]
      exact hkb
  cases event with
  | globalKeyDown key => exact hkey key true
  | globalKeyUp key => exact hkey key false
  | _ => exact hkb

theorem Unkeyed.handle (hs : Unkeyed s) (cbs : Callbacks) : Unkeyed (handleEvent cbs s) := by
  unfold handleEvent
  split
  · exact hs
  · next event queue _ =>
    have hpop : Unkeyed
        { s with queue := queue, keybind := (processKeybinds cbs s.keybind event).1 } :=
      ⟨hs.suppress, processKeybinds_empty hs.keybind cbs event⟩
    exact hpop.frame (keys_framed.release _ event)

theorem Unkeyed.step {s : System keyMax} (hs : Unkeyed s.input) (st : Step) :
    Unkeyed (s.step st).1.input := by
  cases st with
  | notify hwnd change resolved grown =>
    exact hs.frame (keys_framed.sink (fun _ _ _ => rfl) ..)
  | handle cbs => exact hs.handle cbs
  | key k down => exact ⟨hs.suppress, hs.keybind⟩
  | _ => exact hs.frame (keys_framed.step s trivial)

theorem unsuppress_empty (hs : Unkeyed s) (combo : KeyCombo) :
    (wmUnsuppressKey s.suppress combo).2 = s.suppress := by
  rw [wmUnsuppressKey, hs.suppress]
  rfl

theorem unbind_empty (hs : Unkeyed s) (combo : KeyCombo) :
    (wmUnbindKey s.keybind.table combo).2.2.binds.count = 0 := by
  have hnone : s.keybind.table.slotOf combo = none := by
    cases hslot : s.keybind.table.slotOf combo with
    | none => rfl
    | some j =>
      have hlt := KeybindTable.slotOf_lt hslot
      rw [hs.keybind] at hlt
      exact absurd hlt (Nat.not_lt_zero j)
  unfold wmUnbindKey
  split
  · exact hs.keybind
  · next h => exact absurd (h.symm.trans hnone) (Option.some_ne_none _)

end Keyboard

-- ----------------------------------------------------------------------------
-- The flags
-- ----------------------------------------------------------------------------

/-- A hook is installed. -/
def WinHooks.Installed (hooks : WinHooks) : Prop :=
  hooks.windowEventHook = true ∨ hooks.foregroundEventHook = true

theorem WinHooks.Free.not_installed {hooks : WinHooks} (h : hooks.Free) : ¬ hooks.Installed := by
  rintro (hhook | hhook)
  · exact Bool.false_ne_true (h.1.symm.trans hhook)
  · exact Bool.false_ne_true (h.2.symm.trans hhook)

/-- What hangs on the two flags of a worker. -/
structure Waits (w : WorkerState keyMax) : Prop where
  wm : wmShouldRun w = true → w.system.input.wm = true
  keys : w.loop = false → Unkeyed w.system.input
  idle : w.system.input.watch.active = false → Idle w.system
  target : w.system.hooks.Installed → w.system.process.processWm.isSome = true

section Flags

variable {s : System keyMax} {w : WorkerState keyMax}

theorem ensure_keeps_wm (hwm : s.input.wm = true) (o : EnsureOutcome) :
    (wmWindowWatchEnsure s o).2.input.wm = true := by
  have hensures := ensures s o
  generalize (wmWindowWatchEnsure s o).2.input = s' at hensures ⊢
  cases hensures with
  | watching => exact hwm
  | failed =>
    rw [inputEnsure_set hwm]
    exact hwm
  | seeded hok reactive =>
    have hkept := flagsKept (pollWindows_flags false o.visits
      (wmInputEnsure s.input o.wmInit o.groupOk).2.activate)
    rw [pollUnless_wm, hkept.wm]
    exact inputEnsure_wm hok

/-- The input is set up once. -/
theorem step_wm (hwm : s.input.wm = true) (st : Step) : (s.step st).1.input.wm = true := by
  by_cases houtcome : st.outcome = none
  · exact (flagsKept (step_flags (s := s) houtcome)).wm.trans hwm
  · cases st with
    | setDefault ti wmInit groupOk o =>
      refine ensure_keeps_wm ?_ o
      show (wmInputEnsure s.input wmInit groupOk).2.wm = true
      rw [inputEnsure_set hwm]
      exact hwm
    | ensure o => exact ensure_keeps_wm hwm o
    | _ => exact absurd rfl houtcome

/-- A target that was asked for its hooks stays with the process. -/
theorem Stands.target {granted : HooksGranted} (hs : Stands granted s)
    (hhooks : s.hooks.Installed) : s.process.processWm.isSome = true := by
  cases granted with
  | none => exact absurd hhooks (WinHooks.Free.not_installed ⟨hs.windowHook, hs.foregroundHook⟩)
  | windowOnly => exact Hooked.target hs
  | both => exact Hooked.target hs

theorem fini_hooks (hs : s.hooks.Installed → s.process.processWm.isSome = true) :
    (wmProcessFini s).hooks.Free := by
  unfold wmProcessFini
  split
  · next hnone =>
    have hnot : ¬ s.hooks.Installed := fun h => by simp [hnone] at hs; exact hs h
    unfold WinHooks.Installed at hnot
    rw [not_or, Bool.not_eq_true, Bool.not_eq_true] at hnot
    exact hnot
  · next ti _ =>
    cases ti
    exact winDestroy_unhooked s.hooks

theorem Waits.step_target (hw : Waits w) (st : Step)
    (hhooks : (w.system.step st).1.hooks.Installed) :
    (w.system.step st).1.process.processWm.isSome = true := by
  cases hactive : w.system.input.watch.active with
  | true =>
    by_cases hst : st = .processFini
    · subst hst
      exact absurd hhooks (fini_hooks hw.target).not_installed
    · rw [step_hooks hactive hst] at hhooks
      exact Uniwm.step_target hactive (hw.target hhooks) hst
  | false =>
    have hidle := hw.idle hactive
    cases hnow : (w.system.step st).1.input.watch.active with
    | true =>
      obtain ⟨o, ho⟩ := startsWatching_of_active hactive hnow
      exact (ho.stands hidle).target hhooks
    | false =>
      have hfree := (idle_step (fun _ => hidle) hnow).free
      exact absurd hhooks hfree.not_installed

/-- A step of the system. -/
theorem Waits.system (hw : Waits w) (st : Step) :
    Waits ⟨(w.system.step st).1, w.loop⟩ where
  wm hrun := by
    by_cases hwm : w.system.input.wm = true
    · exact step_wm hwm st
    · have hnot : w.loop = false ∧ w.system.input.watch.active = false := by
        rw [← Bool.or_eq_false_iff, ← Bool.not_eq_true]
        exact fun h => hwm (hw.wm h)
      refine step_active_wm (fun h => absurd (hnot.2.symm.trans h) Bool.false_ne_true) ?_
      simpa [wmShouldRun, hnot.1] using hrun
  keys hloop := (hw.keys hloop).step st
  idle hactive := idle_step hw.idle hactive
  target := hw.step_target st

/-- A step that touches the keyboard only. -/
theorem Waits.input (hw : Waits w) {s : Input keyMax} {loop : Bool}
    (hwatch : s.watch = w.system.input.watch)
    (hwm : w.system.input.wm = true ∨ loop = true → s.wm = true)
    (hkeys : loop = false → Unkeyed s) : Waits ⟨{ w.system with input := s }, loop⟩ where
  wm hrun := by
    rw [wmShouldRun, hwatch, Bool.or_eq_true] at hrun
    rcases hrun with hloop | hactive
    · exact hwm (Or.inr hloop)
    · exact hwm (Or.inl (hw.wm (by rw [wmShouldRun, hactive, Bool.or_true])))
  keys := hkeys
  idle hactive := by
    have hidle := hw.idle (hwatch ▸ hactive)
    exact ⟨by rw [hwatch]; exact hidle.idle, hidle.free⟩
  target := hw.target

/-- A call that asks for the keyboard first, and does nothing without it. -/
theorem Waits.enable (hw : Waits w) {wmInit groupOk : Bool} {s : Input keyMax} {asks : Bool}
    (hwatch : s.watch = w.system.input.watch)
    (hset : s.wm = (wmInputEnsure w.system.input wmInit groupOk).2.wm)
    (hkeys : Unkeyed w.system.input →
      (asks && decide ((wmInputEnsure w.system.input wmInit groupOk).1 = .ok)) = false →
        Unkeyed s) :
    Waits ⟨{ w.system with input := s },
      w.loop || (asks && decide ((wmInputEnsure w.system.input wmInit groupOk).1 = .ok))⟩ := by
  have hkept : w.system.input.wm = true → s.wm = true := by
    intro hwm
    rw [hset, inputEnsure_set hwm]
    exact hwm
  refine hw.input hwatch ?_ fun hloop => ?_
  · rintro (hwm | hloop)
    · exact hkept hwm
    · rw [Bool.or_eq_true, Bool.and_eq_true, decide_eq_true_eq] at hloop
      rcases hloop with hloop | ⟨-, hok⟩
      · exact hkept (hw.wm (by rw [wmShouldRun, hloop, Bool.true_or]))
      · exact hset.trans (inputEnsure_wm hok)
  · rw [Bool.or_eq_false_iff] at hloop
    exact hkeys (hw.keys hloop.1) hloop.2

/-- **Step lemma.** One case for each entry of a script or of the system. -/
theorem Waits.step (hw : Waits w) (c : ScriptStep) : Waits (w.step c).1 := by
  have hensured : ∀ wmInit groupOk, Unkeyed w.system.input →
      Unkeyed (wmInputEnsure w.system.input wmInit groupOk).2 :=
    fun _ _ hkeys => hkeys.frame (keys_framed.inputEnsure ..)
  cases c with
  | system st =>
    show Waits ⟨(w.system.step st).1, w.loop || false⟩
    rw [Bool.or_false]
    exact hw.system st
  | suppressKey combo wmInit groupOk =>
    refine @Waits.enable _ _ hw wmInit groupOk _ true (inputEnsure_watch ..) rfl ?_
    intro hkeys hfailed
    rw [Bool.true_and, decide_eq_false_iff_not] at hfailed
    have hnot : (enableKeyboard w.system.input wmInit groupOk).1 ≠ .ok := hfailed
    have hrefused : (wmSuppressKey (enableKeyboard w.system.input wmInit groupOk).2.suppress combo
        (enableKeyboard w.system.input wmInit groupOk).1).2 =
          (enableKeyboard w.system.input wmInit groupOk).2.suppress := by
      rw [wmSuppressKey, if_pos hnot]
    refine ⟨?_, (hensured wmInit groupOk hkeys).keybind⟩
    show (wmSuppressKey _ _ _).2.combos.count = 0
    rw [hrefused]
    exact (hensured wmInit groupOk hkeys).suppress
  | unsuppressKey combo =>
    show Waits ⟨{ w.system with input := { w.system.input with
      suppress := (wmUnsuppressKey w.system.input.suppress combo).2 } }, w.loop || false⟩
    rw [Bool.or_false]
    refine hw.input rfl ?_ fun hloop => ?_
    · rintro (hwm | hloop)
      · exact hwm
      · exact hw.wm (by rw [wmShouldRun, hloop, Bool.true_or])
    · have hkeys := hw.keys hloop
      rw [unsuppress_empty hkeys]
      exact hkeys
  | bindKey combo cb ctx wmInit groupOk =>
    refine @Waits.enable _ _ hw wmInit groupOk _ (cb ≠ 0) (inputEnsure_watch ..) rfl ?_
    intro hkeys hfailed
    have hrefused : (wmBindKey (enableKeyboard w.system.input wmInit groupOk).2.keybind.table combo
        cb ctx (enableKeyboard w.system.input wmInit groupOk).1).2 =
          (enableKeyboard w.system.input wmInit groupOk).2.keybind.table := by
      rw [wmBindKey]
      by_cases hcb : cb = 0
      · rw [if_pos hcb]
      · have hnot : (enableKeyboard w.system.input wmInit groupOk).1 ≠ .ok := by
          rw [decide_eq_true hcb, Bool.true_and, decide_eq_false_iff_not] at hfailed
          exact hfailed
        rw [if_neg hcb, if_pos hnot]
    refine ⟨(hensured wmInit groupOk hkeys).suppress, ?_⟩
    show (wmBindKey _ _ _ _ _).2.binds.count = 0
    rw [hrefused]
    exact (hensured wmInit groupOk hkeys).keybind
  | unbindKey combo =>
    show Waits ⟨{ w.system with input := w.system.input.unbindKey combo }, w.loop || false⟩
    rw [Bool.or_false]
    refine hw.input rfl ?_ fun hloop => ?_
    · rintro (hwm | hloop)
      · exact hwm
      · exact hw.wm (by rw [wmShouldRun, hloop, Bool.true_or])
    · have hkeys := hw.keys hloop
      exact ⟨hkeys.suppress, unbind_empty hkeys combo⟩

/-- What a worker waits for it waits for ever. -/
theorem step_shouldRun (hrun : wmShouldRun w = true) (c : ScriptStep) :
    wmShouldRun (w.step c).1 = true := by
  rw [wmShouldRun, Bool.or_eq_true] at hrun ⊢
  rcases hrun with hloop | hactive
  · exact Or.inl (by rw [WorkerState.step, hloop, Bool.true_or])
  · refine Or.inr ?_
    cases c with
    | system st =>
      by_contra hnot
      have hinactive := step_inactive (s := w.system) ((Bool.not_eq_true _).mp hnot)
      exact absurd (hinactive.symm.trans hactive) Bool.false_ne_true
    | suppressKey combo wmInit groupOk =>
      exact (congrArg Watch.active (inputEnsure_watch w.system.input wmInit groupOk)).trans hactive
    | bindKey combo cb ctx wmInit groupOk =>
      exact (congrArg Watch.active (inputEnsure_watch w.system.input wmInit groupOk)).trans hactive
    | _ => exact hactive

theorem Waits.init : Waits (⟨System.init keyMax, false⟩ : WorkerState keyMax) where
  wm h := absurd h Bool.false_ne_true
  keys _ := ⟨rfl, rfl⟩
  idle _ := ⟨rfl, rfl, rfl⟩
  target h := absurd h (WinHooks.Free.not_installed ⟨rfl, rfl⟩)

theorem Waits.run (hw : Waits w) (cs : List ScriptStep) : Waits (final WorkerState.step w cs) :=
  final_induction WorkerState.step Waits (fun _ => True) (fun _ c _ h => h.step c) hw
    (fun _ _ => trivial)

end Flags

-- ----------------------------------------------------------------------------
-- The end of run_worker
-- ----------------------------------------------------------------------------

/-- **Loop or end.** Whatever the start-up, the script and the calls in them give: if
`run_worker` enters its loop, there is an input to poll, and something to wait for, in every
state that events and callbacks lead to. If it returns, and Lua was there, no hook is left; and
if it returns 0, no key was suppressed or bound and no window was watched. -/
theorem run_worker_ends (keyMax : Nat) (o : WorkerOutcome) :
    match runWorker keyMax o with
    | (w, .loops) => ∀ cs : List ScriptStep,
        wmShouldRun (final WorkerState.step w cs) = true ∧
          (final WorkerState.step w cs).system.input.wm = true
    | (w, .returns status) => (o.lua = true → w.system.hooks.Free) ∧
        (status = 0 → Unkeyed w.system.input ∧ w.system.input.watch.active = false) := by
  have hstart : Waits (⟨(wmSetDefault (System.init keyMax) (some .windows) o.wmInit o.groupOk
      o.ensure).2, false⟩ : WorkerState keyMax) :=
    Waits.init.system (.setDefault (some .windows) o.wmInit o.groupOk o.ensure)
  unfold runWorker
  cases hlua : o.lua with
  | false => exact ⟨fun h => absurd h Bool.false_ne_true, fun h => absurd h (by decide)⟩
  | true =>
    simp only [Bool.not_true, Bool.false_eq_true, if_false]
    generalize hend : final WorkerState.step _ o.script = w
    have hw : Waits w := hend ▸ hstart.run o.script
    by_cases hloops : (o.loaded && wmShouldRun w) = true
    · rw [if_pos hloops]
      rw [Bool.and_eq_true] at hloops
      intro cs
      have hrun : wmShouldRun (final WorkerState.step w cs) = true :=
        final_induction WorkerState.step (fun w => wmShouldRun w = true) (fun _ => True)
          (fun _ c _ h => step_shouldRun h c) hloops.2 (fun _ _ => trivial)
      exact ⟨hrun, (hw.run cs).wm hrun⟩
    · rw [if_neg hloops]
      refine ⟨fun _ => fini_hooks hw.target, fun hstatus => ?_⟩
      have hloaded : o.loaded = true := by
        by_contra hfailed
        rw [if_neg hfailed] at hstatus
        exact absurd hstatus (by decide)
      rw [hloaded, Bool.true_and, Bool.not_eq_true, wmShouldRun, Bool.or_eq_false_iff] at hloops
      have hinput : (wmProcessFini w.system).input = w.system.input := by
        unfold wmProcessFini
        split <;> rfl
      rw [hinput]
      exact ⟨hw.keys hloops.1, hloops.2⟩

end Uniwm
