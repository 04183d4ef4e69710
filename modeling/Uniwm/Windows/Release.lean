import Uniwm.Windows.Registry

/-!
# uniwm — releasing a destroyed window

When a window is destroyed, its registry entry is not dropped at once: a
`WINDOW_DESTROYED` event is queued, and the entry is to be released when the main
loop handles that event (`release_destroyed_window`). The identity travels in the
event's JSON payload.

The two sides disagree on where. The encoder writes it under `"window_id"` and puts
null under `"window"`; the decoder reads `"window"`, hence always `0`
(`windowEvent_id`, `windowEvent_window`). No window has identity `0`, so handling the
event changes neither the registry nor the references held (`handle_destroyed_idle`),
and the entry of a destroyed window is never released (`destroyed_released_iff`).
-/

namespace Uniwm

open Base

variable {keyMax : Nat}

/-- Reached from the start of the process by steps that bring in no zero identity. -/
def Reachable (s : System keyMax) : Prop :=
  ∃ steps : List Step, (∀ st ∈ steps, st.Admits (· ≠ 0)) ∧
    s = final System.step (System.init keyMax) steps

theorem Reachable.watchInv {s : System keyMax} (hs : Reachable s) :
    WatchInv (· ≠ 0) s.input := by
  obtain ⟨steps, hsteps, rfl⟩ := hs
  exact WatchInv.init.run hsteps

/-- Between `s` and `s'` the window `x` is released: its entry is gone, its reference
has been released once in all, and the other entries are as they were. -/
structure Releases (x : Identity) (s s' : Input keyMax) : Prop where
  gone : findWindow s'.watch.list x = none
  released_once : ∀ w, findWindow s.watch.list x = some w → s'.released.count w.window = 1
  others_kept : s'.watch.list.filter (·.identity ≠ x) = s.watch.list.filter (·.identity ≠ x)

/-- Handling the event queued for a destroyed window leaves the registry alone. -/
theorem handle_destroyed_idle {s : System keyMax} (hs : Reachable s) {x : Identity}
    {queue : List WMEvent} (hq : s.input.queue = windowEvent x .destroyed :: queue)
    (cbs : Callbacks) :
    (s.step (.handle cbs)).1.input.watch = s.input.watch := by
  have hzero : findWindow s.input.watch.list 0 = none := by
    rw [findWindow_eq_none_iff]
    exact fun h => hs.watchInv.admitted 0 h rfl
  show (handleEvent cbs s.input).watch = s.input.watch
  obtain ⟨s', hhandled, hwatch, -⟩ := handleEvent_popped cbs hq
  rw [hhandled]
  rcases releaseDestroyedWindow_cases s' (windowEvent x .destroyed) with heq | ⟨-, heq⟩
  · rw [heq, hwatch]
  · rw [heq, windowEvent_window, unregisterWindow_absent (by rw [hwatch]; exact hzero), hwatch]

/-- **Destroyed windows are not released.** In every reachable state, for the event that
was queued for a destroyed window `x`, the decoder does not read `x`, and handling the
event does what it is for only if the entry of `x` is gone beforehand. -/
theorem destroyed_released_iff {s : System keyMax} (hs : Reachable s) {x : Identity}
    (hx : x ≠ 0) {queue : List WMEvent}
    (hq : s.input.queue = windowEvent x .destroyed :: queue) (cbs : Callbacks) :
    (windowEvent x .destroyed).raw.objectAsU64 "window" ≠ x ∧
      (Releases x s.input (s.step (.handle cbs)).1.input ↔
        findWindow s.input.watch.list x = none) := by
  have hwatch := handle_destroyed_idle hs hq cbs
  refine ⟨by rw [windowEvent_window]; exact hx.symm, ?_, ?_⟩
  · intro h
    rw [← hwatch]
    exact h.gone
  · intro h
    exact ⟨hwatch ▸ h, fun w hw => by simp [h] at hw, by rw [hwatch]⟩

/-! ### A window destroyed in reactive mode -/

/-- The process starts with one window, of identity 1, and gets its hooks; then that
window is destroyed. -/
def destroyedRun : List Step :=
  [.setDefault (some .windows) true true ⟨true, true, [Visit.clean 7 1], true, true, true⟩,
    .notify 1 .destroyed none true]

theorem destroyedRun_reachable : Reachable (final System.step (System.init 128) destroyedRun) :=
  ⟨destroyedRun, by simp [destroyedRun, Step.Admits, visited, Visit.clean], rfl⟩

theorem destroyed_released_iff_run :
    (windowEvent 1 .destroyed).raw.objectAsU64 "window" ≠ 1 ∧
      (Releases 1 (final System.step (System.init 128) destroyedRun).input
          ((final System.step (System.init 128) destroyedRun).step
            (.handle Callbacks.idle)).1.input ↔
        findWindow (final System.step (System.init 128) destroyedRun).input.watch.list 1 = none) :=
  destroyed_released_iff destroyedRun_reachable (by decide) rfl Callbacks.idle

/-- The event for the registered window 1 is queued; after it has been handled the entry
is still there. -/
theorem destroyed_not_released :
    Reachable (final System.step (System.init 128) destroyedRun) ∧
      (final System.step (System.init 128) destroyedRun).input.queue =
        [windowEvent 1 .destroyed] ∧
      findWindow (final System.step (System.init 128) destroyedRun).input.watch.list 1 =
        some ⟨1, 7, true⟩ ∧
      ¬ Releases 1 (final System.step (System.init 128) destroyedRun).input
        ((final System.step (System.init 128) destroyedRun).step
          (.handle Callbacks.idle)).1.input := by
  refine ⟨destroyedRun_reachable, rfl, by decide +kernel, ?_⟩
  intro h
  have hkept : findWindow ((final System.step (System.init 128) destroyedRun).step
      (.handle Callbacks.idle)).1.input.watch.list 1 = some ⟨1, 7, true⟩ := by decide +kernel
  rw [h.gone] at hkept
  cases hkept

end Uniwm
