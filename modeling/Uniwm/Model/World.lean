import Uniwm.Model.System

/-!
# uniwm — other programs

`wm_window_watch_ensure` taken apart into the steps between which other programs may
create, show and destroy windows: the seed enumeration, the target's `init`, the window
hook and the foreground hook of `win_on_window_changed`. `World.step` interleaves them
with the other programs; without them the steps make up `wmWindowWatchEnsure`
(`advance_uninterrupted`).

* The enumeration returns the windows live at its instant, and an installed window hook
  queues a notification for every later change.
* A queued notification is delivered after the call, when the thread reads its messages
  again (`WINEVENT_OUTOFCONTEXT`).
-/

namespace Uniwm

open Base

/-- A window of the system; `root` is what `is_root_window` says about it. -/
structure OSWindow where
  hwnd : Identity
  hwnd_ne_zero : hwnd ≠ 0
  root : Bool
  shown : Bool

/-- The window as it is when it is created. -/
def OSWindow.hidden (v : OSWindow) : OSWindow := { v with shown := false }

/-- The window after `hwnd` has been shown. -/
def OSWindow.showIf (hwnd : Identity) (v : OSWindow) : OSWindow :=
  if v.hwnd = hwnd then { v with shown := true } else v

/-- Where the call of `wm_window_watch_ensure` stands. -/
inductive Stage where
  | called
  | seeded
  | asked (wm : Option TargetInterface)
  | hooked
  | returned (e : WMError)

structure World (keyMax : Nat) where
  system : System keyMax
  windows : List OSWindow
  pending : List (WinEvent × Identity)
  stage : Stage

variable {keyMax : Nat}

namespace World

/-- A change of a window, queued if the window hook is installed. -/
def post (w : World keyMax) (event : WinEvent) (hwnd : Identity) : World keyMax :=
  if w.system.hooks.windowEventHook then { w with pending := w.pending ++ [(event, hwnd)] } else w

/-- `wm_window_watch_ensure` returns `WM_ERROR_OK`, with the hooks as they now are. -/
def finish (w : World keyMax) (reactive : Bool) (hooks : WinHooks) : World keyMax :=
  { w with system := { w.system with
             input := w.system.input.pollUnless reactive
             hooks := hooks }
           stage := .returned .ok }

/-- The next step of `wm_window_watch_ensure`. `o` gives the outcomes of the calls, but
for the enumeration: it visits the live windows, as `visit` says. -/
def advance (visit : Identity → Visit) (o : EnsureOutcome) (w : World keyMax) : World keyMax :=
  match w.stage with
  | .called =>
    if w.system.input.watch.active then { w with stage := .returned .ok }
    else
      let ensured := wmInputEnsure w.system.input o.wmInit o.groupOk
      if ensured.1 ≠ .ok then
        { w with system := { w.system with input := ensured.2 }, stage := .returned ensured.1 }
      else
        { w with
          -- the enumeration shows the windows that are live at this instant
          system := { w.system with
            input := pollWindows false (w.windows.map (visit ·.hwnd)) ensured.2.activate }
          stage := .seeded }
  | .seeded =>
    let asked := wmProcess w.system.process o.targetInit
    { w with system := { w.system with process := asked.1 }, stage := .asked asked.2 }
  | .asked none => w.finish false w.system.hooks
  | .asked (some ti) =>
    if ti.capabilities &&& wmTargetCapWindowEvents = 0 then w.finish false w.system.hooks
    else if ti.onWindowChanged.isNone then w.finish false w.system.hooks
    else
      let hooked := winHookWindows w.system.hooks .targetWindowSink o.windowHook
      -- without the window hook the foreground hook is not asked for
      if hooked.1 ≠ .ok then w.finish false hooked.2
      else { w with system := { w.system with hooks := hooked.2 }, stage := .hooked }
  | .hooked =>
    let hooked := winHookForeground w.system.hooks o.foregroundHook
    w.finish (hooked.1 = .ok) hooked.2
  | .returned _ => w

end World

/-- One step of the call, or of another program. -/
inductive Act where
  | advance
  | createWindow (v : OSWindow)
  | showWindow (hwnd : Identity)
  | destroyWindow (hwnd : Identity)

/-- The window `hwnd` is live. -/
def World.Live (w : World keyMax) (hwnd : Identity) : Prop := hwnd ∈ w.windows.map (·.hwnd)

instance (w : World keyMax) : DecidablePred w.Live := fun hwnd =>
  inferInstanceAs (Decidable (hwnd ∈ w.windows.map (·.hwnd)))

/-- One step. A new window has a handle of its own and is not shown yet. -/
def World.act (visit : Identity → Visit) (o : EnsureOutcome) (w : World keyMax) :
    Act → World keyMax
  | .advance => w.advance visit o
  | .createWindow v =>
    if w.Live v.hwnd then w
    else { w with windows := w.windows ++ [v.hidden] }.post .objectCreate v.hwnd
  | .showWindow hwnd =>
    if w.Live hwnd then
      { w with windows := w.windows.map (OSWindow.showIf hwnd) }.post .objectShow hwnd
    else w
  | .destroyWindow hwnd =>
    if w.Live hwnd then
      { w with windows := w.windows.filter (·.hwnd ≠ hwnd) }.post .objectDestroy hwnd
    else w

/-- The world as a machine. -/
def World.step (visit : Identity → Visit) (o : EnsureOutcome) (w : World keyMax) (a : Act) :
    World keyMax × Unit :=
  (w.act visit o a, ())

section Advance

variable (visit : Identity → Visit) (o : EnsureOutcome) {w : World keyMax}

theorem advance_returned {e : WMError} (h : w.stage = .returned e) : w.advance visit o = w := by
  simp only [World.advance, h]

/-- The first step: the enumeration, if `wm_input_ensure` succeeds. -/
theorem advance_called (h : w.stage = .called) (hactive : w.system.input.watch.active = false)
    (hok : (wmInputEnsure w.system.input o.wmInit o.groupOk).1 = .ok) :
    w.advance visit o = { w with
      system := { w.system with
        input := pollWindows false (w.windows.map (visit ·.hwnd))
          (wmInputEnsure w.system.input o.wmInit o.groupOk).2.activate }
      stage := .seeded } := by
  simp [World.advance, h, hactive, hok]

theorem advance_failed (h : w.stage = .called) (hactive : w.system.input.watch.active = false)
    (hfail : (wmInputEnsure w.system.input o.wmInit o.groupOk).1 ≠ .ok) :
    w.advance visit o = { w with
      system := { w.system with input := (wmInputEnsure w.system.input o.wmInit o.groupOk).2 }
      stage := .returned (wmInputEnsure w.system.input o.wmInit o.groupOk).1 } := by
  simp [World.advance, h, hactive, hfail]

theorem advance_seeded (h : w.stage = .seeded) :
    w.advance visit o = { w with
      system := { w.system with process := (wmProcess w.system.process o.targetInit).1 }
      stage := .asked (wmProcess w.system.process o.targetInit).2 } := by
  simp only [World.advance, h]

/-- The last two steps ask the target, as `askTarget` does. -/
theorem advance_asked {wm : Option TargetInterface} (h : w.stage = .asked wm) :
    ((w.advance visit o).advance visit o).system =
        { w.system with
          input := w.system.input.pollUnless
            (askTarget wm w.system.hooks o.windowHook o.foregroundHook).1
          hooks := (askTarget wm w.system.hooks o.windowHook o.foregroundHook).2 } ∧
      ((w.advance visit o).advance visit o).stage = .returned .ok := by
  cases wm with
  | none =>
    have hfirst : w.advance visit o = w.finish false w.system.hooks := by
      simp only [World.advance, h]
    rw [hfirst, advance_returned visit o rfl]
    exact ⟨rfl, rfl⟩
  | some ti =>
    cases ti
    have hask : askTarget (some .windows) w.system.hooks o.windowHook o.foregroundHook =
        (decide ((winOnWindowChanged w.system.hooks .targetWindowSink o.windowHook
            o.foregroundHook).1 = .ok),
          (winOnWindowChanged w.system.hooks .targetWindowSink o.windowHook
            o.foregroundHook).2) := rfl
    rw [hask, winOnWindowChanged_halves]
    by_cases hhook : (winHookWindows w.system.hooks .targetWindowSink o.windowHook).1 = .ok
    · have hfirst : w.advance visit o = { w with
          system := { w.system with
            hooks := (winHookWindows w.system.hooks .targetWindowSink o.windowHook).2 }
          stage := .hooked } := by
        simp [World.advance, h, hhook, TargetInterface.capabilities, wmTargetCapWindowEvents,
          TargetInterface.onWindowChanged]
      rw [hfirst, if_neg (not_not.mpr hhook)]
      exact ⟨rfl, rfl⟩
    · have hfirst : w.advance visit o = w.finish false
          (winHookWindows w.system.hooks .targetWindowSink o.windowHook).2 := by
        simp [World.advance, h, hhook, TargetInterface.capabilities, wmTargetCapWindowEvents,
          TargetInterface.onWindowChanged]
      rw [hfirst, if_pos hhook, advance_returned visit o rfl, decide_eq_false hhook]
      exact ⟨rfl, rfl⟩

/-- The steps of the call are those of `wm_window_watch_ensure`: with no other program
between them they leave the same system. -/
theorem advance_uninterrupted (hstage : w.stage = .called)
    (hvisits : o.visits = w.windows.map (visit ·.hwnd)) :
    (final (World.step visit o) w (List.replicate 4 .advance)).system =
        (wmWindowWatchEnsure w.system o).2 ∧
      (final (World.step visit o) w (List.replicate 4 .advance)).stage =
        .returned (wmWindowWatchEnsure w.system o).1 := by
  have hrun : final (World.step visit o) w (List.replicate 4 .advance) =
      (((w.advance visit o).advance visit o).advance visit o).advance visit o := rfl
  rw [hrun]
  cases hactive : w.system.input.watch.active with
  | true =>
    have hfirst : w.advance visit o = { w with stage := .returned .ok } := by
      simp [World.advance, hstage, hactive]
    rw [wmWindowWatchEnsure_active hactive, hfirst, advance_returned visit o rfl,
      advance_returned visit o rfl, advance_returned visit o rfl]
    exact ⟨rfl, rfl⟩
  | false =>
    by_cases hok : (wmInputEnsure w.system.input o.wmInit o.groupOk).1 = .ok
    · have hfirst := advance_called visit o hstage hactive hok
      have hsecond := advance_seeded visit o (w := w.advance visit o) (by rw [hfirst])
      rw [wmWindowWatchEnsure_fresh hactive hok, hvisits, hsecond, hfirst]
      exact advance_asked visit o rfl
    · have hfirst := advance_failed visit o hstage hactive hok
      rw [wmWindowWatchEnsure_failed hactive hok, hfirst, advance_returned visit o rfl,
        advance_returned visit o rfl, advance_returned visit o rfl]
      exact ⟨rfl, rfl⟩

end Advance

end Uniwm
