import Uniwm.Base.Machine
import Uniwm.Model.Windows

/-!
# uniwm — the process, its target and the whole system

* The process singleton of `libuniwm/src/wm.c` (`wmSetDefault`, `wmProcess`,
  `wmProcessFini`).
* The notification hooks of `uniwm-windows/src/desktop_win.c`
  (`winOnWindowChanged`, `winDestroy`, `winEventProc`).
* `wmWindowWatchEnsure` of `libuniwm/src/input.c`, which ties them to the watcher.
* `System.step`: the entry points that change this state, as the steps of one
  machine. The main loop takes `handle` for each event it polls and `tick` when the
  queue is empty; the hooks take `notify` and `key`; a script or the start-up code
  takes the rest.

Outcomes of calls into Windows and the mc library are arguments of the step.
-/

namespace Uniwm

open Base

/-! ## The Windows target's hooks -/

/-- A `WM_WindowChangeSink`; the program passes one. -/
inductive WindowChangeSink where
  | targetWindowSink
deriving DecidableEq, Repr

/-- The statics of `desktop_win.c`: the sink and whether each of the two hook handles
is set. The sink's context is always `NULL`. -/
structure WinHooks where
  windowSink : Option WindowChangeSink
  windowEventHook : Bool
  foregroundEventHook : Bool
deriving DecidableEq, Repr

def WinHooks.init : WinHooks := ⟨none, false, false⟩

/-- `win_on_window_changed`; `windowHook` and `foregroundHook` tell whether each
`SetWinEventHook` call, if made, gives a hook. -/
def winOnWindowChanged (hooks : WinHooks) (sink : WindowChangeSink)
    (windowHook foregroundHook : Bool) : WMError × WinHooks :=
  let hooks := { hooks with windowSink := some sink }
  if !hooks.windowEventHook && !windowHook then
    (.unknown, hooks)
  else
    let hooks := { hooks with windowEventHook := true }
    -- the window hook and the sink stay when the second hook is refused
    if !hooks.foregroundEventHook && !foregroundHook then
      (.unknown, hooks)
    else
      (.ok, { hooks with foregroundEventHook := true })

/-- The first half of `win_on_window_changed`, up to the window hook. -/
def winHookWindows (hooks : WinHooks) (sink : WindowChangeSink) (windowHook : Bool) :
    WMError × WinHooks :=
  let hooks := { hooks with windowSink := some sink }
  if !hooks.windowEventHook && !windowHook then (.unknown, hooks)
  else (.ok, { hooks with windowEventHook := true })

/-- The second half of `win_on_window_changed`, the foreground hook. -/
def winHookForeground (hooks : WinHooks) (foregroundHook : Bool) : WMError × WinHooks :=
  if !hooks.foregroundEventHook && !foregroundHook then (.unknown, hooks)
  else (.ok, { hooks with foregroundEventHook := true })

theorem winOnWindowChanged_halves (hooks : WinHooks) (sink : WindowChangeSink)
    (windowHook foregroundHook : Bool) :
    winOnWindowChanged hooks sink windowHook foregroundHook =
      if (winHookWindows hooks sink windowHook).1 ≠ .ok then winHookWindows hooks sink windowHook
      else winHookForeground (winHookWindows hooks sink windowHook).2 foregroundHook := by
  obtain ⟨_, w, f⟩ := hooks
  cases w <;> cases f <;> cases windowHook <;> cases foregroundHook <;> rfl

/-- The part of `win_destroy` that touches the statics. -/
def winDestroy (hooks : WinHooks) : WinHooks :=
  let hooks := { hooks with foregroundEventHook := false }
  -- the sink is cleared together with the window hook only
  if hooks.windowEventHook then { hooks with windowEventHook := false, windowSink := none }
  else hooks

/-- The events that the two hooks ask for. -/
inductive WinEvent where
  | objectCreate
  | objectDestroy
  | objectShow
  | systemForeground
  | other
deriving DecidableEq, Repr

/-- `win_event_proc`: what it passes to the sink for an event about the window object
itself (`idObject = OBJID_WINDOW`, `idChild = CHILDID_SELF` when `self`) of `hwnd`. -/
def winEventProc (hooks : WinHooks) (event : WinEvent) (hwnd : Identity) (self root : Bool) :
    Option (Identity × WindowChange) :=
  if hooks.windowSink = none || hwnd = 0 then none
  else if !self then none
  else
    match event with
    | .objectCreate => if root then some (hwnd, .opened) else none
    | .systemForeground => if root then some (hwnd, .focused) else none
    | .objectShow => if root then some (hwnd, .created) else none
    -- a window that is going can no longer be asked whether it is a root window
    | .objectDestroy => some (hwnd, .destroyed)
    | .other => none

/-! ## The process singleton -/

/-- A `WM_TargetInterface`; `uniwm_windows_target` is the only one there is. -/
inductive TargetInterface where
  | windows
deriving DecidableEq, Repr

/-- `WM_TARGET_CAP_WINDOW_EVENTS` -/
def wmTargetCapWindowEvents : UInt32 := 1

/-- The interface's `capabilities`. -/
def TargetInterface.capabilities : TargetInterface → UInt32
  | windows => wmTargetCapWindowEvents

/-- The interface's `on_window_changed`, if set. -/
def TargetInterface.onWindowChanged :
    TargetInterface → Option (WinHooks → WindowChangeSink → Bool → Bool → WMError × WinHooks)
  | windows => some winOnWindowChanged

/-- The interface's `destroy`. -/
def TargetInterface.destroy : TargetInterface → WinHooks → WinHooks
  | windows => winDestroy

/-- The statics of `wm.c`: `default_ti`, and the interface of `process_wm` while
`process_ready` is set. -/
structure Process where
  defaultTi : Option TargetInterface
  processWm : Option TargetInterface

/-- `wm_process`; `targetInit` tells whether the target's `init`, if called, succeeds. -/
def wmProcess (p : Process) (targetInit : Bool) : Process × Option TargetInterface :=
  match p.processWm with
  | some ti => (p, some ti)
  | none =>
    match p.defaultTi with
    | none => (p, none)
    -- a failed `init` is tried again at the next call
    | some ti => if targetInit then ({ p with processWm := some ti }, some ti) else (p, none)

/-! ## The system -/

/-- All statics of the process that bear on the watcher and the keyboard. -/
structure System (keyMax : Nat) where
  input : Input keyMax
  process : Process
  hooks : WinHooks

def System.init (keyMax : Nat) : System keyMax := ⟨Input.init keyMax, ⟨none, none⟩, WinHooks.init⟩

variable {keyMax : Nat}

/-- `wm_process_fini` -/
def wmProcessFini (s : System keyMax) : System keyMax :=
  match s.process.processWm with
  | none => s
  | some ti =>
    { s with process := { s.process with processWm := none }, hooks := ti.destroy s.hooks }

/-- `wm_input_ensure`; `wmInit` tells whether `mc_wm_init`, if called, succeeds, and
`groupOk` whether the event group then gets registered. -/
def wmInputEnsure (s : Input keyMax) (wmInit groupOk : Bool) : WMError × Input keyMax :=
  if s.wm then (.ok, s)
  -- the outcome of registering the group is not looked at
  else if wmInit then (.ok, { s with wm := true, registered := groupOk })
  else (.unknown, s)

/-- What the calls made by `wm_window_watch_ensure` give, if they are made. -/
structure EnsureOutcome where
  wmInit : Bool
  groupOk : Bool
  visits : List Visit
  targetInit : Bool
  windowHook : Bool
  foregroundHook : Bool

/-- The condition `reactive` of `wm_window_watch_ensure`, with the hooks it leaves. -/
def askTarget (wm : Option TargetInterface) (hooks : WinHooks) (windowHook foregroundHook : Bool) :
    Bool × WinHooks :=
  match wm with
  | none => (false, hooks)
  | some ti =>
    if ti.capabilities &&& wmTargetCapWindowEvents = 0 then (false, hooks)
    else
      match ti.onWindowChanged with
      | none => (false, hooks)
      | some onWindowChanged =>
        let answer := onWindowChanged hooks .targetWindowSink windowHook foregroundHook
        (answer.1 = .ok, answer.2)

/-- `watch.active = true;` -/
def Input.activate (s : Input keyMax) : Input keyMax :=
  { s with watch := { s.watch with active := true } }

/-- `if (!reactive) watch.poll = true;` -/
def Input.pollUnless (s : Input keyMax) (reactive : Bool) : Input keyMax :=
  if reactive then s else { s with watch := { s.watch with poll := true } }

/-- `wm_window_watch_ensure` -/
def wmWindowWatchEnsure (s : System keyMax) (o : EnsureOutcome) : WMError × System keyMax :=
  if s.input.watch.active then (.ok, s)
  else
    let ensured := wmInputEnsure s.input o.wmInit o.groupOk
    if ensured.1 ≠ .ok then (ensured.1, { s with input := ensured.2 })
    else
      -- the snapshot is taken before the target is asked for notifications
      let seeded := pollWindows false o.visits ensured.2.activate
      let asked := wmProcess s.process o.targetInit
      let reactive := askTarget asked.2 s.hooks o.windowHook o.foregroundHook
      (.ok, { input := seeded.pollUnless reactive.1, process := asked.1, hooks := reactive.2 })

theorem wmWindowWatchEnsure_active {s : System keyMax} (h : s.input.watch.active = true)
    (o : EnsureOutcome) : wmWindowWatchEnsure s o = (.ok, s) := by
  rw [wmWindowWatchEnsure, if_pos h]

theorem wmWindowWatchEnsure_failed {s : System keyMax} {o : EnsureOutcome}
    (h : s.input.watch.active = false)
    (hinput : (wmInputEnsure s.input o.wmInit o.groupOk).1 ≠ .ok) :
    wmWindowWatchEnsure s o = ((wmInputEnsure s.input o.wmInit o.groupOk).1,
      { s with input := (wmInputEnsure s.input o.wmInit o.groupOk).2 }) := by
  simp only [wmWindowWatchEnsure, h, Bool.false_eq_true, if_false, if_pos hinput]

theorem wmWindowWatchEnsure_fresh {s : System keyMax} {o : EnsureOutcome}
    (h : s.input.watch.active = false)
    (hinput : (wmInputEnsure s.input o.wmInit o.groupOk).1 = .ok) :
    wmWindowWatchEnsure s o = (.ok,
      { input := (pollWindows false o.visits
          (wmInputEnsure s.input o.wmInit o.groupOk).2.activate).pollUnless
            (askTarget (wmProcess s.process o.targetInit).2 s.hooks o.windowHook
              o.foregroundHook).1
        process := (wmProcess s.process o.targetInit).1
        hooks := (askTarget (wmProcess s.process o.targetInit).2 s.hooks o.windowHook
          o.foregroundHook).2 }) := by
  simp only [wmWindowWatchEnsure, h, Bool.false_eq_true, if_false, hinput, ne_eq, not_true_eq_false]

/-- `wm_set_default`, with what its call of `wm_window_watch_ensure` returns. It calls
`wm_input_ensure` once itself. -/
def wmSetDefault (s : System keyMax) (ti : Option TargetInterface) (wmInit groupOk : Bool)
    (o : EnsureOutcome) : WMError × System keyMax :=
  wmWindowWatchEnsure
    { s with process := { s.process with defaultTi := ti }
             input := (wmInputEnsure s.input wmInit groupOk).2 } o

/-! ## Steps -/

/-- One entry into the program. -/
inductive Step where
  | setDefault (ti : Option TargetInterface) (wmInit groupOk : Bool) (o : EnsureOutcome)
  | process (targetInit : Bool)
  | processFini
  | ensure (o : EnsureOutcome)
  | notify (hwnd : Identity) (change : WindowChange) (resolved : Option WindowRef) (grown : Bool)
  | tick (visits : List Visit)
  | handle (cbs : Callbacks)
  | key (k : MCKey) (down : Bool)

/-- What a step does that the rest of the world can see: the events it pushed, and
what `wm_window_watch_ensure` returned if the step called it. -/
structure Answer where
  emitted : List WMEvent
  ensured : Option WMError

/-- One round of the main loop's inner `while`: poll an event and process it. -/
def handleEvent (cbs : Callbacks) (s : Input keyMax) : Input keyMax :=
  match s.queue with
  | [] => s
  | event :: queue => (wmProcessEvent cbs { s with queue := queue } event).1

/-- The steps of one round of `run_worker`'s loop: events are handled until none is left,
then `wm_tick` is called. -/
def workerRound (cbs : Callbacks) (visits : List Visit) (s : System keyMax) : List Step :=
  List.replicate s.input.queue.length (.handle cbs) ++ [.tick visits]

/-- The mc library's keyboard hook: ask `suppress_cb`, then queue the event. -/
def keyHook (s : Input keyMax) (key : MCKey) (down : Bool) : Input keyMax :=
  { s with suppress := (suppressCb s.suppress key down).1
           queue := s.queue ++ [if down then .globalKeyDown key else .globalKeyUp key] }

/-- The state after a step, and what `wm_window_watch_ensure` returned in it. -/
def Step.run (s : System keyMax) : Step → Option WMError × System keyMax
  | setDefault ti wmInit groupOk o => (wmSetDefault s ti wmInit groupOk o).map some id
  | process targetInit => (none, { s with process := (wmProcess s.process targetInit).1 })
  | processFini => (none, wmProcessFini s)
  | ensure o => (wmWindowWatchEnsure s o).map some id
  | notify hwnd change resolved grown =>
    (none, { s with input := targetWindowSink s.input hwnd change resolved grown })
  | tick visits => (none, { s with input := wmTick visits s.input })
  | handle cbs => (none, { s with input := handleEvent cbs s.input })
  | key k down => (none, { s with input := keyHook s.input k down })

/-- The system as a machine. Only `handle` takes events out of the queue, so what a
step pushed is what stands in the queue behind the events that were there. -/
def System.step (s : System keyMax) (st : Step) : System keyMax × Answer :=
  ((st.run s).2,
    ⟨(st.run s).2.input.queue.drop s.input.queue.length, (st.run s).1⟩)

end Uniwm
