import Uniwm.Model.Keys

/-!
# uniwm — the window watcher

The window half of `libuniwm/src/input.c`: the registry `watch.list` of known
windows, the events pushed for windows that come and go (`emitWindowEvent`), the
two ways of learning about them (`pollWindows`, run from the main loop's tick, and
`targetWindowSink`, called by the target's notification hooks), and the handling
of a queued event (`wmProcessEvent`).

Conventions of the model:

* What a call into the mc library answers is an argument of the step that makes
  it: the outcome of `wm_resolve_window`, of growing a vector (`grown`), of an
  identity query. The enumeration is the list of windows it visits.
* `mc_wm_event` and `mc_wm_push_event` succeed; a pushed event goes to the back
  of `queue`.
* `released` is a ghost: the window references given to `mc_wm_window_unref`, in
  order.
-/

namespace Uniwm

open Base

/-- An `MC_WindowRef *` handed out by the mc library. -/
abbrev WindowRef := Nat

/-- `RegisteredWindow` -/
structure RegisteredWindow where
  identity : Identity
  window : WindowRef
  known : Bool
deriving DecidableEq, Repr

/-- The static `watch`. -/
structure Watch where
  active : Bool
  poll : Bool
  list : List RegisteredWindow
  focused : Identity

/-- The statics of `input.c`. `wm` is `input_wm.wm != NULL`, `registered` is
`uniwm_event_offset != MC_WME_NONE`. -/
structure Input (keyMax : Nat) where
  wm : Bool
  registered : Bool
  suppress : Suppress keyMax
  keybind : Keybinds keyMax
  watch : Watch
  windowPollTick : UInt32
  queue : List WMEvent
  released : List WindowRef

/-- Static storage starts zeroed, and the queue empty. -/
def Input.init (keyMax : Nat) : Input keyMax where
  wm := false
  registered := false
  suppress := Suppress.init keyMax
  keybind := Keybinds.init keyMax
  watch := ⟨false, false, [], 0⟩
  windowPollTick := 0
  queue := []
  released := []

variable {keyMax : Nat}

/-! ## The registry -/

/-- `find_window` -/
def findWindow (list : List RegisteredWindow) (identity : Identity) : Option RegisteredWindow :=
  list.find? (·.identity = identity)

/-- `mc_wm_window_unref` -/
def Input.unref (s : Input keyMax) (window : WindowRef) : Input keyMax :=
  { s with released := s.released ++ [window] }

def Input.setList (s : Input keyMax) (list : List RegisteredWindow) : Input keyMax :=
  { s with watch := { s.watch with list := list } }

/-- `register_window_ref` -/
def registerWindowRef (s : Input keyMax) (identity : Identity) (window : WindowRef) (known : Bool)
    (grown : Bool) : Input keyMax :=
  -- without memory for the entry the reference is given back
  if grown then s.setList (s.watch.list ++ [⟨identity, window, known⟩]) else s.unref window

/-- `register_window`; `resolved` is the reference that `wm_resolve_window` gives, if
it succeeds. -/
def registerWindow (s : Input keyMax) (identity : Identity) (known : Bool)
    (resolved : Option WindowRef) (grown : Bool) : Input keyMax :=
  match findWindow s.watch.list identity with
  | some _ => s
  | none =>
    match resolved with
    | none => s
    | some window => registerWindowRef s identity window known grown

/-- `unregister_window` -/
def unregisterWindow (s : Input keyMax) (identity : Identity) : Input keyMax :=
  match findWindow s.watch.list identity with
  | none => s
  | some w => (s.unref w.window).setList (s.watch.list.eraseP (·.identity = identity))

/-- `w->known = true` for the entry `w` that `find_window` gives. -/
def markKnown (identity : Identity) : List RegisteredWindow → List RegisteredWindow
  | [] => []
  | w :: ws => if w.identity = identity then { w with known := true } :: ws
      else w :: markKnown identity ws

/-! ## Events -/

/-- `uniwm_event_of` -/
def uniwmEventOf : WindowChange → UniwmEvent
  | .created => .windowCreated
  | .destroyed => .windowDestroyed
  | .focused => .windowFocused
  | .opened => .eventCount

/-- `wm_uniwm_event_type` -/
def wmUniwmEventType (s : Input keyMax) (which : UniwmEvent) : WMEventType :=
  if !s.registered || which = .eventCount then .none else .uniwm which

/-- The event that `emit_window_event` builds for a change of a window. -/
def windowEvent (identity : Identity) (change : WindowChange) : WMEvent :=
  .uniwm (uniwmEventOf change)
    ((Json.setObject.addU64 identity "window_id").addNull "window")

/-- `emit_window_event` -/
def emitWindowEvent (s : Input keyMax) (identity : Identity) (change : WindowChange) :
    Input keyMax :=
  if !s.wm || wmUniwmEventType s (uniwmEventOf change) = .none then s
  else { s with queue := s.queue ++ [windowEvent identity change] }

/-! ## Polling -/

/-- One window visited by `mc_wm_get_all_windows`: the reference handed over, what
`mc_wm_window_get_identity` gives for it, and whether the pushes to `poll.seen` and
to `watch.list` find memory. -/
structure Visit where
  window : WindowRef
  identity : Option Identity
  seenGrown : Bool
  listGrown : Bool

/-- A visit in which every call succeeds. -/
def Visit.clean (window : WindowRef) (identity : Identity) : Visit :=
  ⟨window, some identity, true, true⟩

/-- `window_visit`, on the statics and `poll.seen`. -/
def windowVisit (fire : Bool) (st : Input keyMax × List Identity) (v : Visit) :
    Input keyMax × List Identity :=
  match v.identity with
  -- a window without identity is neither registered nor seen
  | none => (st.1.unref v.window, st.2)
  | some identity =>
    let seen := if v.seenGrown then st.2 ++ [identity] else st.2
    match findWindow st.1.watch.list identity with
    | some _ => (st.1.unref v.window, seen)
    | none =>
      -- the event is pushed also when there was no memory for the entry
      let s := registerWindowRef st.1 identity v.window true v.listGrown
      (if fire then emitWindowEvent s identity .created else s, seen)

/-- The sweep of `poll_windows`: a destroyed event for each registered window that the
enumeration did not show. -/
def sweepDestroyed (seen : List Identity) (s : Input keyMax) : Input keyMax :=
  s.watch.list.foldl
    (fun s w => if w.identity ∈ seen then s else emitWindowEvent s w.identity .destroyed) s

/-- `poll_windows`; `visits` are the windows that the enumeration visits before it
ends. -/
def pollWindows (fire : Bool) (visits : List Visit) (s : Input keyMax) : Input keyMax :=
  if !s.wm then s
  else
    let polled := visits.foldl (windowVisit fire) (s, [])
    if fire then sweepDestroyed polled.2 polled.1 else polled.1

/-- `WINDOW_POLL_TICKS` -/
abbrev windowPollTicks : UInt32 := 8

/-- `wm_tick`; `visits` is what an enumeration would show at this moment. -/
def wmTick (visits : List Visit) (s : Input keyMax) : Input keyMax :=
  let s := if s.watch.poll && s.windowPollTick % windowPollTicks = 0 then
    pollWindows true visits s else s
  { s with windowPollTick := s.windowPollTick + 1 }

/-! ## Notifications -/

/-- `target_window_sink` -/
def targetWindowSink (s : Input keyMax) (handle : Identity) (change : WindowChange)
    (resolved : Option WindowRef) (grown : Bool) : Input keyMax :=
  if !s.wm then s
  else
    match change with
    | .opened => registerWindow s handle false resolved grown
    | .created =>
      match findWindow s.watch.list handle with
      -- reported whether or not the window could be resolved and stored
      | none => emitWindowEvent (registerWindow s handle true resolved grown) handle .created
      | some w =>
        if w.known then s
        else emitWindowEvent (s.setList (markKnown handle s.watch.list)) handle .created
    | .destroyed =>
      match findWindow s.watch.list handle with
      | none => s
      -- the entry of a known window stays until the event is handled
      | some w => if w.known then emitWindowEvent s handle .destroyed
          else unregisterWindow s handle
    | .focused =>
      if handle = s.watch.focused then s
      else
        let s := { s with watch := { s.watch with focused := handle } }
        emitWindowEvent (registerWindow s handle false resolved grown) handle .focused

/-! ## Handling a queued event -/

/-- `release_destroyed_window` -/
def releaseDestroyedWindow (s : Input keyMax) (event : WMEvent) : Input keyMax :=
  if event.type ≠ wmUniwmEventType s .windowDestroyed then s
  else
    match event with
    -- the member read is not the one that `emit_window_event` writes the identity to
    | .uniwm _ raw => unregisterWindow s (raw.objectAsU64 "window")
    | _ => s

/-- `wm_process_event`, with the callbacks it ran. -/
def wmProcessEvent (cbs : Callbacks) (s : Input keyMax) (event : WMEvent) :
    Input keyMax × List Firing :=
  let fired := processKeybinds cbs s.keybind event
  (releaseDestroyedWindow { s with keybind := fired.1 } event, fired.2)

end Uniwm
