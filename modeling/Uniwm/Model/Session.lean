import Uniwm.Model.Tables
import Uniwm.Model.Windows

/-!
# uniwm — scripts and the shell

The methods of the tables of virtual desktops in `libuniwm-lua/src/uniwm-lua.c` (`vdeskSwitch`,
`vdeskWindows`, `vdeskMoveWindow`, `vdeskSize`), with the functions of `libuniwm/src/wm.c` and
`uniwm-windows/src/desktop_win.c` that they call, and the shell that these act on.

* `Session.step` interleaves the calls of a script with what other programs and the user do to
  the shell. A method starts with a refresh; its step is given the shell as it is after that.
* `Denotes` tells what an interface stands for, which the shell keeps up only as long as a
  reference to the interface is held.
* Nothing is written down about `SwitchDesktop` and `MoveViewToDesktop`. What such a call answers
  and how it leaves the shell (`ShellAnswer`) is an argument of the step; what the program relies
  on them for is `OpensDesktops` and `MovesViews`.
* The session begins when `wm_process` has given the target.
-/

namespace Uniwm

open Base

/-! ## The shell -/

/-- What each interface stands for: the id that its `GetID` gives. -/
abbrev Denotes := IVirtualDesktop → Option GUID

/-- A virtual desktop of the shell, with its name if it has one that converts. -/
structure ShellDesktop where
  id : GUID
  name : Option String

/-- A top-level window, with what `IsWindowVisible`, `GetWindowTextLengthW`,
`DwmGetWindowAttribute` for `DWMWA_CLOAKED` and `GetWindowDesktopId` give for it. -/
structure ShellWindow where
  hwnd : Identity
  visible : Bool
  textLength : Nat
  cloaked : Option UInt32
  desktop : Option GUID

/-- The shell: its desktops in order, and its windows in the order of `EnumWindows`. -/
structure Shell where
  desktops : List ShellDesktop
  current : GUID
  windows : List ShellWindow
  denotes : Denotes
  ids_nodup : (desktops.map (·.id)).Nodup
  current_mem : current ∈ desktops.map (·.id)
  hwnds_nodup : (windows.map (·.hwnd)).Nodup

/-- Whether a call into the shell succeeds, and the shell after it. -/
structure ShellAnswer where
  succeeded : Bool
  shell : Shell

/-- What `SwitchDesktop` is called for: where it succeeds, the desktop that the interface stands
for is one of the shell's, and has become the current one. -/
structure OpensDesktops (sh : Shell) (switchDesktop : IVirtualDesktop → ShellAnswer) : Prop where
  listed : ∀ iface id, sh.denotes iface = some id → (switchDesktop iface).succeeded = true →
    id ∈ sh.desktops.map (·.id)
  current : ∀ iface id, sh.denotes iface = some id → (switchDesktop iface).succeeded = true →
    (switchDesktop iface).shell.current = id

/-- `win_vdesk_open`; `switchDesktop` is what `SwitchDesktop` answers for an interface. -/
def winVdeskOpen (sh : Shell) (d : Option VDesktop)
    (switchDesktop : IVirtualDesktop → ShellAnswer) : WMError × Shell :=
  match d with
  | none => (.invalidArgument, sh)
  | some d =>
    let switched := switchDesktop d.iface
    (if switched.succeeded then .ok else .unknown, switched.shell)

/-- `hwnd_is_cloaked` -/
def hwndIsCloaked (w : ShellWindow) : Bool :=
  match w.cloaked with
  | none => false
  | some cloaked => cloaked != 0

/-- `enum_vdesk_windows`: the handle that it passes to the sink, if it does. -/
def enumVdeskWindows (id : GUID) (skipCloaked : Bool) (w : ShellWindow) : Option Identity :=
  if !w.visible || w.textLength = 0 then none
  else if skipCloaked && hwndIsCloaked w then none
  else
    match w.desktop with
    | none => none
    | some desktop => if desktop = id then some w.hwnd else none

/-- `vdesk_is_current`; `cur` is the id of the desktop that `GetCurrentDesktop` gives, if it
gives one. -/
def vdeskIsCurrent (cur : Option GUID) (d : VDesktop) : Bool :=
  match cur with
  | none => false
  | some id => id = d.id

/-- `win_vdesk_windows`: the handles passed to the sink. `vdm` is `t->vdm != NULL`, and `curRead`
tells whether `GetCurrentDesktop` gives the current desktop. -/
def winVdeskWindows (vdm curRead : Bool) (sh : Shell) (d : VDesktop) : WMError × List Identity :=
  if !vdm then (.notImplemented, [])
  else
    let skipCloaked := vdeskIsCurrent (if curRead then some sh.current else none) d
    (.ok, sh.windows.filterMap (enumVdeskWindows d.id skipCloaked))

/-- What the calls made by `win_vdesk_move_window` give: `avc` is `t->avc != NULL`, `view`
whether `GetViewForHwnd` gives a view, and `moveViewToDesktop` what `MoveViewToDesktop` answers
for the view of a window and an interface. -/
structure MoveOutcome where
  avc : Bool
  view : Bool
  moveViewToDesktop : Identity → IVirtualDesktop → ShellAnswer

/-- `win_vdesk_move_window` -/
def winVdeskMoveWindow (sh : Shell) (d : VDesktop) (handle : Identity) (o : MoveOutcome) :
    WMError × Shell :=
  if !o.avc then (.notImplemented, sh)
  else if !o.view then (.unknown, sh)
  else
    let moved := o.moveViewToDesktop handle d.iface
    (if moved.succeeded then .ok else .unknown, moved.shell)

/-- A `RECT` -/
structure Rect where
  left : Int32
  top : Int32
  right : Int32
  bottom : Int32

/-- An `MC_Size2U` -/
structure Size2U where
  width : UInt32
  height : UInt32
deriving DecidableEq, Repr

/-- `win_vdesk_size`; `work` is the work area, if `SystemParametersInfoW` gives it. -/
def winVdeskSize (work : Option Rect) : WMError × Option Size2U :=
  match work with
  | none => (.unknown, none)
  | some work =>
    (.ok, some ⟨(work.right - work.left).toUInt32, (work.bottom - work.top).toUInt32⟩)

/-! ## The window manager -/

/-- What the calls made by `wm_vdesktop_switch` give: what `SwitchDesktop` answers for an
interface, whether there is an input with the group of events, and whether `mc_wm_event` gives
an event. -/
structure SwitchOutcome where
  switchDesktop : IVirtualDesktop → ShellAnswer
  registered : Bool
  made : Bool

/-- `wm_vdesktop_switch`, and the event that it pushes. -/
def wmVdesktopSwitch (sh : Shell) (d : Option VDesktop) (o : SwitchOutcome) :
    WMError × Shell × Option WMEvent :=
  match d with
  | none => (.invalidArgument, sh, none)
  | some d =>
    let opened := winVdeskOpen sh (some d) o.switchDesktop
    if opened.1 ≠ .ok then (opened.1, opened.2, none)
    else (.ok, opened.2, notifyVdeskChanged o.registered o.made (some d) .managed)

/-- What the mc library answers to `wm_vdesktop_windows`: whether `mc_wm_resolve` gives a window
manager, and what `mc_wm_win32_identity_from_hwnd` and `mc_wm_resolve_window` give. -/
structure ResolveOutcome where
  mcWm : Bool
  identity : Identity → Option Identity
  window : Identity → Option WindowRef

/-- `resolve_window_handle`: the window that is visited, if any. -/
def resolveWindowHandle (o : ResolveOutcome) (handle : Identity) : Option WindowRef :=
  match o.identity handle with
  | none => none
  | some identity => o.window identity

/-- `wm_vdesktop_windows`: the windows visited, in order. -/
def wmVdesktopWindows (vdm curRead : Bool) (sh : Shell) (d : VDesktop) (o : ResolveOutcome) :
    WMError × List WindowRef :=
  if !o.mcWm then (.unknown, [])
  else
    let listed := winVdeskWindows vdm curRead sh d
    (listed.1, listed.2.filterMap (resolveWindowHandle o))

/-! ## The methods of a table -/

/-- A `CollectVDeskWindows`: what has been stored in the table, and the count. -/
structure CollectVDeskWindows where
  stored : List (Int × WindowRef)
  count : Int

/-- `collect_vdesk_window` -/
def collectVdeskWindow (c : CollectVDeskWindows) (window : WindowRef) : CollectVDeskWindows :=
  ⟨c.stored ++ [(c.count + 1, window)], c.count + 1⟩

/-- The state of a script's session. -/
structure Session where
  lua : LuaDesktops
  shell : Shell

/-- What a call gives to the script, or raises, and the event that it pushes. -/
structure SessionAnswer where
  error : Option String
  issued : List (GUID × VDeskTable)
  windows : List (Int × WindowRef)
  size : Option Size2U
  event : Option WMEvent

namespace SessionAnswer

def nothing : SessionAnswer := ⟨none, [], [], none, none⟩

/-- `luaL_error` -/
def raised (text : String) : SessionAnswer := { nothing with error := some text }

end SessionAnswer

/-- The refresh at the start of a method, after which the shell is `sh`. -/
def Session.refreshed (s : Session) (arr : Option (List DesktopElement)) (sh : Shell) : Session :=
  ⟨{ s.lua with target := (refresh s.lua.target arr).2 }, sh⟩

/-- The error of `checked_vdesk`. -/
def desktopGone : String := "uniwm: virtual desktop no longer exists"

/-- `checked_vdesk` at the start of a method, and what follows with the record. -/
def Session.method (s : Session) (table : VDeskTable) (arr : Option (List DesktopElement))
    (sh : Shell) (body : VDesktop → Shell × SessionAnswer) : Session × SessionAnswer :=
  let s' := s.refreshed arr sh
  match methodVdesk s.lua.target arr table with
  | none => (s', .raised desktopGone)
  | some d => ({ s' with shell := (body d).1 }, (body d).2)

/-- `vdesk_switch`, once the desktop is checked. -/
def vdeskSwitch (sh : Shell) (o : SwitchOutcome) (d : VDesktop) : Shell × SessionAnswer :=
  let switched := wmVdesktopSwitch sh (some d) o
  if switched.1 ≠ .ok then (switched.2.1, .raised "uniwm: switch failed")
  else (switched.2.1, { SessionAnswer.nothing with event := switched.2.2 })

/-- `vdesk_windows`, once the desktop is checked. -/
def vdeskWindows (sh : Shell) (vdm curRead : Bool) (o : ResolveOutcome) (d : VDesktop) :
    Shell × SessionAnswer :=
  let listed := wmVdesktopWindows vdm curRead sh d o
  if listed.1 ≠ .ok then (sh, .raised "uniwm: failed to list windows on virtual desktop")
  else
    let collected := listed.2.foldl collectVdeskWindow ⟨[], 0⟩
    (sh, { SessionAnswer.nothing with windows := collected.stored })

/-- `vdesk_move_window`, once the desktop is checked; `handle` is what
`mc_wm_window_get_identity` gives for the window, if it gives one. -/
def vdeskMoveWindow (sh : Shell) (handle : Option Identity) (o : MoveOutcome) (d : VDesktop) :
    Shell × SessionAnswer :=
  match handle with
  | none => (sh, .raised "uniwm: move_window: window has no movable handle")
  | some handle =>
    let moved := winVdeskMoveWindow sh d handle o
    if moved.1 ≠ .ok then (moved.2, .raised "uniwm: move_window: failed")
    else (moved.2, .nothing)

/-- `vdesk_size`, once the desktop is checked. -/
def vdeskSize (sh : Shell) (work : Option Rect) (_ : VDesktop) : Shell × SessionAnswer :=
  let size := winVdeskSize work
  if size.1 ≠ .ok then (sh, .raised "uniwm: failed to get virtual desktop size")
  else (sh, { SessionAnswer.nothing with size := size.2 })

/-! ## Steps -/

/-- A call of the script, or what happens between its calls. -/
inductive SessionStep where
  /-- other programs and the user -/
  | shell (sh : Shell)
  /-- a function of `vdesktop`, after which the shell is `sh` -/
  | call (call : DesktopCall) (sh : Shell)
  | switch (table : VDeskTable) (arr : Option (List DesktopElement)) (sh : Shell)
      (o : SwitchOutcome)
  | windows (table : VDeskTable) (arr : Option (List DesktopElement)) (sh : Shell)
      (vdm curRead : Bool) (o : ResolveOutcome)
  | moveWindow (table : VDeskTable) (arr : Option (List DesktopElement)) (sh : Shell)
      (handle : Option Identity) (o : MoveOutcome)
  | size (table : VDeskTable) (arr : Option (List DesktopElement)) (sh : Shell)
      (work : Option Rect)

/-- One step of the session. -/
def Session.step (s : Session) : SessionStep → Session × SessionAnswer
  | .shell sh => ({ s with shell := sh }, .nothing)
  | .call call sh =>
    let called := s.lua.step call
    (⟨called.1, sh⟩, { SessionAnswer.nothing with issued := called.2 })
  | .switch table arr sh o => s.method table arr sh (vdeskSwitch sh o)
  | .windows table arr sh vdm curRead o => s.method table arr sh (vdeskWindows sh vdm curRead o)
  | .moveWindow table arr sh handle o => s.method table arr sh (vdeskMoveWindow sh handle o)
  | .size table arr sh work => s.method table arr sh (vdeskSize sh work)

/-- A session in which nothing has been asked yet. -/
def Session.init (sh : Shell) : Session := ⟨LuaDesktops.init, sh⟩

end Uniwm
