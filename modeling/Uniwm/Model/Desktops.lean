import Uniwm.Model.Events

/-!
# uniwm — the cache of virtual desktops

The virtual desktops of `uniwm-windows/src/desktop_win.c`: records that are kept across
refreshes, so that a pointer handed to a script stays good (`refresh`, `winGetVdesk`,
`winVdeskCurrent`, `winVdeskCreate`), and the functions of `libuniwm-lua/src/uniwm-lua.c`
that rely on the span handed out (`checkedVdesk`, `pushVdeskPtr`, `lVdeskCurrent`,
`lVdeskList`). `notifyVdeskChanged` of `libuniwm/src/wm.c` tells scripts of a switch.

* What the calls on one element of the array give is the element: `GetAt`, `GetID`,
  `GetName` with its conversion, and the allocations made for it. An element has one id, so
  `GetID` succeeds here, in `refresh` and in `wrap_desktop` alike; `Uniwm.Model.Creation` has
  the refresh and the creation in which it may fail.
* `released` is a ghost: the interfaces given to `Release`, in order.
-/

namespace Uniwm

/-- A `GUID`, compared by `guid_eq`. -/
abbrev GUID := BitVec 128

/-- An `IVirtualDesktop *`. -/
abbrev IVirtualDesktop := Nat

/-- A `WM_VDesktop` and its address. -/
structure VDesktop where
  addr : Ptr
  iface : IVirtualDesktop
  id : GUID
  name : String
  valid : Bool
deriving DecidableEq, Repr

/-- The part of a `WM_Target` that the cache uses. -/
structure Target where
  items : List VDesktop
  released : List IVirtualDesktop
deriving DecidableEq, Repr

/-- A target right after `win_init`. -/
def Target.init : Target := ⟨[], []⟩

/-- One element of the array that `GetDesktops` gives: what `GetAt` gives, the desktop's
id, its name if it has one that converts, and the outcomes of allocating the name, the
record and the slot for it. -/
structure DesktopElement where
  vd : Option IVirtualDesktop
  id : GUID
  name : Option String
  nameGrown : Bool
  addr : Option Ptr
  grown : Bool

def Target.release (t : Target) (iface : IVirtualDesktop) : Target :=
  { t with released := t.released ++ [iface] }

/-- `fetch_name` -/
def fetchName (e : DesktopElement) (ordinal : Nat) : Option String :=
  if e.nameGrown then some (e.name.getD ("Desktop " ++ toString (ordinal + 1))) else none

/-- `wrap_desktop` -/
def wrapDesktop (e : DesktopElement) (iface : IVirtualDesktop) (ordinal : Nat) :
    Option VDesktop :=
  match e.addr with
  | none => none
  | some addr =>
    match fetchName e ordinal with
    | none => none
    | some name => some ⟨addr, iface, e.id, name, true⟩

/-- `reset_cache` -/
def resetCache (t : Target) : Target :=
  { t with items := t.items.map fun d => { d with valid := false } }

/-- `find_desktop` -/
def findDesktop (items : List VDesktop) (id : GUID) : Option VDesktop :=
  items.find? (·.id = id)

/-- Write through the pointer that `find_desktop` gives. -/
def updateDesktop (id : GUID) (f : VDesktop → VDesktop) : List VDesktop → List VDesktop
  | [] => []
  | d :: items => if d.id = id then f d :: items else d :: updateDesktop id f items

/-- The branch of `refresh` for an element that the cache has: `desktop_update`, then
`existing->valid = true`. -/
def refreshExisting (t : Target) (existing : VDesktop) (e : DesktopElement)
    (vd : IVirtualDesktop) (ordinal : Nat) : WMError × Target :=
  match fetchName e ordinal with
  -- no name: the record keeps its old interface, the new one is given back
  | none => (.outOfMemory, t.release vd)
  | some name =>
    (.ok, { t.release existing.iface with
      items := updateDesktop e.id (fun d => { d with iface := vd, name := name, valid := true })
        t.items })

/-- The branch of `refresh` for an element that the cache lacks: `wrap_desktop`, then
`push_desktop`. -/
def refreshNew (t : Target) (e : DesktopElement) (vd : IVirtualDesktop) (ordinal : Nat) :
    WMError × Target :=
  match wrapDesktop e vd ordinal with
  | none => (.outOfMemory, t.release vd)
  | some d =>
    if e.grown then (.ok, { t with items := t.items ++ [d] })
    else (.outOfMemory, t.release d.iface)

/-- The loop of `refresh`, from index `ordinal` on. -/
def refreshFrom (t : Target) : Nat → List DesktopElement → WMError × Target
  | _, [] => (.ok, t)
  | ordinal, e :: elements =>
    match e.vd with
    -- an element that cannot be read is passed over
    | none => refreshFrom t (ordinal + 1) elements
    | some vd =>
      let refreshed := match findDesktop t.items e.id with
        | some existing => refreshExisting t existing e vd ordinal
        | none => refreshNew t e vd ordinal
      -- the first failure ends the refresh, with what it has done so far left in place
      if refreshed.1 ≠ .ok then refreshed
      else refreshFrom refreshed.2 (ordinal + 1) elements

/-- `refresh`; `arr` is the array that `GetDesktops` gives, if it gives one. -/
def refresh (t : Target) (arr : Option (List DesktopElement)) : WMError × Target :=
  match arr with
  | none => (.unknown, t)
  | some elements => refreshFrom (resetCache t) 0 elements

/-- `win_get_vdesk` -/
def winGetVdesk (t : Target) (arr : Option (List DesktopElement)) : List VDesktop × Target :=
  let refreshed := refresh t arr
  -- `valid` is not looked at
  (if refreshed.1 = .ok then refreshed.2.items else [], refreshed.2)

/-- `win_vdesk_current`; `cur` is the id of the desktop that `GetCurrentDesktop` gives, if it
gives one, and `arr` what `GetDesktops` gives if the cache is refreshed. -/
def winVdeskCurrent (t : Target) (arr : Option (List DesktopElement)) (cur : Option GUID) :
    Option VDesktop × Target :=
  let filled := if t.items.length = 0 then refresh t arr else (.ok, t)
  if filled.1 ≠ .ok then (none, filled.2)
  else
    match cur with
    | none => (none, filled.2)
    | some id => (findDesktop filled.2.items id, filled.2)

/-- `win_vdesk_create`; `created` is the id of the desktop that `CreateDesktop` gives, if it
gives one, and `arr` what `GetDesktops` gives after that. The name goes to the OS. -/
def winVdeskCreate (t : Target) (created : Option GUID) (arr : Option (List DesktopElement)) :
    Option VDesktop × Target :=
  match created with
  | none => (none, t)
  | some id =>
    let refreshed := refresh t arr
    if refreshed.1 ≠ .ok then (none, refreshed.2)
    else (findDesktop refreshed.2.items id, refreshed.2)

/-- `win_vdesk_name` -/
def winVdeskName (d : Option VDesktop) : String := (d.map (·.name)).getD ""

/-- `WM_VDesktopChangeSource` -/
inductive VDesktopChangeSource where
  | managed
  | external
deriving DecidableEq, Repr

/-- The text of a source in the event. -/
def VDesktopChangeSource.text : VDesktopChangeSource → String
  | managed => "managed"
  | external => "external"

/-- `notify_vdesk_changed`: the event that it pushes; `registered` is whether there is an input
with the group of events, and `made` whether `mc_wm_event` gives an event. -/
def notifyVdeskChanged (registered made : Bool) (current : Option VDesktop)
    (source : VDesktopChangeSource) : Option WMEvent :=
  if !registered then none
  else if !made then none
  else
    let raw := Json.setObject.addStr (winVdeskName current) "desktop"
    some (.uniwm .vdesktopChanged (raw.addStr source.text "source"))

/-- `checked_vdesk` for the desktop at `d`; `none` is the error that it no longer
exists. -/
def checkedVdesk (t : Target) (arr : Option (List DesktopElement)) (d : Ptr) :
    Option Ptr × Target :=
  let span := winGetVdesk t arr
  (if span.1.any (·.addr = d) then some d else none, span.2)

/-- The check of `push_vdesk_ptr`: the pointer, if the span has it; `none` stands for `NULL`
and for `nil`. -/
def pushVdeskPtr (t : Target) (arr : Option (List DesktopElement)) (vdesk : Option Ptr) :
    Option Ptr × Target :=
  let span := winGetVdesk t arr
  (vdesk.filter fun d => span.1.any (·.addr = d), span.2)

/-- What the OS gives to a call of `l_vdesk_current`: an enumeration if the cache is empty, the
current desktop, and the enumeration for the span. -/
structure CurrentOutcome where
  arr : Option (List DesktopElement)
  cur : Option GUID
  span : Option (List DesktopElement)

/-- `l_vdesk_current` -/
def lVdeskCurrent (t : Target) (o : CurrentOutcome) : Option Ptr × Target :=
  let found := winVdeskCurrent t o.arr o.cur
  pushVdeskPtr found.2 o.span (found.1.map (·.addr))

/-- `l_vdesk_list`: the desktops that the table holds, in order. -/
def lVdeskList (t : Target) (arr : Option (List DesktopElement)) : List VDesktop × Target :=
  winGetVdesk t arr

end Uniwm
