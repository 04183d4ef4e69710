import Uniwm.Model.Ownership
import Uniwm.Model.System

/-!
# uniwm — the life of a target

`wm_init`, `wm_fini`, `wm_process` and `wm_process_fini` of `libuniwm/src/wm.c` with the target of
`uniwm-windows/src/desktop_win.c` (`win_init`, `win_destroy`), and the functions of the target
that are handed something for as long as they run.

* `Resource` is what is handed out apart from what the cache accounts for itself: the memory of
  the target, the COM apartment, interfaces and strings.
* A COM call that succeeds gives an interface, one that fails gives none.
* `account`, the accounts of `cache` and `uninitialized` are ghosts. `uninitialized` has for each
  call of `CoUninitialize` the number of interfaces that were then still held.
* The hooks, and the vector that has the records, are left out here.
-/

namespace Uniwm

open Base

/-- What a target is handed. -/
inductive Resource where
  | memory (addr : Ptr)
  | apartment
  | interface (this : Ptr)
  | string (hs : Ptr)
deriving DecidableEq, Repr

def Resource.isInterface : Resource → Bool
  | interface _ => true
  | _ => false

/-- A `WM_Target` without its cache. -/
structure WMTarget where
  addr : Ptr
  sp : Ptr
  vdmi : Ptr
  vdm : Option Ptr
  avc : Option Ptr
deriving DecidableEq, Repr

/-- `default_ti` and `process_wm`, the latter while `process_ready` is set, with the accounts. -/
structure TargetLife where
  defaultTi : Option TargetInterface
  processWm : Option WMTarget
  account : Account Resource
  cache : OwnedTarget
  uninitialized : List Nat

/-- What the calls made by `win_init` give. -/
structure InitOutcome where
  alloc : Option Ptr
  coInitialize : Bool
  sp : Option Ptr
  vdmi : Option Ptr
  vdm : Option Ptr
  avc : Option Ptr

/-- What the calls made by `win_vdesk_create` give: the desktop, the string for its name, and the
enumeration. -/
structure CreateGiven where
  created : Option Ptr
  string : Option Ptr
  arr : Option (Ptr × List OwnedElement)

namespace TargetLife

def init : TargetLife := ⟨none, none, Account.empty, OwnedTarget.init, []⟩

def take (s : TargetLife) (r : Resource) : TargetLife := { s with account := s.account.take r }

def giveBack (s : TargetLife) (r : Resource) : TargetLife :=
  { s with account := s.account.giveBack r }

/-- An interface that is there or not is taken. -/
def takeIfAny (s : TargetLife) (this : Option Ptr) : TargetLife :=
  match this with
  | none => s
  | some this => s.take (.interface this)

/-- An interface is released unless it is `NULL`. -/
def releaseIfAny (s : TargetLife) (this : Option Ptr) : TargetLife :=
  match this with
  | none => s
  | some this => s.giveBack (.interface this)

/-- Something that is handed out and given back in the same function. -/
def passIfAny (s : TargetLife) (r : Ptr → Resource) (p : Option Ptr) : TargetLife :=
  match p with
  | none => s
  | some p => (s.take (r p)).giveBack (r p)

/-- How many interfaces are held. -/
def interfacesOut (s : TargetLife) : Nat :=
  (s.account.taken.countP Resource.isInterface - s.account.returned.countP Resource.isInterface) +
    (s.cache.ifaces.taken.length - s.cache.ifaces.returned.length) +
    (s.cache.arrays.taken.length - s.cache.arrays.returned.length)

/-- `CoUninitialize` -/
def coUninit (s : TargetLife) : TargetLife :=
  { s.giveBack .apartment with uninitialized := s.uninitialized ++ [s.interfacesOut] }

/-- `win_init` -/
def winInit (s : TargetLife) (o : InitOutcome) : WMError × Option WMTarget × TargetLife :=
  match o.alloc with
  | none => (.outOfMemory, none, s)
  | some addr =>
    let s := s.take (.memory addr)
    if !o.coInitialize then (.unknown, none, s.giveBack (.memory addr))
    else
      let s := s.take .apartment
      match o.sp with
      | none => (.unknown, none, s.coUninit.giveBack (.memory addr))
      | some sp =>
        let s := s.take (.interface sp)
        match o.vdmi with
        | none =>
          let s := s.giveBack (.interface sp)
          (.unknown, none, s.coUninit.giveBack (.memory addr))
        | some vdmi =>
          let s := s.take (.interface vdmi)
          -- the target does without these two
          let s := (s.takeIfAny o.vdm).takeIfAny o.avc
          (.ok, some ⟨addr, sp, vdmi, o.vdm, o.avc⟩, s)

/-- `win_destroy` -/
def winDestroy (s : TargetLife) (t : WMTarget) : TargetLife :=
  let s := { s with cache := s.cache.winDestroy }
  let s := (s.releaseIfAny t.avc).releaseIfAny t.vdm
  let s := (s.giveBack (.interface t.vdmi)).giveBack (.interface t.sp)
  s.coUninit.giveBack (.memory t.addr)

/-- `wm_process` -/
def wmProcess (s : TargetLife) (o : InitOutcome) : TargetLife :=
  match s.processWm with
  | some _ => s
  | none =>
    match s.defaultTi with
    | none => s
    | some _ =>
      let made := s.winInit o
      if made.1 ≠ .ok then made.2.2 else { made.2.2 with processWm := made.2.1 }

/-- `wm_process_fini` -/
def wmProcessFini (s : TargetLife) : TargetLife :=
  match s.processWm with
  | none => s
  | some t => { s.winDestroy t with processWm := none }

/-- `win_get_vdesk` -/
def winGetVdesk (s : TargetLife) (arr : Option (Ptr × List OwnedElement)) : TargetLife :=
  { s with cache := (s.cache.refresh arr).2 }

/-- `win_vdesk_create` -/
def winVdeskCreate (s : TargetLife) (o : CreateGiven) : TargetLife :=
  match o.created with
  | none => s
  | some vd =>
    let s := s.take (.interface vd)
    let s := s.passIfAny .string o.string
    (s.giveBack (.interface vd)).winGetVdesk o.arr

/-- `win_vdesk_current` -/
def winVdeskCurrent (s : TargetLife) (arr : Option (Ptr × List OwnedElement))
    (cur : Option Ptr) : TargetLife :=
  let filled := if s.cache.items.length = 0 then s.cache.refresh arr else (.ok, s.cache)
  let s := { s with cache := filled.2 }
  if filled.1 ≠ .ok then s else s.passIfAny .interface cur

/-- `win_vdesk_windows`, with `vdesk_is_current` -/
def winVdeskWindows (s : TargetLife) (t : WMTarget) (cur : Option Ptr) : TargetLife :=
  if t.vdm = none then s else s.passIfAny .interface cur

/-- `win_vdesk_move_window` -/
def winVdeskMoveWindow (s : TargetLife) (t : WMTarget) (view : Option Ptr) : TargetLife :=
  if t.avc = none then s else s.passIfAny .interface view

end TargetLife

/-- A call of `wm_process` or `wm_process_fini`, or a use of the target if there is one. -/
inductive LifeStep where
  | setDefault (ti : Option TargetInterface)
  | process (o : InitOutcome)
  | fini
  | getVdesk (arr : Option (Ptr × List OwnedElement))
  | create (o : CreateGiven)
  | current (arr : Option (Ptr × List OwnedElement)) (cur : Option Ptr)
  | windows (cur : Option Ptr)
  | moveWindow (view : Option Ptr)

/-- What a use of the target `t` does. -/
def LifeStep.use (s : TargetLife) (t : WMTarget) : LifeStep → TargetLife
  | getVdesk arr => s.winGetVdesk arr
  | create o => s.winVdeskCreate o
  | current arr cur => s.winVdeskCurrent arr cur
  | windows cur => s.winVdeskWindows t cur
  | moveWindow view => s.winVdeskMoveWindow t view
  | setDefault _ => s
  | process _ => s
  | fini => s

/-- One step. -/
def TargetLife.step (s : TargetLife) (st : LifeStep) : TargetLife × Unit :=
  (match st with
    | .setDefault ti => { s with defaultTi := ti }
    | .process o => s.wmProcess o
    | .fini => s.wmProcessFini
    -- without a target `current_wm` raises its error
    | st => s.processWm.elim s (st.use s), ())

end Uniwm
