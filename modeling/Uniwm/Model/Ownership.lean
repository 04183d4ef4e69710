import Uniwm.Base.Account
import Uniwm.Model.Desktops

/-!
# uniwm — what the cache of virtual desktops owns

The functions of `Uniwm.Model.Desktops` once more, with everything that they are handed and
give back: the references that `GetAt` gives, the names made by `mc_string`, the records made
by `mc_alloc` and the object array; and the end of the cache, `win_destroy`.

The accounts are ghosts. `OwnedTarget.toTarget` forgets all but the cache and the releases.
-/

namespace Uniwm

open Base

/-- A `WM_VDesktop` with the address of its name. -/
structure OwnedDesktop where
  desktop : VDesktop
  nameAt : Ptr

/-- An element of the array, with the address at which `mc_string` puts its name. -/
structure OwnedElement where
  element : DesktopElement
  nameAt : Ptr

/-- A `WM_Target` with its accounts. -/
structure OwnedTarget where
  items : List OwnedDesktop
  ifaces : Account IVirtualDesktop
  names : Account Ptr
  records : Account Ptr
  arrays : Account Ptr

namespace OwnedTarget

def init : OwnedTarget := ⟨[], Account.empty, Account.empty, Account.empty, Account.empty⟩

/-- `vd->lpVtbl->Release(vd)` -/
def release (t : OwnedTarget) (vd : IVirtualDesktop) : OwnedTarget :=
  { t with ifaces := t.ifaces.giveBack vd }

/-- `fetch_name`: a name takes memory if there is any. -/
def fetchName (t : OwnedTarget) (e : OwnedElement) (ordinal : Nat) :
    Option String × OwnedTarget :=
  match Uniwm.fetchName e.element ordinal with
  | none => (none, t)
  | some name => (some name, { t with names := t.names.take e.nameAt })

/-- `wrap_desktop` -/
def wrapDesktop (t : OwnedTarget) (e : OwnedElement) (iface : IVirtualDesktop) (ordinal : Nat) :
    Option OwnedDesktop × OwnedTarget :=
  match e.element.addr with
  | none => (none, t)
  | some addr =>
    let t := { t with records := t.records.take addr }
    let fetched := t.fetchName e ordinal
    match fetched.1 with
    | none => (none, { fetched.2 with records := fetched.2.records.giveBack addr })
    | some name => (some ⟨⟨addr, iface, e.element.id, name, true⟩, e.nameAt⟩, fetched.2)

/-- Write through the pointer that `find_desktop` gives. -/
def updateItems (id : GUID) (f : OwnedDesktop → OwnedDesktop) :
    List OwnedDesktop → List OwnedDesktop
  | [] => []
  | d :: items => if d.desktop.id = id then f d :: items else d :: updateItems id f items

/-- `desktop_update`, and `existing->valid = true` when it succeeds. -/
def desktopUpdate (t : OwnedTarget) (d : OwnedDesktop) (e : OwnedElement)
    (iface : IVirtualDesktop) (ordinal : Nat) : WMError × OwnedTarget :=
  let fetched := t.fetchName e ordinal
  match fetched.1 with
  | none => (.outOfMemory, fetched.2)
  | some name =>
    let t := fetched.2.release d.desktop.iface
    (.ok, { t with
      names := t.names.giveBack d.nameAt
      items := updateItems e.element.id (fun d =>
        ⟨{ d.desktop with iface := iface, name := name, valid := true }, e.nameAt⟩) t.items })

/-- `destroy_desktop`; the interface of a record is never `NULL`. -/
def destroyDesktop (t : OwnedTarget) (d : OwnedDesktop) : OwnedTarget :=
  let t := t.release d.desktop.iface
  { t with names := t.names.giveBack d.nameAt, records := t.records.giveBack d.desktop.addr }

/-- `reset_cache` -/
def resetCache (t : OwnedTarget) : OwnedTarget :=
  { t with items := t.items.map fun d => ⟨{ d.desktop with valid := false }, d.nameAt⟩ }

/-- `find_desktop` -/
def findDesktop (t : OwnedTarget) (id : GUID) : Option OwnedDesktop :=
  t.items.find? (·.desktop.id = id)

/-- The branch of `refresh` for an element that the cache has. -/
def refreshExisting (t : OwnedTarget) (existing : OwnedDesktop) (e : OwnedElement)
    (vd : IVirtualDesktop) (ordinal : Nat) : WMError × OwnedTarget :=
  let updated := t.desktopUpdate existing e vd ordinal
  if updated.1 ≠ .ok then (.outOfMemory, updated.2.release vd) else updated

/-- The branch of `refresh` for an element that the cache lacks. -/
def refreshNew (t : OwnedTarget) (e : OwnedElement) (vd : IVirtualDesktop) (ordinal : Nat) :
    WMError × OwnedTarget :=
  let wrapped := t.wrapDesktop e vd ordinal
  match wrapped.1 with
  | none => (.outOfMemory, wrapped.2.release vd)
  | some d =>
    -- `push_desktop`; when it fails the record goes, and with it the interface
    if e.element.grown then (.ok, { wrapped.2 with items := wrapped.2.items ++ [d] })
    else (.outOfMemory, wrapped.2.destroyDesktop d)

/-- The loop of `refresh`, from index `ordinal` on. -/
def refreshFrom (t : OwnedTarget) : Nat → List OwnedElement → WMError × OwnedTarget
  | _, [] => (.ok, t)
  | ordinal, e :: elements =>
    match e.element.vd with
    | none => refreshFrom t (ordinal + 1) elements
    | some vd =>
      let t := { t with ifaces := t.ifaces.take vd }
      let refreshed := match t.findDesktop e.element.id with
        | some existing => t.refreshExisting existing e vd ordinal
        | none => t.refreshNew e vd ordinal
      if refreshed.1 ≠ .ok then refreshed
      else refreshFrom refreshed.2 (ordinal + 1) elements

/-- `refresh`; `arr` is the array that `GetDesktops` gives, if it gives one. Every way out
after that releases it. -/
def refresh (t : OwnedTarget) (arr : Option (Ptr × List OwnedElement)) : WMError × OwnedTarget :=
  match arr with
  | none => (.unknown, t)
  | some (arr, elements) =>
    let refreshed := refreshFrom { t with arrays := t.arrays.take arr }.resetCache 0 elements
    (refreshed.1, { refreshed.2 with arrays := refreshed.2.arrays.giveBack arr })

/-- `win_destroy`, as far as it concerns the cache. -/
def winDestroy (t : OwnedTarget) : OwnedTarget :=
  { t.items.foldl destroyDesktop t with items := [] }

/-- The cache and the interfaces released. -/
def toTarget (t : OwnedTarget) : Target := ⟨t.items.map (·.desktop), t.ifaces.returned⟩

end OwnedTarget

end Uniwm
