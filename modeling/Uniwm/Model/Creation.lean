import Uniwm.Model.Names

/-!
# uniwm — creating a desktop

`wm_vdesktop_create` of `libuniwm/src/wm.c`, with a target that can create desktops, down to
`win_vdesk_create` of `uniwm-windows/src/desktop_win.c`, and the desktops that the OS has.

* `CreateOutcome` has the outcome of every call. Where `CreateDesktop` fails the OS makes no
  desktop; the others neither make nor remove one.
* A `GetID` that fails leaves the id as it is. The created desktop's is zero before, and so is
  that of a new record, but the one that `refresh` looks up is not set: hence the two ids of a
  `ReadElement`.
-/

namespace Uniwm

/-- An element for which `wrap_desktop` may read another id than `refresh` looked up. -/
structure ReadElement extends DesktopElement where
  wrapped : GUID

/-- The loop of `refresh`, from index `ordinal` on. -/
def refreshReadFrom (t : Target) : Nat → List ReadElement → WMError × Target
  | _, [] => (.ok, t)
  | ordinal, e :: elements =>
    match e.vd with
    | none => refreshReadFrom t (ordinal + 1) elements
    | some vd =>
      let refreshed := match findDesktop t.items e.id with
        | some existing => refreshExisting t existing e.toDesktopElement vd ordinal
        | none => refreshNew t { e.toDesktopElement with id := e.wrapped } vd ordinal
      if refreshed.1 ≠ .ok then refreshed
      else refreshReadFrom refreshed.2 (ordinal + 1) elements

/-- `refresh` -/
def refreshRead (t : Target) (arr : Option (List ReadElement)) : WMError × Target :=
  match arr with
  | none => (.unknown, t)
  | some elements => refreshReadFrom (resetCache t) 0 elements

/-- A virtual desktop of the OS. -/
structure OsDesktop where
  id : GUID
  name : HString
deriving DecidableEq

/-- What `CreateDesktop` gives, whether `WindowsCreateString`, `SetDesktopName` and `GetID`
succeed, and what `GetDesktops` gives. -/
structure CreateOutcome where
  created : Option GUID
  made : Bool
  named : Bool
  idRead : Bool
  arr : Option (List ReadElement)

/-- What `wm_vdesktop_create` returns and leaves behind; `out` is what it writes to `*out`, if
it writes. -/
structure CreateResult where
  error : WMError
  desktops : List OsDesktop
  target : Target
  out : Option VDesktop

/-- `wm_vdesktop_create` -/
def wmVdesktopCreate (conv : Conversions) (desktops : List OsDesktop) (t : Target) (name : String)
    (o : CreateOutcome) : CreateResult :=
  match o.created with
  | none => ⟨.unknown, desktops, t, none⟩
  | some created =>
    let named := if o.named then nameSet conv name o.made else []
    let desktops := desktops ++ [⟨created, named⟩]
    let id := if o.idRead then created else 0
    let refreshed := refreshRead t o.arr
    -- the desktop has been made, whatever comes of it from here on
    if refreshed.1 ≠ .ok then ⟨.unknown, desktops, refreshed.2, none⟩
    else
      match findDesktop refreshed.2.items id with
      | none => ⟨.unknown, desktops, refreshed.2, none⟩
      | some d => ⟨.ok, desktops, refreshed.2, some d⟩

end Uniwm
