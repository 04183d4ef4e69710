import Uniwm.Model.Session

/-!
# uniwm — the layout of config.lua

`layout_vdesk` of `config.lua`, the script that a worker runs if it is given no other: it puts
the windows of the current desktop side by side. `filter` and `list` are the two helpers that it
uses.

* A table is its entries. `pairs` gives them in an order of its own, and each time in another one
  if it likes; `ipairs` goes through a list.
* The methods of a window are the mc library's: what they answer, and whether they raise an
  error, is in `LayoutGiven`. What is printed is left out, but not that a title is asked for.
-/

namespace Uniwm

/-- A Lua table with windows in it. -/
abbrev WindowTable := List (Int × WindowRef)

/-- What is not the script's: the order of `pairs`, the methods of windows, and the work area. -/
structure LayoutGiven where
  pairs : WindowTable → WindowTable
  /-- `is_system`, unless it raises an error -/
  isSystem : WindowRef → Option Bool
  /-- `get_title` raises no error -/
  titled : WindowRef → Bool
  /-- `set_state` raises no error -/
  stateSet : WindowRef → Bool

/-- The rectangle that `set_rect` is given. -/
structure Tile where
  x : Nat
  y : Nat
  width : Nat
  height : Nat
deriving DecidableEq, Repr

/-- A call that changes a window. -/
inductive LayoutCall where
  | setState (window : WindowRef)
  | setRect (window : WindowRef) (tile : Tile)
deriving DecidableEq

/-- `filter` with the predicate `not w:is_system()`, for the entries in the order of `pairs`. -/
def filterWindows (g : LayoutGiven) : WindowTable → Option WindowTable
  | [] => some []
  | (k, w) :: rest =>
    match g.isSystem w with
    | none => none
    | some system =>
      (filterWindows g rest).map fun res => if system then res else (k, w) :: res

/-- `list` -/
def listWindows (g : LayoutGiven) (tab : WindowTable) : List WindowRef := (g.pairs tab).map (·.2)

/-- The body of the last loop of `layout_vdesk`, for the window after `i` others. The `pcall`
ends at the first error. -/
def placeTile (g : LayoutGiven) (width : Nat) (size : Size2U) (w : WindowRef) (i : Nat) :
    List LayoutCall :=
  .setState w :: if g.stateSet w then [.setRect w ⟨i * width, 0, width, size.height.toNat⟩] else []

/-- `layout_vdesk`, for what `windows()` and `size()` of the desktop return: the calls that
change windows, unless an error is raised before any of them. -/
def layoutVdesk (g : LayoutGiven) (windows : WindowTable) (size : Option Size2U) :
    Option (List LayoutCall) :=
  match filterWindows g (g.pairs windows) with
  | none => none
  | some kept =>
    let windows := listWindows g kept
    if windows.length = 0 then some []
    else if !windows.all g.titled then none
    else
      match size with
      | none => none
      | some size =>
        -- of a division of numbers below 2 ^ 32 as doubles, `math.floor` gives the quotient
        let width := size.width.toNat / windows.length
        some (windows.zipIdx.flatMap fun p => placeTile g width size p.1 p.2)

end Uniwm
