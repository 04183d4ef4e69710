import Uniwm.Base.Account
import Uniwm.Model.Keys

/-!
# uniwm — keybinds of Lua functions

`l_register_keybind` and `l_unregister_keybind` of `libuniwm-lua/src/uniwm-lua.c`. The
context of such a keybind is a `LuaCallback` record in allocated memory, which refers to its
function through the Lua registry; `luaCallbackFree` gives back both.

* `mc_alloc` and `luaL_ref` hand out an address or number that is not in use (`Supply`);
  freed ones may come again. `NULL` is never handed out.
* A spec comes with what `wm_key_combo_from_str` makes of it.
* `records` is a ghost: the addresses given by `mc_alloc` and passed to `mc_free`.
-/

namespace Uniwm

open Base

/-- A Lua function value. -/
abbrev LuaFunction := Nat

/-- A number given by `luaL_ref`. -/
abbrev LuaRef := Nat

/-- A `LuaCallback` and its address; `L` is the `lua_State *`. -/
structure LuaCallback where
  addr : Ptr
  L : Ptr
  ref : LuaRef
deriving DecidableEq, Repr

/-- The keybind table, the `LuaCallback` records that are allocated, and the functions
referred to in the Lua registry. -/
structure LuaKeys where
  table : KeybindTable
  callbacks : List LuaCallback
  registry : List (LuaRef × LuaFunction)
  records : Account Ptr

def LuaKeys.init : LuaKeys := ⟨KeybindTable.empty, [], [], Account.empty⟩

/-- `lua_callback_free` -/
def luaCallbackFree (s : LuaKeys) (k : Ptr) : LuaKeys :=
  match s.callbacks.find? (·.addr = k) with
  -- no such record: only the `mc_free` shows
  | none => { s with records := s.records.giveBack k }
  | some c =>
    { s with callbacks := s.callbacks.eraseP (·.addr = k)
             registry := s.registry.eraseP (·.1 = c.ref)
             records := s.records.giveBack k }

/-- The address of `keybind_cb`; of such an address only that it is not `NULL` matters. -/
abbrev keybindCb : Ptr := 1

/-- What the calls made by `l_register_keybind` give: whether `current_wm` finds a window
manager, `mc_alloc` (if it succeeds), `luaL_ref` and `enable_keyboard`. -/
structure RegisterOutcome where
  wm : Bool
  alloc : Option (Supply Ptr)
  ref : Supply LuaRef
  keyboard : WMError

/-- The error of `current_wm`. -/
def noWindowManager : String := "uniwm: no window manager available for this process"

/-- `wm_unbind_key`, and `lua_callback_free` of the context it hands back. -/
def dropKeybind (s : LuaKeys) (combo : KeyCombo) : LuaKeys :=
  let unbound := wmUnbindKey s.table combo
  let s := { s with table := unbound.2.2 }
  if unbound.2.1 ≠ 0 then luaCallbackFree s unbound.2.1 else s

/-- A record at `k`, filled with `L` and a reference to `f`. -/
def LuaKeys.newCallback (s : LuaKeys) (k L : Ptr) (ref : LuaRef) (f : LuaFunction) : LuaKeys :=
  { s with callbacks := s.callbacks ++ [⟨k, L, ref⟩]
           registry := s.registry ++ [(ref, f)]
           records := s.records.take k }

/-- `l_register_keybind`: the error that it raises, if it does, and the state it leaves. -/
def lRegisterKeybind (s : LuaKeys) (L : Ptr) (spec : String) (combo : Option KeyCombo)
    (f : LuaFunction) (o : RegisterOutcome) : Option String × LuaKeys :=
  match combo with
  | none => (some ("uniwm.register_keybind: invalid key spec \"" ++ spec ++ "\""), s)
  | some combo =>
    if !o.wm then (some noWindowManager, s)
    else
      -- the old keybind is gone whatever becomes of the new one
      let s := dropKeybind s combo
      match o.alloc with
      | none => (some "uniwm.register_keybind: out of memory", s)
      | some alloc =>
        let k := alloc.pick (0 :: s.callbacks.map (·.addr))
        let s := s.newCallback k L (o.ref.pick (s.registry.map (·.1))) f
        let bound := wmBindKey s.table combo keybindCb k o.keyboard
        let s := { s with table := bound.2 }
        if bound.1 ≠ .ok then (some "uniwm.register_keybind: failed", luaCallbackFree s k)
        else (none, s)

/-- `l_unregister_keybind`; `wm` tells whether `current_wm` finds a window manager. -/
def lUnregisterKeybind (s : LuaKeys) (spec : String) (combo : Option KeyCombo) (wm : Bool) :
    Option String × LuaKeys :=
  match combo with
  | none => (some ("uniwm.unregister_keybind: invalid key spec \"" ++ spec ++ "\""), s)
  | some combo => if !wm then (some noWindowManager, s) else (none, dropKeybind s combo)

/-- The function that `keybind_cb` fetches for `ctx`. -/
def keybindFunction (s : LuaKeys) (ctx : Ptr) : Option LuaFunction := do
  let k ← s.callbacks.find? (·.addr = ctx)
  let slot ← s.registry.find? (·.1 = k.ref)
  return slot.2

/-- A call of a script with a valid spec. -/
inductive KeybindCall where
  | register (L : Ptr) (spec : String) (combo : KeyCombo) (f : LuaFunction) (o : RegisterOutcome)
  | unregister (spec : String) (combo : KeyCombo) (wm : Bool)

/-- The keybinds as a machine that answers with the error raised. -/
def LuaKeys.step (s : LuaKeys) : KeybindCall → LuaKeys × Option String
  | .register L spec combo f o => (lRegisterKeybind s L spec (some combo) f o).swap
  | .unregister spec combo wm => (lUnregisterKeybind s spec (some combo) wm).swap

end Uniwm
