import Mathlib.Logic.Function.Basic
import Uniwm.Model.Keys

/-!
# uniwm — the keybinds as an array and an int

`Uniwm.Model.Keys` keeps the bindings in slots whose count cannot leave the array. Here is the
same code without that: `binds` holds something at every index, also outside the array, and
`count` is an `int`. The firing loop is a machine of single steps, in which the calls of a
running callback are steps too.

`Represents` says when such an array is one of the tables of `Uniwm.Model.Keys`.
-/

namespace Uniwm

open Base

/-- The fields `binds` and `count` of the static `keybind`; `made` is the number of the next
call that stores. -/
structure KeybindArray where
  binds : Int → Keybind
  count : Int
  made : Nat

/-- Static storage starts zeroed. -/
def KeybindArray.empty : KeybindArray := ⟨fun _ => default, 0, 0⟩

namespace KeybindArray

/-- The entries below `count`, in order. -/
def entries (a : KeybindArray) : List Keybind :=
  (List.range a.count.toNat).map fun i : Nat => a.binds i

/-- `wm_bind_key`; `keyboard` is what `enable_keyboard` returns. -/
def bindKey (a : KeybindArray) (combo : KeyCombo) (cb ctx : Ptr) (keyboard : WMError) :
    WMError × KeybindArray :=
  if cb = 0 then (.invalidArgument, a)
  else if keyboard ≠ .ok then (keyboard, a)
  else if a.count ≥ keybindMax then (.outOfMemory, a)
  else
    (.ok,
      { binds := Function.update a.binds a.count ⟨combo, cb, ctx, a.made⟩
        count := a.count + 1
        made := a.made + 1 })

/-- `wm_unbind_key` -/
def unbindKey (a : KeybindArray) (combo : KeyCombo) : WMError × Ptr × KeybindArray :=
  match a.entries.findIdx? fun e => comboEq e.combo combo with
  | none => (.ok, 0, a)
  | some j =>
    (.ok, (a.binds j).ctx,
      -- `--keybind.count`, and the entry that it uncovers
      { a with binds := Function.update a.binds j (a.binds (a.count - 1)), count := a.count - 1 })

/-- The array after one call. -/
def run (a : KeybindArray) : BindCall → KeybindArray
  | .bind combo cb ctx keyboard => (a.bindKey combo cb ctx keyboard).2
  | .unbind combo => (a.unbindKey combo).2.2

/-- The test of the firing loop for a press of `key`; `held` is `keybind.down` with the key in. -/
def fires {keyMax : Nat} (a : KeybindArray) (key : MCKey) (held : Vector Bool keyMax) :
    Keybind → Bool :=
  firesFor key (bestCount key held a.entries) held

/-- `count` is from 0 to `KEYBIND_MAX`. -/
def Valid (a : KeybindArray) : Prop := 0 ≤ a.count ∧ a.count ≤ keybindMax

end KeybindArray

/-- Where the firing loop of `process_keybinds` stands. -/
structure FiringLoop where
  slot : Int
  /-- the calls that the running callback has still to make -/
  running : Option (List BindCall)
  keys : KeybindArray
  /-- the bindings run so far -/
  ran : List Keybind

/-- The slot that the loop reads in its next step. -/
def FiringLoop.reads (l : FiringLoop) : Option Int :=
  match l.running with
  | some _ => none
  | none => if l.slot < l.keys.count then some l.slot else none

/-- One step of the firing loop; `none` when it has ended. `fires` is the test of its body. -/
def FiringLoop.step (cbs : Callbacks) (fires : Keybind → Bool) (l : FiringLoop) :
    Option FiringLoop :=
  match l.running with
  | some (call :: calls) => some { l with running := some calls, keys := l.keys.run call }
  -- the callback returns
  | some [] => some { l with running := none, slot := l.slot + 1 }
  | none =>
    if l.slot < l.keys.count then
      let e := l.keys.binds l.slot
      if fires e then
        some { l with running := some (cbs (l.ran ++ [e])), ran := l.ran ++ [e] }
      else some { l with slot := l.slot + 1 }
    else none

/-- The loop before its first test. -/
def FiringLoop.start (a : KeybindArray) : FiringLoop := ⟨0, none, a, []⟩

/-- The array holds the entries of the table. -/
structure Represents (a : KeybindArray) (t : KeybindTable) : Prop where
  entries : a.entries = t.entries
  nonneg : 0 ≤ a.count
  made : a.made = t.made

end Uniwm
