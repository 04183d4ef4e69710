import Uniwm.Base.Machine
import Uniwm.Model.Bindings

/-!
# uniwm — keybinds that run Lua functions

`process_keybinds` of `libuniwm/src/input.c` once more, over keybinds whose callback is
`keybind_cb` of `libuniwm-lua/src/uniwm-lua.c`: it fetches the function of a `LuaCallback`
and calls it. The function may register and unregister keybinds while it runs, its own among
them; then the record is freed before `keybind_cb` is done with it.

* `FunctionRun` gives what a function does: the keybind calls it makes, with what they give,
  and whether it raises an error. `Functions` gives this for the functions that the press in
  hand has run so far, the last of them being the one to run.
* `keybind_cb` reads its record to fetch the function, and if the function raises an error it
  reads it again to take the message off the stack (`CallbackRun.reads`).
* What a read of freed memory gives is not defined; here there is no function then.
-/

namespace Uniwm

open Base

/-- What a Lua function does when it is called. -/
structure FunctionRun where
  calls : List KeybindCall
  raises : Bool

/-- The functions of a script. -/
abbrev Functions := List LuaFunction → FunctionRun

/-- Functions that make no keybind calls. -/
def Functions.Quiet (fns : Functions) : Prop := ∀ ran, (fns ran).calls = []

/-- A call of `keybind_cb`: the entry whose context it gets, the state that it finds, the
function that it fetches and what this does. -/
structure CallbackRun where
  entry : Keybind
  before : LuaKeys
  function : Option LuaFunction
  run : FunctionRun

/-- The state that the function leaves. -/
def CallbackRun.after (r : CallbackRun) : LuaKeys := final LuaKeys.step r.before r.run.calls

/-- The states in which `keybind_cb` reads its record. -/
def CallbackRun.reads (r : CallbackRun) : List LuaKeys :=
  r.before :: if r.run.raises then [r.after] else []

/-- The record at the address is allocated. -/
def LuaKeys.Live (s : LuaKeys) (k : Ptr) : Prop := k ∈ s.callbacks.map (·.addr)

instance (s : LuaKeys) : DecidablePred s.Live := fun k =>
  inferInstanceAs (Decidable (k ∈ s.callbacks.map (·.addr)))

/-- `keybind_cb`, called for the entry `e`. -/
def callKeybindCb (fns : Functions) (s : LuaKeys) (e : Keybind) (ran : List LuaFunction) :
    CallbackRun :=
  match keybindFunction s e.ctx with
  | none => ⟨e, s, none, ⟨[], false⟩⟩
  | some f => ⟨e, s, some f, fns (ran ++ [f])⟩

/-- The firing loop of `process_keybinds` from slot `i`, with the functions already run for
this press. `fuel` is as in `fireFrom`. -/
def fireFunctions {keyMax : Nat} (fns : Functions) (key : MCKey) (best : Nat)
    (down : Vector Bool keyMax) : Nat → Nat → LuaKeys → List LuaFunction →
    LuaKeys × List CallbackRun
  | 0, _, s, _ => (s, [])
  | fuel + 1, i, s, ran =>
    match s.table.binds.get? i with
    | none => (s, [])
    | some e =>
      if firesFor key best down e then
        let r := callKeybindCb fns s e ran
        -- the walk goes on in the table that the function leaves
        let rest := fireFunctions fns key best down fuel (i + 1) r.after
          (ran ++ r.function.toList)
        (rest.1, r :: rest.2)
      else fireFunctions fns key best down fuel (i + 1) s ran

/-- The keybinds of a script with the keys that are held. -/
structure ScriptKeys (keyMax : Nat) where
  keys : LuaKeys
  down : Vector Bool keyMax

def ScriptKeys.init (keyMax : Nat) : ScriptKeys keyMax :=
  ⟨LuaKeys.init, Vector.replicate keyMax false⟩

/-- `process_keybinds` once the event is known to be a keyboard event. -/
def pressKey {keyMax : Nat} (fns : Functions) (s : ScriptKeys keyMax) (key : MCKey)
    (down : Bool) : ScriptKeys keyMax × List CallbackRun :=
  let wasDown := flag s.down key
  let held := setFlag s.down key down
  if !down || wasDown then (⟨s.keys, held⟩, [])
  else
    let best := bestCount key held s.keys.table.entries
    let fired := fireFunctions fns key best held keybindMax 0 s.keys []
    (⟨fired.1, held⟩, fired.2)

/-- A call of the script outside its keybinds, or a keyboard event that is handled. -/
inductive ScriptKeyStep where
  | call (c : KeybindCall)
  | key (key : MCKey) (down : Bool) (fns : Functions)

/-- The keybinds of a script as a machine that answers with the callbacks run. -/
def ScriptKeys.step {keyMax : Nat} (s : ScriptKeys keyMax) :
    ScriptKeyStep → ScriptKeys keyMax × List CallbackRun
  | .call c => (⟨(s.keys.step c).1, s.down⟩, [])
  | .key key down fns => pressKey fns s key down

end Uniwm
