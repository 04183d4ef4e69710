import Uniwm.Model.Script
import Uniwm.Model.Supervisor

/-!
# uniwm — the worker

`parse_script` and `run_worker` of `uniwm/src/main.c`: which script is run, and what becomes of
the process after it. `argv[0]` is left out, as in `Uniwm.Model.Supervisor`.

* The script is the calls that it makes on the system, with what is delivered while it runs,
  and whether it can be loaded and ends without an error.
* `WorkerState` is the system with the flag `input_wm.loop`, which `enable_keyboard` sets.
* The loop of `run_worker` has no exit, so it is only said that it is entered: what happens in
  it are steps of the same machine.
-/

namespace Uniwm

open Base

/-- `"-c"` -/
def scriptFlag : Argument := [45, 99]

/-- `"config.lua"` -/
def defaultScript : Argument := [99, 111, 110, 102, 105, 103, 46, 108, 117, 97]

/-- `parse_script`: what follows the first `-c`, unless that is the last argument. -/
def parseScript : List Argument → Argument
  | flag :: path :: argv => if flag = scriptFlag then path else parseScript (path :: argv)
  | _ => defaultScript

/-- The statics of a worker. -/
structure WorkerState (keyMax : Nat) where
  system : System keyMax
  /-- `input_wm.loop` -/
  loop : Bool

variable {keyMax : Nat}

/-- The step calls `enable_keyboard`, which returns OK. -/
def ScriptStep.enables (s : System keyMax) : ScriptStep → Bool
  | .suppressKey _ wmInit groupOk => (enableKeyboard s.input wmInit groupOk).1 = .ok
  -- a callback that is `NULL` is turned away before
  | .bindKey _ cb _ wmInit groupOk => cb ≠ 0 && (enableKeyboard s.input wmInit groupOk).1 = .ok
  | _ => false

/-- A step of a worker, or of its script. -/
def WorkerState.step (w : WorkerState keyMax) (c : ScriptStep) : WorkerState keyMax × Unit :=
  (⟨c.run w.system, w.loop || c.enables w.system⟩, ())

/-- `wm_should_run` -/
def wmShouldRun (w : WorkerState keyMax) : Bool := w.loop || w.system.input.watch.active

/-- What the calls made by `run_worker` give. -/
structure WorkerOutcome where
  /-- `wm_input_ensure` in `wm_set_default` -/
  wmInit : Bool
  groupOk : Bool
  ensure : EnsureOutcome
  /-- `luaL_newstate` -/
  lua : Bool
  script : List ScriptStep
  /-- `luaL_loadfile` and `lua_pcall` give `LUA_OK` -/
  loaded : Bool

/-- How `run_worker` ends. -/
inductive WorkerEnd where
  | loops
  | returns (status : Int)
deriving DecidableEq

/-- `run_worker`, up to its loop. -/
def runWorker (keyMax : Nat) (o : WorkerOutcome) : WorkerState keyMax × WorkerEnd :=
  let w : WorkerState keyMax :=
    ⟨(wmSetDefault (System.init keyMax) (some .windows) o.wmInit o.groupOk o.ensure).2, false⟩
  -- without Lua the target is not shut down
  if !o.lua then (w, .returns 1)
  else
    let w := final WorkerState.step w o.script
    if o.loaded && wmShouldRun w then (w, .loops)
    else
      ({ w with system := wmProcessFini w.system }, .returns (if o.loaded then 0 else 1))

end Uniwm
