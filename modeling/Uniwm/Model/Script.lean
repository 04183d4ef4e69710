import Uniwm.Model.System

/-!
# uniwm — what scripts do to the keyboard

The four functions of `libuniwm/src/input.c` that a script reaches through the bindings
(`wm_suppress_key`, `wm_unsuppress_key`, `wm_bind_key`, `wm_unbind_key`), as further steps
of the system. `enable_keyboard`, which two of them call first, sets up the input if need
be; its other effect, `input_wm.loop`, decides about nothing modelled here.
-/

namespace Uniwm

open Base

variable {keyMax : Nat}

/-- `enable_keyboard` -/
def enableKeyboard (s : Input keyMax) (wmInit groupOk : Bool) : WMError × Input keyMax :=
  wmInputEnsure s wmInit groupOk

/-- A step of the system, or a call of a script. -/
inductive ScriptStep where
  | system (st : Step)
  | suppressKey (combo : KeyCombo) (wmInit groupOk : Bool)
  | unsuppressKey (combo : KeyCombo)
  | bindKey (combo : KeyCombo) (cb ctx : Ptr) (wmInit groupOk : Bool)
  | unbindKey (combo : KeyCombo)

/-- The input after `wm_suppress_key`. -/
def Input.suppressKey (s : Input keyMax) (combo : KeyCombo) (wmInit groupOk : Bool) :
    Input keyMax :=
  let enabled := enableKeyboard s wmInit groupOk
  { enabled.2 with suppress := (wmSuppressKey enabled.2.suppress combo enabled.1).2 }

/-- The input after `wm_bind_key`. -/
def Input.bindKey (s : Input keyMax) (combo : KeyCombo) (cb ctx : Ptr) (wmInit groupOk : Bool) :
    Input keyMax :=
  let enabled := enableKeyboard s wmInit groupOk
  { enabled.2 with keybind := { enabled.2.keybind with
      table := (wmBindKey enabled.2.keybind.table combo cb ctx enabled.1).2 } }

/-- The input after `wm_unbind_key`. -/
def Input.unbindKey (s : Input keyMax) (combo : KeyCombo) : Input keyMax :=
  { s with keybind := { s.keybind with table := (wmUnbindKey s.keybind.table combo).2.2 } }

/-- The system after a step. -/
def ScriptStep.run (s : System keyMax) : ScriptStep → System keyMax
  | system st => (s.step st).1
  | suppressKey combo wmInit groupOk =>
    { s with input := s.input.suppressKey combo wmInit groupOk }
  | unsuppressKey combo =>
    { s with input := { s.input with suppress := (wmUnsuppressKey s.input.suppress combo).2 } }
  | bindKey combo cb ctx wmInit groupOk =>
    { s with input := s.input.bindKey combo cb ctx wmInit groupOk }
  | unbindKey combo => { s with input := s.input.unbindKey combo }

end Uniwm
