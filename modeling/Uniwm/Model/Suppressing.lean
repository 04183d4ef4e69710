import Uniwm.Model.Bindings
import Uniwm.Model.Combos

/-!
# uniwm — combos that a script suppresses

`l_supress_key` and `l_unsupress_key` of `libuniwm-lua/src/uniwm-lua.c`, from the spec that the
script gives down to the table that the keyboard hook consults.

* `wm` tells whether `current_wm` finds a window manager, `keyboard` what `enable_keyboard`
  returns.
* A message is given in bytes, since it quotes the spec as it is.
-/

namespace Uniwm

open Base

variable {keyMax : Nat}

/-- A text of ASCII characters, in bytes. -/
def ascii (text : String) : List UInt8 := text.toList.map (·.toNat.toUInt8)

/-- The message for a spec that is none. -/
def invalidSpec (function : String) (spec : CString) : List UInt8 :=
  ascii function ++ ascii ": invalid key spec \"" ++ spec.text ++ ascii "\""

/-- The combo that `wm_key_combo_from_str` fills in, if it returns `WM_ERROR_OK`. -/
def specCombo (names : KeyNames) (spec : CString) : Option KeyCombo :=
  let parse := wmKeyComboFromStr names (some spec) (some Slots.empty)
  if parse.error ≠ .ok then none else parse.out

/-- `l_supress_key`: the error that it raises, if it does, and the table it leaves. -/
def lSupressKey (names : KeyNames) (s : Suppress keyMax) (spec : CString) (wm : Bool)
    (keyboard : WMError) : Option (List UInt8) × Suppress keyMax :=
  match specCombo names spec with
  | none => (some (invalidSpec "uniwm.supress_key" spec), s)
  | some combo =>
    if !wm then (some (ascii noWindowManager), s)
    else
      let suppressed := wmSuppressKey s combo keyboard
      if suppressed.1 ≠ .ok then (some (ascii "uniwm.supress_key: failed"), suppressed.2)
      else (none, suppressed.2)

/-- `l_unsupress_key` -/
def lUnsupressKey (names : KeyNames) (s : Suppress keyMax) (spec : CString) (wm : Bool) :
    Option (List UInt8) × Suppress keyMax :=
  match specCombo names spec with
  | none => (some (invalidSpec "uniwm.unsupress_key" spec), s)
  | some combo =>
    if !wm then (some (ascii noWindowManager), s)
    else
      let unsuppressed := wmUnsuppressKey s combo
      if unsuppressed.1 ≠ .ok then (some (ascii "uniwm.unsupress_key: failed"), unsuppressed.2)
      else (none, unsuppressed.2)

/-- A call of a script, or of the keyboard hook. -/
inductive SupressStep where
  | supress (spec : CString) (wm : Bool) (keyboard : WMError)
  | unsupress (spec : CString) (wm : Bool)
  | hook (key : MCKey) (down : Bool)

/-- What the script is told, or the hook. -/
inductive SupressAnswer where
  | raised (message : Option (List UInt8))
  | swallow (verdict : Bool)
deriving DecidableEq

/-- The table as a machine that answers to scripts and to the hook. -/
def supressStep (names : KeyNames) (s : Suppress keyMax) :
    SupressStep → Suppress keyMax × SupressAnswer
  | .supress spec wm keyboard =>
    let called := lSupressKey names s spec wm keyboard
    (called.2, .raised called.1)
  | .unsupress spec wm =>
    let called := lUnsupressKey names s spec wm
    (called.2, .raised called.1)
  | .hook key down =>
    let asked := suppressCb s key down
    (asked.1, .swallow asked.2)

end Uniwm
