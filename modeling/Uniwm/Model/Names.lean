import Uniwm.Base.Utf16
import Uniwm.Model.Desktops

/-!
# uniwm — desktop names between UTF-8 and the OS

The two conversions of `uniwm-windows/src/desktop_win.c`: `utf8_to_hstring` on the way of a
name to `SetDesktopName`, `hstring_to_utf8` on the way back from `GetName`. Each has a fixed
buffer of 128, the one of units, the other of bytes with a terminating NUL among them.

* An `MC_Str` in well-formed UTF-8 is a `String`, an `HSTRING` the list of its units; the empty
  one is `NULL`.
* `Conversions` is what the two Windows calls compute when the output fits.
* A desktop that was never given a name has the empty one.
-/

namespace Uniwm

open Base

/-- An `HSTRING`. -/
abbrev HString := List UInt16

/-- `MultiByteToWideChar` and `WideCharToMultiByte` for UTF-8, exact on well-formed text. -/
structure Conversions where
  toWide : ByteArray → List UInt16
  toUtf8 : List UInt16 → String
  toWide_utf8 : ∀ s : String, toWide s.toByteArray = utf16 s.toList
  toUtf8_utf16 : ∀ s : String, toUtf8 (utf16 s.toList) = s

/-- Conversions that give nothing for bytes that are not well-formed. -/
def Conversions.standard : Conversions where
  toWide bytes := ((String.fromUTF8? bytes).map fun s => utf16 s.toList).getD []
  toUtf8 units := String.ofList (decodeUtf16 units)
  toWide_utf8 s := by
    have hvalid : String.fromUTF8? s.toByteArray = some s := by
      rw [String.fromUTF8?, dif_pos s.isValidUTF8]
      rfl
    rw [hvalid]
    rfl
  toUtf8_utf16 s := by rw [decodeUtf16_utf16, String.ofList_toList]

/-- The length of both buffers. -/
abbrev nameCap : Nat := 128

/-- `utf8_to_hstring`; `made` is whether `WindowsCreateString` succeeds. -/
def utf8ToHstring (conv : Conversions) (s : String) (made : Bool) : Except WMError HString :=
  -- the length becomes an `int`
  let len := (BitVec.ofNat 32 s.utf8ByteSize).toInt
  if len ≤ 0 then .error .invalidArgument
  else
    let wbuf := conv.toWide (s.toByteArray.extract 0 len.toNat)
    if 0 < wbuf.length ∧ wbuf.length ≤ nameCap then
      if made then .ok wbuf else .error .unknown
    else .error .unknown

/-- `hstring_to_utf8`: what it writes before the terminating NUL; `none` is the answer `0`. -/
def hstringToUtf8 (conv : Conversions) (hs : HString) (cap : Nat) : Option String :=
  if hs = [] then none
  else if 0 < (conv.toUtf8 hs).utf8ByteSize ∧ (conv.toUtf8 hs).utf8ByteSize ≤ cap - 1 then
    some (conv.toUtf8 hs)
  else none

/-- `mc_strc`: a text up to its first NUL. -/
def upToNul (s : String) : String := String.ofList (s.toList.takeWhile (· ≠ Char.ofNat 0))

/-- The name that `fetch_name` reads from what `GetName` gives, if it reads one. -/
def readName (conv : Conversions) (hs : HString) : Option String :=
  (hstringToUtf8 conv hs nameCap).map upToNul

/-- The name that a desktop has after `win_vdesk_create`, which gives it one if the conversion
succeeds. -/
def nameSet (conv : Conversions) (name : String) (made : Bool) : HString :=
  match utf8ToHstring conv name made with
  | .ok hs => hs
  | .error _ => []

end Uniwm
