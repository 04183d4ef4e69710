import Uniwm.Base.Scan
import Uniwm.Model.Keys

/-!
# uniwm — key combos from text

`wm_key_combo_from_str` of `libuniwm/src/wm.c`: the spec of a key combo is a list of
`mc_key` names joined by `+`.

* `mc_key_from_str` and `MC_KEY_UNKNOWN` belong to the mc library and are the parameter
  `KeyNames`.
* A spec is a NUL-terminated string somewhere in memory (`CString`); `none` is `NULL`, for the
  spec as for the record to fill.
* `ComboParse.reads` is a ghost: the addresses looked at between `mc_strc`, which finds the NUL,
  and the return.
-/

namespace Uniwm

open Base

/-- `mc_key_from_str`, with the key it gives for what is no key name. -/
structure KeyNames where
  unknown : MCKey
  fromStr : List UInt8 → MCKey

/-- A NUL-terminated string: the bytes from `beg` up to the first NUL, at `stop`. -/
structure CString where
  mem : Nat → UInt8
  beg : Nat
  stop : Nat
  beg_le : beg ≤ stop
  no_nul : ∀ p, beg ≤ p → p < stop → mem p ≠ 0
  nul : mem stop = 0

/-- What `mc_strc` makes of it. -/
def CString.text (s : CString) : List UInt8 := span s.mem s.beg s.stop

/-- `'+'` -/
abbrev plusSign : UInt8 := 43

structure ComboParse where
  error : WMError
  out : Option KeyCombo
  reads : List Nat

/-- The loop of `wm_key_combo_from_str` from `p`, with the keys found so far in `combo`. -/
def comboFrom (names : KeyNames) (s : CString) (p : Nat) (combo : KeyCombo) :
    Option KeyCombo × List Nat :=
  let plus := scanTo s.mem plusSign s.stop p
  let key := names.fromStr (span s.mem p plus)
  let reads := scanReads s.mem plusSign s.stop p ++ List.range' p (plus - p)
  if key = names.unknown then (none, reads)
  else if h : combo.count < wmKeyComboMax then
    let combo := combo.push key h
    if plus < s.stop then
      let rest := comboFrom names s (plus + 1) combo
      (rest.1, reads ++ rest.2)
    else (some combo, reads)
  -- a fifth piece
  else (none, reads)
termination_by s.stop + 1 - p
decreasing_by
  have := le_scanTo s.mem plusSign s.stop p
  omega

/-- `wm_key_combo_from_str` -/
def wmKeyComboFromStr (names : KeyNames) (spec : Option CString) (out : Option KeyCombo) :
    ComboParse :=
  match spec, out with
  | some s, some _ =>
    match comboFrom names s s.beg Slots.empty with
    | (some combo, reads) => ⟨.ok, some combo, reads⟩
    | (none, reads) => ⟨.invalidArgument, out, reads⟩
  | _, _ => ⟨.invalidArgument, out, []⟩

end Uniwm
