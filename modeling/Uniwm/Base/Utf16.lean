import Mathlib.Data.List.Basic

/-!
# Base — texts in 16-bit units

UTF-16: a character below `0x10000` is one unit, any other a pair of surrogates. Decoding
undoes encoding (`decodeUtf16_utf16`), and no text takes more units than it takes bytes as
UTF-8 (`utf16_length_le`).
-/

namespace Uniwm.Base

/-! ## Encoding -/

def utf16Char (c : Char) : List UInt16 :=
  if c.toNat < 0x10000 then [UInt16.ofNat c.toNat]
  else
    [UInt16.ofNat (0xD800 + (c.toNat - 0x10000) / 0x400),
      UInt16.ofNat (0xDC00 + (c.toNat - 0x10000) % 0x400)]

def utf16 (cs : List Char) : List UInt16 := cs.flatMap utf16Char

/-! ## Decoding -/

def highSurrogate (u : UInt16) : Bool := 0xD800 ≤ u.toNat && u.toNat < 0xDC00

def lowSurrogate (u : UInt16) : Bool := 0xDC00 ≤ u.toNat && u.toNat < 0xE000

/-- A unit on its own; a surrogate without its other half becomes the replacement character. -/
def decodeUnit (u : UInt16) : Char :=
  if highSurrogate u || lowSurrogate u then Char.ofNat 0xFFFD else Char.ofNat u.toNat

def decodeUtf16 : List UInt16 → List Char
  | [] => []
  | [u] => [decodeUnit u]
  | u :: v :: us =>
    if highSurrogate u && lowSurrogate v then
      Char.ofNat (0x10000 + (u.toNat - 0xD800) * 0x400 + (v.toNat - 0xDC00)) :: decodeUtf16 us
    else decodeUnit u :: decodeUtf16 (v :: us)

/-! ## The round trip -/

/-- No character is a surrogate, and none is past `0x10FFFF`. -/
theorem toNat_scalar (c : Char) : c.toNat < 0xD800 ∨ 0xDFFF < c.toNat ∧ c.toNat < 0x110000 :=
  c.valid

theorem decodeUtf16_of_not_high {u : UInt16} (h : highSurrogate u = false) (us : List UInt16) :
    decodeUtf16 (u :: us) = decodeUnit u :: decodeUtf16 us := by
  cases us with
  | nil => rfl
  | cons v us => rw [decodeUtf16, h, Bool.false_and, if_neg Bool.false_ne_true]

theorem decodeUtf16_utf16Char (c : Char) (us : List UInt16) :
    decodeUtf16 (utf16Char c ++ us) = c :: decodeUtf16 us := by
  have hscalar := toNat_scalar c
  rw [utf16Char]
  by_cases hone : c.toNat < 0x10000
  · have hunit : (UInt16.ofNat c.toNat).toNat = c.toNat := by
      rw [UInt16.toNat_ofNat']
      omega
    have hhigh : highSurrogate (UInt16.ofNat c.toNat) = false := by
      rw [highSurrogate, hunit, ← Bool.decide_and, decide_eq_false_iff_not]
      omega
    have hlow : lowSurrogate (UInt16.ofNat c.toNat) = false := by
      rw [lowSurrogate, hunit, ← Bool.decide_and, decide_eq_false_iff_not]
      omega
    rw [if_pos hone, List.singleton_append, decodeUtf16_of_not_high hhigh, decodeUnit, hhigh, hlow,
      hunit]
    simp
  · have hu : (UInt16.ofNat (0xD800 + (c.toNat - 0x10000) / 0x400)).toNat =
        0xD800 + (c.toNat - 0x10000) / 0x400 := by
      rw [UInt16.toNat_ofNat']
      omega
    have hv : (UInt16.ofNat (0xDC00 + (c.toNat - 0x10000) % 0x400)).toNat =
        0xDC00 + (c.toNat - 0x10000) % 0x400 := by
      rw [UInt16.toNat_ofNat']
      omega
    have hpair : (highSurrogate (UInt16.ofNat (0xD800 + (c.toNat - 0x10000) / 0x400)) &&
        lowSurrogate (UInt16.ofNat (0xDC00 + (c.toNat - 0x10000) % 0x400))) = true := by
      simp only [highSurrogate, lowSurrogate, hu, hv, Bool.and_eq_true, decide_eq_true_eq]
      omega
    have hcode : 0x10000 + (0xD800 + (c.toNat - 0x10000) / 0x400 - 0xD800) * 0x400 +
        (0xDC00 + (c.toNat - 0x10000) % 0x400 - 0xDC00) = c.toNat := by omega
    rw [if_neg hone, List.cons_append, List.singleton_append, decodeUtf16, if_pos hpair, hu, hv,
      hcode, Char.ofNat_toNat]

/-- **Decoding undoes encoding.** -/
theorem decodeUtf16_utf16 (cs : List Char) : decodeUtf16 (utf16 cs) = cs := by
  induction cs with
  | nil => rfl
  | cons c cs ih => rw [utf16, List.flatMap_cons, decodeUtf16_utf16Char, ← utf16, ih]

/-! ## Sizes -/

theorem utf16Char_length_le (c : Char) : (utf16Char c).length ≤ c.utf8Size := by
  rw [utf16Char]
  by_cases hone : c.toNat < 0x10000
  · rw [if_pos hone]
    exact c.utf8Size_pos
  · have hne1 : c.utf8Size ≠ 1 := by
      rw [ne_eq, Char.utf8Size_eq_one_iff, UInt32.le_iff_toNat_le]
      show ¬ c.toNat ≤ 127
      omega
    have hpos := c.utf8Size_pos
    rw [if_neg hone]
    show 2 ≤ c.utf8Size
    omega

/-- The bytes that a text takes as UTF-8. -/
def utf8Bytes (cs : List Char) : Nat := cs.foldr (fun c n => c.utf8Size + n) 0

@[simp] theorem utf8Bytes_cons (c : Char) (cs : List Char) :
    utf8Bytes (c :: cs) = c.utf8Size + utf8Bytes cs := rfl

theorem utf8Bytes_append (cs cs' : List Char) :
    utf8Bytes (cs ++ cs') = utf8Bytes cs + utf8Bytes cs' := by
  induction cs with
  | nil => exact (Nat.zero_add _).symm
  | cons c cs ih => rw [List.cons_append, utf8Bytes_cons, utf8Bytes_cons, ih, Nat.add_assoc]

theorem utf8ByteSize_ofList (cs : List Char) : (String.ofList cs).utf8ByteSize = utf8Bytes cs := by
  induction cs with
  | nil => rfl
  | cons c cs ih =>
    rw [String.ofList_cons, String.utf8ByteSize_append, String.utf8ByteSize_singleton, ih,
      utf8Bytes_cons]

theorem utf8ByteSize_eq (s : String) : s.utf8ByteSize = utf8Bytes s.toList := by
  rw [← utf8ByteSize_ofList, String.ofList_toList]

theorem utf8ByteSize_le (s : String) : s.utf8ByteSize ≤ 4 * s.length := by
  rw [utf8ByteSize_eq, ← String.length_toList]
  induction s.toList with
  | nil => exact Nat.le_refl 0
  | cons c cs ih =>
    have := c.utf8Size_le_four
    rw [utf8Bytes_cons, List.length_cons]
    omega

theorem utf16_length_le (s : String) : (utf16 s.toList).length ≤ s.utf8ByteSize := by
  rw [utf8ByteSize_eq]
  induction s.toList with
  | nil => exact Nat.le_refl 0
  | cons c cs ih =>
    rw [utf16, List.flatMap_cons, List.length_append, utf8Bytes_cons]
    exact Nat.add_le_add (utf16Char_length_le c) ih

/-- A text that starts another one is no longer. -/
theorem utf8ByteSize_takeWhile_le (p : Char → Bool) (s : String) :
    (String.ofList (s.toList.takeWhile p)).utf8ByteSize ≤ s.utf8ByteSize := by
  have hsplit := List.takeWhile_append_dropWhile (p := p) (l := s.toList)
  rw [utf8ByteSize_eq s, utf8ByteSize_ofList]
  conv_rhs => rw [← hsplit, utf8Bytes_append]
  exact Nat.le_add_right _ _

end Uniwm.Base
