import Mathlib.Data.List.Basic
import Mathlib.Data.List.Nodup

/-!
# Base — fixed arrays with a fill count

The C idiom `T slots[CAP]; int count;`: a fixed array of which the first `count`
slots are in use. An entry is added in slot `count`, and one is removed by moving
the last used slot into the hole. Slots at or past `count` keep whatever was
written there last.

`Slots.toList` is the abstract content, the used slots in order; each operation is
described by what it does to that list, so that nothing above depends on the stale
slots.
-/

namespace Uniwm.Base

/-- `cap` slots of which the first `count` are in use. -/
structure Slots (α : Type*) (cap : Nat) where
  data : Vector α cap
  count : Nat
  count_le : count ≤ cap
deriving DecidableEq

/-- `l` without the entry at `j`, the last entry moved into the hole. -/
def swapRemove {α : Type*} (l : List α) (j : Nat) : List α :=
  match l.getLast? with
  | none => []
  | some y => l.dropLast.set j y

namespace Slots

variable {α : Type*} {cap : Nat}

/-- The used slots, in order. -/
def toList (t : Slots α cap) : List α := t.data.toList.take t.count

/-- No slot used; all slots hold the default value. -/
def empty [Inhabited α] : Slots α cap := ⟨Vector.replicate cap default, 0, Nat.zero_le _⟩

/-- The value in a slot that is in use. -/
def get (t : Slots α cap) (i : Nat) (h : i < t.count) : α :=
  have hcap : i < cap := Nat.lt_of_lt_of_le h t.count_le
  t.data[i]

/-- The value in slot `i`, when that slot is in use. -/
def get? (t : Slots α cap) (i : Nat) : Option α :=
  if h : i < t.count then some (t.get i h) else none

/-- `slots[count++] = x`. -/
def push (t : Slots α cap) (x : α) (h : t.count < cap) : Slots α cap where
  data := t.data.set t.count x
  count := t.count + 1
  count_le := h

/-- One `push` after the other, if there is room for all. -/
def pushAll (t : Slots α cap) : List α → Option (Slots α cap)
  | [] => some t
  | x :: xs => if h : t.count < cap then (t.push x h).pushAll xs else none

/-- `slots[j] = slots[--count]`. -/
def erase (t : Slots α cap) (j : Nat) (h : j < t.count) : Slots α cap where
  data := t.data.set j (t.get (t.count - 1) (by omega)) (by have := t.count_le; omega)
  count := t.count - 1
  count_le := by have := t.count_le; omega

@[simp] theorem toList_length (t : Slots α cap) : t.toList.length = t.count := by
  simp [toList, t.count_le]

@[simp] theorem count_push (t : Slots α cap) (x : α) (h : t.count < cap) :
    (t.push x h).count = t.count + 1 := rfl

@[simp] theorem toList_empty [Inhabited α] : (empty : Slots α cap).toList = [] := by
  simp [toList, empty]

theorem get?_eq (t : Slots α cap) (i : Nat) : t.get? i = t.toList[i]? := by
  by_cases h : i < t.count
  · have hcap : i < cap := Nat.lt_of_lt_of_le h t.count_le
    simp [get?, get, toList, h, hcap]
  · have hlen : t.toList.length ≤ i := by rw [toList_length]; omega
    rw [get?, dif_neg h, List.getElem?_eq_none hlen]

@[simp] theorem toList_push (t : Slots α cap) (x : α) (h : t.count < cap) :
    (t.push x h).toList = t.toList ++ [x] := by
  apply List.ext_getElem?
  intro i
  rw [← get?_eq, List.getElem?_append, toList_length, ← get?_eq]
  rcases Nat.lt_trichotomy i t.count with hlt | rfl | hgt
  · have hi : i < t.count + 1 := by omega
    have hne : t.count ≠ i := by omega
    simp [get?, get, push, hlt, hi, hne]
  · simp [get?, get, push]
  · have h1 : ¬ i < t.count + 1 := by omega
    have h2 : ¬ i < t.count := by omega
    have h3 : i - t.count ≠ 0 := by omega
    simp [get?, push, h1, h2, h3]

@[simp] theorem toList_erase (t : Slots α cap) (j : Nat) (h : j < t.count) :
    (t.erase j h).toList = swapRemove t.toList j := by
  have hlast : t.toList.getLast? = some (t.get (t.count - 1) (by omega)) := by
    rw [List.getLast?_eq_getElem?, toList_length, ← get?_eq, get?, dif_pos (by omega)]
  rw [swapRemove, hlast]
  apply List.ext_getElem?
  intro i
  rw [← get?_eq, List.getElem?_set, List.dropLast_eq_take, List.length_take, toList_length,
    List.getElem?_take, ← get?_eq]
  by_cases hlt : i < t.count - 1
  · have hlt' : i < t.count := by omega
    by_cases hij : j = i
    · subst hij
      simp [get?, get, erase, hlt]
    · simp [get?, get, erase, hlt, hlt', hij]
  · by_cases hij : j = i
    · subst hij
      simp [get?, get, erase, hlt]
    · simp [get?, erase, hlt, hij]

/-! ### Filling up -/

theorem pushAll_isSome {t : Slots α cap} {xs : List α} :
    (t.pushAll xs).isSome ↔ t.count + xs.length ≤ cap := by
  induction xs generalizing t with
  | nil => simp [pushAll, t.count_le]
  | cons x xs ih =>
    rw [pushAll]
    by_cases h : t.count < cap
    · rw [dif_pos h, ih, count_push, List.length_cons]
      omega
    · rw [dif_neg h, List.length_cons]
      simp only [Option.isSome_none, Bool.false_eq_true, false_iff]
      omega

theorem toList_pushAll {t t' : Slots α cap} {xs : List α} (h : t.pushAll xs = some t') :
    t'.toList = t.toList ++ xs := by
  induction xs generalizing t with
  | nil =>
    rw [pushAll, Option.some.injEq] at h
    rw [← h, List.append_nil]
  | cons x xs ih =>
    rw [pushAll] at h
    by_cases hlt : t.count < cap
    · rw [dif_pos hlt] at h
      rw [ih h, toList_push, List.append_assoc, List.singleton_append]
    · rw [dif_neg hlt] at h
      exact absurd h nofun

/-- The slots that stay unused keep what they held. -/
theorem data_pushAll {t t' : Slots α cap} {xs : List α} (h : t.pushAll xs = some t')
    (i : Fin cap) (hi : t'.count ≤ i) : t'.data[i] = t.data[i] := by
  induction xs generalizing t with
  | nil =>
    rw [pushAll, Option.some.injEq] at h
    rw [h]
  | cons x xs ih =>
    rw [pushAll] at h
    by_cases hlt : t.count < cap
    · rw [dif_pos hlt] at h
      have hlen : t'.count = t.count + 1 + xs.length := by
        rw [← toList_length, toList_pushAll h, List.length_append, toList_length, count_push]
      have hne : t.count ≠ i := by omega
      rw [ih h, push]
      simp [hne]
    · rw [dif_neg hlt] at h
      exact absurd h nofun

end Slots

/-! ## Removal by moving the last entry into the hole -/

section SwapRemove

variable {α : Type*}

theorem swapRemove_concat (l : List α) (y : α) (j : Nat) :
    swapRemove (l ++ [y]) j = l.set j y := by
  simp [swapRemove]

/-- What is left is the list without the removed entry, reordered. -/
theorem swapRemove_perm {l : List α} {j : Nat} (h : j < l.length) :
    (swapRemove l j).Perm (l.eraseIdx j) := by
  rcases l.eq_nil_or_concat' with rfl | ⟨init, y, rfl⟩
  · simp at h
  · rw [swapRemove_concat]
    induction init generalizing j with
    | nil =>
      have hj : j = 0 := by simpa using h
      subst hj
      simp
    | cons x init ih =>
      cases j with
      | zero => simpa using (List.perm_append_singleton y init).symm
      | succ j =>
        have hj : j < (init ++ [y]).length := by simpa using h
        simpa using (ih hj).cons x

/-- What stands before the hole stays. -/
theorem take_swapRemove {l : List α} {j : Nat} (h : j < l.length) :
    (swapRemove l j).take j = l.take j := by
  rcases l.eq_nil_or_concat' with rfl | ⟨init, y, rfl⟩
  · simp at h
  · have hj : j ≤ init.length := by simp at h; omega
    rw [swapRemove_concat, List.take_set_of_le (Nat.le_refl j), List.take_append_of_le_length hj]

/-- Taking out an entry that a filter drops does not change what it keeps. -/
theorem filter_swapRemove_perm {l : List α} {j : Nat} {x : α} {p : α → Bool}
    (hx : l[j]? = some x) (hp : p x = false) : ((swapRemove l j).filter p).Perm (l.filter p) := by
  obtain ⟨h, rfl⟩ := List.getElem?_eq_some_iff.mp hx
  have hkeep : (l.eraseIdx j).filter p = l.filter p := by
    conv_rhs => rw [← List.take_append_drop j l, List.drop_eq_getElem_cons h]
    rw [List.eraseIdx_eq_take_drop_succ, List.filter_append, List.filter_append,
      List.filter_cons_of_neg (by simp [hp])]
  rw [← hkeep]
  exact (swapRemove_perm h).filter p

/-- Behind a hole further on, exactly the removed entry leaves. -/
theorem mem_drop_swapRemove {l : List α} {i j : Nat} (hij : i ≤ j) (hj : j < l.length) {x : α} :
    x ∈ (swapRemove l j).drop i ↔ x ∈ (l.drop i).eraseIdx (j - i) := by
  have hlen : j - i < (l.drop i).length := by rw [List.length_drop]; omega
  rw [← (swapRemove_perm hlen).mem_iff]
  rcases l.eq_nil_or_concat' with rfl | ⟨init, y, rfl⟩
  · simp at hj
  · have hi : i ≤ init.length := by simp at hj; omega
    rw [swapRemove_concat, List.drop_append_of_le_length hi, swapRemove_concat, List.drop_set,
      if_neg (by omega)]

/-- Behind a hole before it, exactly the last entry leaves. -/
theorem drop_swapRemove {l : List α} {i j : Nat} (hji : j < i) :
    (swapRemove l j).drop i = (l.drop i).dropLast := by
  rcases l.eq_nil_or_concat' with rfl | ⟨init, y, rfl⟩
  · simp [swapRemove]
  · rw [swapRemove_concat, List.drop_set_of_lt hji]
    by_cases hi : i ≤ init.length
    · rw [List.drop_append_of_le_length hi, List.dropLast_concat]
    · rw [List.drop_eq_nil_of_le (by omega), List.drop_eq_nil_of_le (by simp; omega)]
      rfl

end SwapRemove

end Uniwm.Base
