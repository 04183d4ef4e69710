import Mathlib.Data.List.Count
import Mathlib.Data.List.Perm.Basic

/-!
# Base — accounts of what is handed out and given back

Reference counts, heap blocks and handles are all handed out, held for a while and given
back. An `Account` lists both, in order. It is `Balanced` for what is held when each thing
is held as often as it was handed out and not given back; the count makes this meaningful
also for a reference that is handed out several times, or for an address used again.

Each way of moving a thing has its rule: `Balanced.take`, `Balanced.giveBack`, and
`Balanced.congr` for a change of owner. `Balanced.once` reads off, for a thing handed out
once, that it is held once or was given back once; `Balanced.settled` that with nothing
held everything has been given back as often as it was handed out.

A `Supply` is what an allocator or a registry of numbers promises: that it hands out only
what is not in use.
-/

namespace Uniwm.Base

/-- What has been handed out and what has been given back. -/
structure Account (α : Type*) where
  taken : List α
  returned : List α
deriving DecidableEq, Repr

namespace Account

variable {α : Type*} {a : Account α}

def empty : Account α := ⟨[], []⟩

/-- `x` is handed out. -/
def take (a : Account α) (x : α) : Account α := { a with taken := a.taken ++ [x] }

/-- `x` is given back. -/
def giveBack (a : Account α) (x : α) : Account α := { a with returned := a.returned ++ [x] }

variable [DecidableEq α] {held : List α} {x : α}

/-- What is `held` is what was handed out and not given back. -/
structure Balanced (a : Account α) (held : List α) : Prop where
  count_eq : ∀ x, held.count x + a.returned.count x = a.taken.count x

theorem balanced_empty : (empty : Account α).Balanced [] := by
  exact ⟨fun _ => rfl⟩

/-- What is handed out is held from then on. -/
theorem Balanced.take (h : a.Balanced held) (x : α) : (a.take x).Balanced (held ++ [x]) := by
  constructor
  intro y
  have hy := h.count_eq y
  simp only [Account.take, List.count_append]
  omega

/-- What is given back is not held any longer. -/
theorem Balanced.giveBack (h : a.Balanced (held ++ [x])) : (a.giveBack x).Balanced held := by
  constructor
  intro y
  have hy := h.count_eq y
  simp only [Account.giveBack, List.count_append] at hy ⊢
  omega

/-- Who holds a thing does not matter, only how often it is held. -/
theorem Balanced.congr {held' : List α} (h : a.Balanced held) (hperm : held'.Perm held) :
    a.Balanced held' := by
  constructor
  intro y
  rw [hperm.count_eq]
  exact h.count_eq y

/-- What is held first is given back. -/
theorem Balanced.giveBack_cons (h : a.Balanced (x :: held)) : (a.giveBack x).Balanced held :=
  (h.congr (List.perm_append_singleton ..)).giveBack

/-- `x` is given back, and `y` takes its place. -/
theorem Balanced.replace {left right : List α} {y : α}
    (h : a.Balanced (left ++ x :: right ++ [y])) :
    (a.giveBack x).Balanced (left ++ y :: right) := by
  refine Balanced.giveBack_cons (h.congr ?_)
  have hx : (left ++ x :: right).Perm (x :: (left ++ right)) := List.perm_middle
  have hy : (left ++ y :: right).Perm (y :: (left ++ right)) := List.perm_middle
  calc (x :: (left ++ y :: right)).Perm (x :: y :: (left ++ right)) := hy.cons x
    List.Perm _ (y :: x :: (left ++ right)) := .swap ..
    List.Perm _ (y :: (left ++ x :: right)) := hx.symm.cons y
    List.Perm _ (left ++ x :: right ++ [y]) := (List.perm_append_singleton ..).symm

/-- A thing handed out and given back at once. -/
theorem Balanced.pass (h : a.Balanced held) (x : α) : ((a.take x).giveBack x).Balanced held :=
  (h.take x).giveBack

/-- Of what was handed out once, either one is held and none was given back, or none is held
and one was given back. -/
theorem Balanced.once (h : a.Balanced held) (hx : a.taken.count x = 1) :
    (held.count x = 1 ∧ x ∉ a.returned) ∨ (x ∉ held ∧ a.returned.count x = 1) := by
  have hsum := h.count_eq x
  rw [hx] at hsum
  rcases Nat.eq_zero_or_pos (held.count x) with hzero | hpos
  · exact Or.inr ⟨List.count_eq_zero.mp hzero, by omega⟩
  · exact Or.inl ⟨by omega, List.count_eq_zero.mp (by omega)⟩

/-- What is held and what has been given back is what was handed out. -/
theorem Balanced.perm (h : a.Balanced held) : (held ++ a.returned).Perm a.taken := by
  rw [List.perm_iff_count]
  intro y
  rw [List.count_append]
  exact h.count_eq y

/-- So it is for the things of one kind. -/
theorem Balanced.countP_eq (h : a.Balanced held) (p : α → Bool) :
    held.countP p + a.returned.countP p = a.taken.countP p := by
  rw [← List.countP_append]
  exact h.perm.countP_eq p

/-- With nothing held, all has been given back. -/
theorem Balanced.settled (h : a.Balanced []) : a.returned.Perm a.taken := by
  rw [List.perm_iff_count]
  intro y
  have hy := h.count_eq y
  rwa [List.count_nil, Nat.zero_add] at hy

end Account

/-! ## What can be handed out -/

/-- A supplier of fresh names: whatever is in use, it gives something that is not. -/
structure Supply (α : Type*) where
  pick : List α → α
  fresh : ∀ used, pick used ∉ used

/-- The supplier that gives the number after the largest one in use. -/
def Supply.next : Supply Nat where
  pick used := used.foldr max 0 + 1
  fresh used := by
    have hle : ∀ l : List Nat, ∀ n ∈ l, n ≤ l.foldr max 0 := by
      intro l
      induction l with
      | nil => simp
      | cons m l ih =>
        intro n hn
        rw [List.foldr_cons]
        rcases List.mem_cons.mp hn with rfl | hn
        · exact Nat.le_max_left ..
        · exact Nat.le_trans (ih n hn) (Nat.le_max_right ..)
    intro hmem
    have := hle used _ hmem
    omega

end Uniwm.Base
