import Mathlib.Data.List.Basic

/-!
# Base — flag arrays and the writes they remember

A fixed array `bool flag[N]` written under a bounds check and read under the same
check. `held ws k` is what a history of writes says about `k` (the last write to
`k` wins, nothing written reads as `false`); `Tracks` says that an array agrees
with a history on every index it has. One write keeps the agreement
(`Tracks.setFlag`), so an array that starts cleared agrees with every history.
-/

namespace Uniwm.Base

/-! ## The array -/

section Array

variable {n : Nat}

/-- `k < N && flag[k]`. -/
def flag (v : Vector Bool n) (k : Nat) : Bool :=
  if h : k < n then v[k] else false

/-- `if (k < N) flag[k] = b;`. -/
def setFlag (v : Vector Bool n) (k : Nat) (b : Bool) : Vector Bool n :=
  if h : k < n then v.set k b else v

theorem flag_setFlag (v : Vector Bool n) (k j : Nat) (b : Bool) :
    flag (setFlag v k b) j = if j = k then decide (k < n) && b else flag v j := by
  unfold flag setFlag
  by_cases hk : k < n
  · by_cases hj : j < n
    · by_cases hjk : j = k
      · subst hjk
        simp [hj]
      · simp [hk, hj, hjk, Ne.symm hjk]
    · have hjk : j ≠ k := by omega
      simp [hj, hjk]
  · by_cases hjk : j = k
    · subst hjk
      simp [hk]
    · simp [hk, hjk]

@[simp] theorem flag_replicate_false (k : Nat) :
    flag (Vector.replicate n false) k = false := by
  simp [flag]

end Array

/-! ## The history -/

section History

variable {κ : Type*} [DecidableEq κ]

/-- The value last written to `k`, `false` when nothing was. -/
def held (ws : List (κ × Bool)) (k : κ) : Bool :=
  match (ws.filter fun w => w.1 = k).getLast? with
  | none => false
  | some w => w.2

@[simp] theorem held_nil (k : κ) : held ([] : List (κ × Bool)) k = false := rfl

theorem held_concat (ws : List (κ × Bool)) (w : κ × Bool) (k : κ) :
    held (ws ++ [w]) k = if k = w.1 then w.2 else held ws k := by
  unfold held
  rw [List.filter_append]
  by_cases h : k = w.1
  · subst h
    simp
  · have hne : ¬ w.1 = k := fun hk => h hk.symm
    simp [h, hne]

end History

/-! ## Agreement -/

/-- The array holds, at each of its indices, what the history says. -/
def Tracks {n : Nat} (v : Vector Bool n) (ws : List (Nat × Bool)) : Prop :=
  ∀ k, flag v k = (decide (k < n) && held ws k)

theorem tracks_cleared (n : Nat) : Tracks (Vector.replicate n false) [] := by
  intro k
  simp

/-- A history determines the array. -/
theorem Tracks.unique {n : Nat} {v v' : Vector Bool n} {ws : List (Nat × Bool)}
    (h : Tracks v ws) (h' : Tracks v' ws) : v = v' := by
  ext i hi
  have hflag := (h i).trans (h' i).symm
  simpa [flag, hi] using hflag

theorem Tracks.setFlag {n : Nat} {v : Vector Bool n} {ws : List (Nat × Bool)}
    (h : Tracks v ws) (k : Nat) (b : Bool) :
    Tracks (setFlag v k b) (ws ++ [(k, b)]) := by
  intro j
  rw [flag_setFlag, held_concat, h j]
  by_cases hj : j = k
  · subst hj
    simp
  · simp [hj]

end Uniwm.Base
