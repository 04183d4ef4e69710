import Mathlib.Data.List.Basic
import Mathlib.Data.List.Pairwise
import Mathlib.Data.Nat.Basic

/-!
# Base — what happens at a distance

Moments of which each is at least `d` after the one before it: how many of them fall into a
span of time (`spaced_window`).
-/

namespace Uniwm.Base

/-- Each moment is `d` or more after those before it. -/
def Spaced (d : Nat) (moments : List Nat) : Prop := moments.Pairwise fun a b => a + d ≤ b

variable {d : Nat} {moments : List Nat}

/-- It is enough that each is so after the one before it. -/
theorem spaced_cons_cons {a b : Nat} (hab : a + d ≤ b) (h : Spaced d (b :: moments)) :
    Spaced d (a :: b :: moments) := by
  refine List.pairwise_cons.mpr ⟨fun c hc => ?_, h⟩
  rcases List.mem_cons.mp hc with rfl | hc
  · exact hab
  · have hbc := (List.pairwise_cons.mp h).1 c hc
    omega

/-- Moments between `lo` and `hi` take up their distances. -/
theorem spaced_length_le {lo hi : Nat} (h : Spaced d moments)
    (hin : ∀ a ∈ moments, lo ≤ a ∧ a ≤ hi) : moments.length * d ≤ hi - lo + d := by
  induction moments generalizing lo with
  | nil => simp
  | cons a moments ih =>
    obtain ⟨hnext, hrest⟩ := List.pairwise_cons.mp h
    obtain ⟨hlo, hhi⟩ := hin a List.mem_cons_self
    cases moments with
    | nil =>
      rw [List.length_singleton]
      omega
    | cons b moments =>
      have hb := hnext b List.mem_cons_self
      have hbhi := (hin b (List.mem_cons_of_mem _ List.mem_cons_self)).2
      have hlen := @ih (a + d) hrest fun c hc =>
        ⟨hnext c hc, (hin c (List.mem_cons_of_mem _ hc)).2⟩
      rw [List.length_cons, Nat.succ_mul]
      omega

/-- So a span of length `T` has `T / d + 1` of them at most. -/
theorem spaced_window (hd : 0 < d) (h : Spaced d moments) (lo T : Nat) :
    (moments.filter fun a => lo ≤ a ∧ a ≤ lo + T).length ≤ T / d + 1 := by
  have hspaced : Spaced d (moments.filter fun a => lo ≤ a ∧ a ≤ lo + T) := List.Pairwise.filter _ h
  have hlen := @spaced_length_le d _ lo (lo + T) hspaced fun a ha => by
    simpa using (List.mem_filter.mp ha).2
  rw [Nat.add_sub_cancel_left] at hlen
  have hle := (Nat.le_div_iff_mul_le hd).mpr hlen
  rwa [Nat.add_div_right _ hd] at hle

end Uniwm.Base
