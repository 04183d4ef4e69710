import Mathlib.Data.List.Nodup
import Mathlib.Data.List.Perm.Basic
import Mathlib.Data.List.Dedup

/-!
# Base — newcomers of an enumeration

A collection that is kept up to date by enumerating the world: an element that the
collection has is left where it stands, one that it lacks is appended. What an
enumeration `xs` appends to `known` is `newcomers known xs`, each element once and in
the order of the enumeration.

Main results:

* `mem_append_newcomers`, `append_newcomers_nodup` — the collection afterwards holds both,
  each element once.
* `newcomers_perm` — up to order the newcomers are the set difference.
* `append_newcomers_eq_iff` — the collection equals the enumeration afterwards exactly
  if it was a prefix of it before.
-/

namespace Uniwm.Base

variable {α : Type*} [DecidableEq α]

/-- The elements of `xs` that `known` lacks, each once. -/
def newcomers : List α → List α → List α
  | _, [] => []
  | known, x :: xs => if x ∈ known then newcomers known xs else x :: newcomers (known ++ [x]) xs

variable {known xs ys : List α} {y : α}

@[simp] theorem newcomers_nil : newcomers known [] = [] := by rw [newcomers]

theorem newcomers_cons_of_mem {x : α} (h : x ∈ known) :
    newcomers known (x :: xs) = newcomers known xs := by
  rw [newcomers, if_pos h]

theorem newcomers_cons_of_not_mem {x : α} (h : x ∉ known) :
    newcomers known (x :: xs) = x :: newcomers (known ++ [x]) xs := by
  rw [newcomers, if_neg h]

theorem mem_newcomers : y ∈ newcomers known xs ↔ y ∈ xs ∧ y ∉ known := by
  induction xs generalizing known with
  | nil => simp
  | cons x xs ih =>
    by_cases hx : x ∈ known
    · rw [newcomers_cons_of_mem hx, ih, List.mem_cons]
      constructor
      · exact fun h => ⟨Or.inr h.1, h.2⟩
      · rintro ⟨rfl | h, hy⟩
        · exact absurd hx hy
        · exact ⟨h, hy⟩
    · rw [newcomers_cons_of_not_mem hx, List.mem_cons, ih, List.mem_cons, List.mem_append,
        List.mem_singleton]
      by_cases hyx : y = x
      · simp [hyx, hx]
      · simp [hyx]

/-- The collection afterwards. -/
theorem mem_append_newcomers : y ∈ known ++ newcomers known xs ↔ y ∈ known ∨ y ∈ xs := by
  rw [List.mem_append, mem_newcomers]
  by_cases hy : y ∈ known
  · simp [hy]
  · simp [hy]

theorem append_newcomers_nodup (h : known.Nodup) : (known ++ newcomers known xs).Nodup := by
  induction xs generalizing known with
  | nil => simpa using h
  | cons x xs ih =>
    by_cases hx : x ∈ known
    · rw [newcomers_cons_of_mem hx]
      exact ih h
    · rw [newcomers_cons_of_not_mem hx]
      have hconcat : (known ++ [x]).Nodup := by
        rw [List.nodup_append]
        refine ⟨h, List.nodup_singleton x, ?_⟩
        intro a ha b hb hab
        rw [List.mem_singleton] at hb
        exact hx (hb ▸ hab ▸ ha)
      simpa using ih hconcat

theorem newcomers_nodup (h : known.Nodup) : (newcomers known xs).Nodup :=
  (List.nodup_append.mp (append_newcomers_nodup h)).2.1

/-- Up to order the newcomers are the set difference. -/
theorem newcomers_perm {known' : List α} (h : known.Nodup)
    (hknown : ∀ x ∈ xs, x ∈ known ↔ x ∈ known') :
    (newcomers known xs).Perm (xs.dedup.filter (· ∉ known')) := by
  rw [List.perm_ext_iff_of_nodup (newcomers_nodup h) (xs.nodup_dedup.filter _)]
  intro y
  rw [mem_newcomers, List.mem_filter, List.mem_dedup, decide_eq_true_eq]
  exact and_congr_right fun hy => not_congr (hknown y hy)

/-- An enumeration in two parts: the second finds what the first has left. -/
theorem newcomers_append :
    newcomers known (xs ++ ys) =
      newcomers known xs ++ newcomers (known ++ newcomers known xs) ys := by
  induction xs generalizing known with
  | nil => simp
  | cons x xs ih =>
    by_cases hx : x ∈ known
    · rw [List.cons_append, newcomers_cons_of_mem hx, newcomers_cons_of_mem hx, ih]
    · rw [List.cons_append, newcomers_cons_of_not_mem hx, newcomers_cons_of_not_mem hx, ih,
        List.append_assoc, List.singleton_append, List.cons_append]

/-- Elements that the collection has do not show. -/
theorem newcomers_append_of_subset (h : ∀ x ∈ xs, x ∈ known) :
    newcomers known (xs ++ ys) = newcomers known ys := by
  induction xs with
  | nil => rfl
  | cons x xs ih =>
    rw [List.forall_mem_cons] at h
    rw [List.cons_append, newcomers_cons_of_mem h.1, ih h.2]

/-- An enumeration without repetitions, of elements the collection lacks. -/
theorem newcomers_eq_self (hxs : xs.Nodup) (h : ∀ x ∈ xs, x ∉ known) :
    newcomers known xs = xs := by
  induction xs generalizing known with
  | nil => rfl
  | cons x xs ih =>
    rw [List.nodup_cons] at hxs
    rw [List.forall_mem_cons] at h
    rw [newcomers_cons_of_not_mem h.1, ih hxs.2]
    intro z hz hmem
    rw [List.mem_append, List.mem_singleton] at hmem
    rcases hmem with hmem | rfl
    · exact h.2 z hz hmem
    · exact hxs.1 hz

/-- The collection is the enumeration afterwards exactly if it was the beginning of it
before. -/
theorem append_newcomers_eq_iff (hxs : xs.Nodup) :
    known ++ newcomers known xs = xs ↔ known <+: xs := by
  constructor
  · exact fun h => ⟨_, h⟩
  · rintro ⟨ys, rfl⟩
    rw [List.nodup_append] at hxs
    rw [newcomers_append_of_subset fun _ h => h, newcomers_eq_self hxs.2.1]
    exact fun x hx hmem => hxs.2.2 x hmem x hx rfl

end Uniwm.Base
