import Mathlib.Data.List.Nodup
import Mathlib.Data.List.Perm.Basic

/-!
# Base — lists of records with distinct keys

A table in which every record has a key of its own: what a lookup by key finds, and what is
left when the record of a key is taken out, do not depend on the order of the records.

`flatMap_filterMap_perm`: things that are sorted by distinct keys, each thing under one key at
most, come out as they went in, but for their order.
-/

namespace Uniwm.Base

variable {α κ : Type*} [DecidableEq κ] {key : α → κ} {l rest : List α} {x : α} {k : κ}

/-- The record of a key is the one that a lookup finds. -/
theorem find?_keyed (hKeys : (l.map key).Nodup) (hx : x ∈ l) (hk : key x = k) :
    l.find? (fun y => key y = k) = some x := by
  cases hfind : l.find? (fun y => key y = k) with
  | none =>
    have hno := List.find?_eq_none.mp hfind x hx
    simp [hk] at hno
  | some y =>
    have hy : key y = k := by simpa using List.find?_some hfind
    rw [List.inj_on_of_nodup_map hKeys (List.mem_of_find?_eq_some hfind) hx (hy.trans hk.symm)]

/-- Without the record of its key, a table is the rest of it. -/
theorem eraseP_keyed (hKeys : ((x :: rest).map key).Nodup) (hl : l.Perm (x :: rest))
    (hk : key x = k) : (l.eraseP fun y => key y = k).Perm rest := by
  have hapart : l.Pairwise fun a b => decide (key a = k) → decide (key b = k) → False := by
    have hnodup : (l.map key).Nodup := (hl.map key).nodup_iff.mpr hKeys
    refine (List.pairwise_map.mp hnodup).imp fun {a b} hne ha hb => hne ?_
    exact (of_decide_eq_true ha).trans (of_decide_eq_true hb).symm
  have hperm := hl.eraseP (fun y => decide (key y = k)) hapart
  rwa [List.eraseP_cons_of_pos (by simpa using hk)] at hperm

/-- Leaving out the one record of a key by filtering. -/
theorem filter_keyed (hKeys : ((x :: rest).map key).Nodup) (hk : key x = k) :
    (x :: rest).filter (fun y => key y ≠ k) = rest := by
  rw [List.map_cons, List.nodup_cons] at hKeys
  rw [List.filter_cons_of_neg (by simp [hk]), List.filter_eq_self]
  intro y hy
  have hne : key y ≠ k := fun heq => hKeys.1 (by rw [hk, ← heq]; exact List.mem_map_of_mem hy)
  simpa using hne

/-! ## Sorting by keys -/

section Sorting

variable {β : Type*} {ks : List κ} {ws : List α} {g : κ → α → Option β}

omit [DecidableEq κ] in
/-- A thing that is under one key at most is under the first one that takes it. -/
theorem filterMap_apart (hKeys : ks.Nodup)
    (hApart : ∀ w k k', (g k w).isSome = true → (g k' w).isSome = true → k = k') (w : α) :
    ks.filterMap (fun k => g k w) = (ks.findSome? fun k => g k w).toList := by
  induction ks with
  | nil => rfl
  | cons k ks ih =>
    rw [List.nodup_cons] at hKeys
    cases hg : g k w with
    | none => simp [hg, ih hKeys.2]
    | some y =>
      have hrest : ks.filterMap (fun k => g k w) = [] := by
        rw [List.filterMap_eq_nil_iff]
        intro k' hk'
        by_contra hne
        have hk : k = k' := hApart w k k' (by rw [hg]; rfl) (Option.isSome_iff_ne_none.mpr hne)
        exact hKeys.1 (hk ▸ hk')
      simp [hg, hrest]

omit [DecidableEq κ] in
/-- Going through the things once for each key finds what going through them once finds. -/
theorem flatMap_filterMap_perm (hKeys : ks.Nodup)
    (hApart : ∀ w k k', (g k w).isSome = true → (g k' w).isSome = true → k = k') :
    (ks.flatMap fun k => ws.filterMap (g k)).Perm
      (ws.filterMap fun w => ks.findSome? fun k => g k w) := by
  induction ws with
  | nil => simp
  | cons w ws ih =>
    have hsplit : (fun k => (w :: ws).filterMap (g k)) =
        fun k => (g k w).toList ++ ws.filterMap (g k) := by
      funext k
      rw [List.filterMap_cons]
      cases g k w <;> rfl
    have hhead : ks.flatMap (fun k => (g k w).toList) =
        (ks.findSome? fun k => g k w).toList := by
      rw [← filterMap_apart hKeys hApart, List.filterMap_eq_flatMap_toList]
    have hcons : (w :: ws).filterMap (fun w => ks.findSome? fun k => g k w) =
        (ks.findSome? fun k => g k w).toList ++
          ws.filterMap (fun w => ks.findSome? fun k => g k w) := by
      rw [List.filterMap_cons]
      cases ks.findSome? fun k => g k w <;> rfl
    rw [hsplit, hcons]
    refine (List.flatMap_append_perm ..).symm.trans ?_
    rw [hhead]
    exact ih.append_left _

end Sorting

end Uniwm.Base
