import Mathlib.Data.List.Nodup

/-!
# Base — interning with a weak cache

A cache that keeps, for each key, the object made for it, so that asking again gives the same
object; its references are weak, so that an object which nothing else refers to may vanish
from it at any time.

`Interned c live issued` relates the cache to the objects `issued` so far with their keys and
those still `live`. It is kept by handing out an object that is found (`Interned.get`), by
putting a new one (`Interned.put`), by the collector (`Interned.collect`) and when objects are
let go (`Interned.drop`). `Interned.same` is what it is for: of one key there are no two live
objects, and `Interned.apart` is part of it: no object is issued for two keys.
-/

namespace Uniwm.Base

/-- A table from keys to objects with weak references. -/
structure WeakCache (κ τ : Type*) where
  entries : List (κ × τ)

namespace WeakCache

variable {κ τ : Type*}

def empty : WeakCache κ τ := ⟨[]⟩

/-- The object of a key, if the cache still has it. -/
def get [DecidableEq κ] (c : WeakCache κ τ) (k : κ) : Option τ :=
  (c.entries.find? (·.1 = k)).map (·.2)

/-- `v` becomes the object of `k`. -/
def put [DecidableEq κ] (c : WeakCache κ τ) (k : κ) (v : τ) : WeakCache κ τ :=
  ⟨c.entries.filter (·.1 ≠ k) ++ [(k, v)]⟩

/-- The collector clears objects, but none of those that are `live`. -/
def collect [DecidableEq τ] (c : WeakCache κ τ) (live : List τ) (cleared : τ → Bool) :
    WeakCache κ τ :=
  ⟨c.entries.filter fun e => e.2 ∈ live || !cleared e.2⟩

/-- Each key has one entry, an object issued for it; no object was issued for two keys; and
what is live is still there. -/
structure Interned (c : WeakCache κ τ) (live : List τ) (issued : List (κ × τ)) : Prop where
  keys : (c.entries.map (·.1)).Nodup
  cached : ∀ e ∈ c.entries, e ∈ issued
  kept : ∀ e ∈ issued, e.2 ∈ live → e ∈ c.entries
  apart : ∀ e ∈ issued, ∀ e' ∈ issued, e.2 = e'.2 → e.1 = e'.1

variable {c : WeakCache κ τ} {live : List τ} {issued : List (κ × τ)} {k : κ} {v : τ}

theorem interned_empty : Interned (empty : WeakCache κ τ) [] [] :=
  ⟨List.nodup_nil, by simp [empty], by simp, by simp⟩

/-- Of one key there are no two live objects. -/
theorem Interned.same (h : Interned c live issued) {v' : τ} (hv : (k, v) ∈ issued)
    (hv' : (k, v') ∈ issued) (hlive : v ∈ live) (hlive' : v' ∈ live) : v = v' := by
  have heq := List.inj_on_of_nodup_map h.keys (h.kept _ hv hlive) (h.kept _ hv' hlive') rfl
  exact congrArg Prod.snd heq

/-- Objects are let go. -/
theorem Interned.drop (h : Interned c live issued) {live' : List τ} (hsub : live' ⊆ live) :
    Interned c live' issued where
  keys := h.keys
  cached := h.cached
  kept := fun e he hlive => h.kept e he (hsub hlive)
  apart := h.apart

/-- The collector does not touch what is live. -/
theorem Interned.collect [DecidableEq τ] (h : Interned c live issued) {live' : List τ}
    (hsub : live ⊆ live') (cleared : τ → Bool) :
    Interned (c.collect live' cleared) live issued where
  keys := h.keys.sublist (List.filter_sublist.map _)
  cached := fun e he => h.cached e (List.mem_filter.mp he).1
  kept := fun e he hlive =>
    List.mem_filter.mpr ⟨h.kept e he hlive, by simp [hsub hlive]⟩
  apart := h.apart

variable [DecidableEq κ]

theorem mem_of_get (hget : c.get k = some v) : (k, v) ∈ c.entries := by
  rw [get, Option.map_eq_some_iff] at hget
  obtain ⟨e, he, rfl⟩ := hget
  have hkey : e.1 = k := by simpa using List.find?_some he
  rw [← hkey]
  exact List.mem_of_find?_eq_some he

/-- An object that is found is handed out once more. -/
theorem Interned.get (h : Interned c live issued) (hget : c.get k = some v) :
    Interned c (live ++ [v]) (issued ++ [(k, v)]) := by
  have hentry : (k, v) ∈ c.entries := mem_of_get hget
  have hold : ∀ e ∈ issued ++ [(k, v)], e ∈ issued := by
    intro e he
    rcases List.mem_append.mp he with he | he
    · exact he
    · rw [List.mem_singleton.mp he]
      exact h.cached _ hentry
  refine ⟨h.keys, fun e he => List.mem_append_left _ (h.cached e he), fun e he hlive => ?_,
    fun e he e' he' => h.apart e (hold e he) e' (hold e' he')⟩
  rcases List.mem_append.mp hlive with hlive | hlive
  · exact h.kept e (hold e he) hlive
  -- the object was issued for this key only
  · have hv : e.2 = v := List.mem_singleton.mp hlive
    have hk : e.1 = k := h.apart e (hold e he) (k, v) (h.cached _ hentry) hv
    rwa [show e = (k, v) from Prod.ext hk hv]

/-- A new object for a key that has none. -/
theorem Interned.put (h : Interned c live issued) (hget : c.get k = none)
    (hnew : ∀ e ∈ issued, e.2 ≠ v) :
    Interned (c.put k v) (live ++ [v]) (issued ++ [(k, v)]) := by
  have habsent : ∀ e ∈ c.entries, e.1 ≠ k := by
    intro e he
    rw [WeakCache.get, Option.map_eq_none_iff, List.find?_eq_none] at hget
    simpa using hget e he
  have hentries : (c.put k v).entries = c.entries ++ [(k, v)] := by
    rw [WeakCache.put, List.filter_eq_self.mpr (by simpa using habsent)]
  refine ⟨?_, ?_, ?_, ?_⟩
  · rw [hentries, List.map_append, List.nodup_append]
    refine ⟨h.keys, List.nodup_singleton _, ?_⟩
    intro a ha b hb
    obtain ⟨e, he, rfl⟩ := List.mem_map.mp ha
    rw [List.mem_singleton.mp hb]
    exact habsent e he
  · intro e he
    rw [hentries, List.mem_append] at he
    exact List.mem_append.mpr (he.imp (h.cached e) id)
  · intro e he hlive
    rw [hentries, List.mem_append]
    rcases List.mem_append.mp he with he | he
    · rcases List.mem_append.mp hlive with hlive | hlive
      · exact Or.inl (h.kept e he hlive)
      · exact absurd (List.mem_singleton.mp hlive) (hnew e he)
    · exact Or.inr he
  · intro e he e' he' heq
    rcases List.mem_append.mp he with he | he <;> rcases List.mem_append.mp he' with he' | he'
    · exact h.apart e he e' he' heq
    · rw [List.mem_singleton.mp he'] at heq
      exact absurd heq (hnew e he)
    · rw [List.mem_singleton.mp he] at heq
      exact absurd heq.symm (hnew e' he')
    · rw [List.mem_singleton.mp he, List.mem_singleton.mp he']

end WeakCache

end Uniwm.Base
