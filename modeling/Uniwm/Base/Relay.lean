import Uniwm.Base.Machine

/-!
# Base — a stream read twice, the second time behind a queue

A machine takes items in as they come and puts them into a queue, from which it takes them
out again later, in order; its answers tell which items a step took in and which it took
out. Whatever the lag, the items taken out so far are the first ones of those taken in
(`relay_fifo`, `relay_prefix`), so what both ends make of item `i` can be compared.

`final_answers` is the invariant rule with the answers of a kind as its history;
`answer_at` finds the step that gave the answer number `n` of a kind.
-/

namespace Uniwm.Base

variable {σ ι ο α β : Type*} {step : σ → ι → σ × ο}

/-- The answers of a kind that a run gives, in order. -/
def answers (step : σ → ι → σ × ο) (f : ο → Option β) (s : σ) (is : List ι) : List β :=
  (outputs step s is).filterMap f

theorem answers_map {γ : Type*} (f : ο → Option β) (g : β → γ) (s : σ) (is : List ι) :
    answers step (fun o => (f o).map g) s is = (answers step f s is).map g := by
  rw [answers, answers, List.map_filterMap]

theorem answers_cons (f : ο → Option β) (s : σ) (i : ι) (is : List ι) :
    answers step f s (i :: is) = (f (step s i).2).toList ++ answers step f (step s i).1 is := by
  cases hf : f (step s i).2 <;> simp [answers, hf]

/-- **Invariant rule.** An invariant that also speaks of the answers of a kind given so far
holds, after a run, of all of them. -/
theorem final_answers {f : ο → Option β} (Inv : σ → List β → Prop)
    (hStep : ∀ s past i, Inv s past → Inv (step s i).1 (past ++ (f (step s i).2).toList))
    {s : σ} (hs : Inv s []) (is : List ι) : Inv (final step s is) (answers step f s is) := by
  have hrun : ∀ past, Inv s past → Inv (final step s is) (past ++ answers step f s is) := by
    clear hs
    induction is generalizing s with
    | nil => simp [answers]
    | cons i is ih =>
      intro past hs
      rw [answers_cons, ← List.append_assoc]
      exact ih _ (hStep s past i hs)
  exact hrun [] hs

/-- Answer number `n` of a kind is given by a step with `n` such answers before it. -/
theorem answer_at {f : ο → Option β} {s : σ} {is : List ι} {n : Nat} {b : β}
    (h : (answers step f s is)[n]? = some b) :
    ∃ past i rest, is = past ++ i :: rest ∧ f (step (final step s past) i).2 = some b ∧
      answers step f s past = (answers step f s is).take n := by
  induction is generalizing s n with
  | nil => simp [answers] at h
  | cons i is ih =>
    cases hf : f (step s i).2 with
    | none =>
      rw [answers_cons, hf] at h ⊢
      obtain ⟨past, j, rest, rfl, hj, hpast⟩ := ih h
      exact ⟨i :: past, j, rest, rfl, hj, by rw [answers_cons, hf, hpast]; rfl⟩
    | some c =>
      rw [answers_cons, hf] at h ⊢
      cases n with
      | zero =>
        have hcb : c = b := by simpa using h
        exact ⟨[], i, is, rfl, hcb ▸ hf, rfl⟩
      | succ n =>
        obtain ⟨past, j, rest, rfl, hj, hpast⟩ := ih h
        exact ⟨i :: past, j, rest, rfl, hj, by rw [answers_cons, hf, hpast]; rfl⟩

section Relay

variable (takenIn takenOut : ο → Option α) (pending : σ → List α)

/-- What waits and what comes in is what goes out and what waits then. -/
theorem relay_fifo (hStep : ∀ s i, pending s ++ (takenIn (step s i).2).toList =
      (takenOut (step s i).2).toList ++ pending (step s i).1) (s : σ) (is : List ι) :
    pending s ++ answers step takenIn s is =
      answers step takenOut s is ++ pending (final step s is) := by
  induction is generalizing s with
  | nil => simp [answers]
  | cons i is ih =>
    rw [answers_cons, answers_cons, ← List.append_assoc, hStep, List.append_assoc, ih,
      List.append_assoc, final_cons]

/-- With nothing waiting at the start, the items taken out are the first ones taken in. -/
theorem relay_prefix (hStep : ∀ s i, pending s ++ (takenIn (step s i).2).toList =
      (takenOut (step s i).2).toList ++ pending (step s i).1) {s : σ} (hs : pending s = [])
    (is : List ι) : answers step takenOut s is <+: answers step takenIn s is := by
  have hfifo := relay_fifo takenIn takenOut pending hStep s is
  rw [hs, List.nil_append] at hfifo
  exact ⟨_, hfifo.symm⟩

/-- An item taken out was taken in with the same number, after the same items. -/
theorem prefix_at {l l' : List α} (h : l <+: l') {n : Nat} {a : α} (ha : l[n]? = some a) :
    l'[n]? = some a ∧ l'.take (n + 1) = l.take (n + 1) := by
  obtain ⟨rest, rfl⟩ := h
  have hlen : n < l.length := (List.getElem?_eq_some_iff.mp ha).1
  exact ⟨by rw [List.getElem?_append_left hlen, ha], List.take_append_of_le_length hlen⟩

end Relay

end Uniwm.Base
