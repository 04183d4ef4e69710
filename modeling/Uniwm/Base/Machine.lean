import Mathlib.Data.List.Basic
import Mathlib.Data.List.Induction

/-!
# Base — machines that answer every input

A deterministic machine is a step function `σ → ι → σ × ο`: it reads one input,
moves to the next state and answers with one output. Hooks, event loops and
notification sinks are all of this shape, so the rules for reasoning about their
whole runs are stated once, here, for arbitrary types.

Main results:

* `outputs_getElem?` — the `k`-th output is the step taken from the state reached
  after the first `k` inputs.
* `final_induction` — the invariant rule: what holds at the start and is kept by
  every admitted step holds after every run of admitted steps.
* `final_history` — the same for an invariant that also speaks of the inputs read.
* `final_trace` — the same for one that speaks of the answers, too.
* `final_simulation` — machines whose related states answer alike and stay related.
* `atEachStep_cons` — a condition on every step of a run, on what came before it and
  what comes after, unfolds along the run.
* `atSomeStep_concat` — that some step of a run was of a kind, for a run one step longer.
* `exists_heldSince` — what holds after a run and did not at its start has held since some
  step.
-/

namespace Uniwm.Base

variable {σ τ ι ο ο' : Type*}

/-! ## Runs -/

/-- The state after reading `is` from `s`. -/
def final (step : σ → ι → σ × ο) (s : σ) (is : List ι) : σ :=
  is.foldl (fun s i => (step s i).1) s

/-- The answers to `is` read from `s`, one for each input. -/
def outputs (step : σ → ι → σ × ο) : σ → List ι → List ο
  | _, [] => []
  | s, i :: is => (step s i).2 :: outputs step (step s i).1 is

section Runs

variable (step : σ → ι → σ × ο)

@[simp] theorem final_nil (s : σ) : final step s [] = s := rfl

@[simp] theorem final_cons (s : σ) (i : ι) (is : List ι) :
    final step s (i :: is) = final step (step s i).1 is := rfl

@[simp] theorem outputs_nil (s : σ) : outputs step s [] = [] := rfl

@[simp] theorem outputs_cons (s : σ) (i : ι) (is : List ι) :
    outputs step s (i :: is) = (step s i).2 :: outputs step (step s i).1 is := rfl

theorem final_append (s : σ) (is js : List ι) :
    final step s (is ++ js) = final step (final step s is) js := by
  simp [final]

/-- The `k`-th answer is given from the state reached after the first `k` inputs. -/
theorem outputs_getElem? (s : σ) (is : List ι) (k : Nat) :
    (outputs step s is)[k]? =
      is[k]?.map fun i => (step (final step s (is.take k)) i).2 := by
  induction is generalizing s k with
  | nil => simp
  | cons i is ih =>
    cases k with
    | zero => simp
    | succ k => simp [ih]

end Runs

/-! ## Invariants -/

/-- **Invariant rule.** A property that holds at the start and that every
admitted step keeps holds after every run of admitted steps. -/
theorem final_induction (step : σ → ι → σ × ο) (Inv : σ → Prop) (Adm : ι → Prop)
    (hStep : ∀ s i, Adm i → Inv s → Inv (step s i).1) {s : σ} (hs : Inv s) {is : List ι}
    (hAdm : ∀ i ∈ is, Adm i) : Inv (final step s is) := by
  induction is generalizing s with
  | nil => exact hs
  | cons i is ih =>
    rw [List.forall_mem_cons] at hAdm
    exact ih (hStep s i hAdm.1 hs) hAdm.2

/-- **Invariant rule with history.** An invariant that also speaks of the inputs read
so far holds, after a run, of all of them. -/
theorem final_history (step : σ → ι → σ × ο) (Inv : σ → List ι → Prop)
    (hStep : ∀ s past i, Inv s past → Inv (step s i).1 (past ++ [i])) {s : σ} (hs : Inv s [])
    (is : List ι) : Inv (final step s is) is := by
  have hrun : ∀ past, Inv s past → Inv (final step s is) (past ++ is) := by
    clear hs
    induction is generalizing s with
    | nil => simp
    | cons i is ih =>
      intro past hs
      simpa using ih (past ++ [i]) (hStep s past i hs)
  exact hrun [] hs

/-- **Invariant rule with the trace.** An invariant that also speaks of the inputs read so far
and of the answers to them holds, after a run, of all of them. -/
theorem final_trace (step : σ → ι → σ × ο) (Inv : σ → List (ι × ο) → Prop)
    (hStep : ∀ s past i, Inv s past → Inv (step s i).1 (past ++ [(i, (step s i).2)])) {s : σ}
    (hs : Inv s []) (is : List ι) : Inv (final step s is) (is.zip (outputs step s is)) := by
  have hrun : ∀ past, Inv s past → Inv (final step s is) (past ++ is.zip (outputs step s is)) := by
    clear hs
    induction is generalizing s with
    | nil => simp
    | cons i is ih =>
      intro past hs
      simpa using ih (past ++ [(i, (step s i).2)]) (hStep s past i hs)
  exact hrun [] hs

/-- **Simulation rule.** States that stay related while both machines give the same
answers give the same answers for ever. -/
theorem final_simulation (step : σ → ι → σ × ο) (step' : τ → ι → τ × ο) (R : σ → τ → Prop)
    (Adm : ι → Prop)
    (hStep : ∀ s t i, Adm i → R s t → (step s i).2 = (step' t i).2 ∧ R (step s i).1 (step' t i).1)
    {s : σ} {t : τ} (hst : R s t) {is : List ι} (hAdm : ∀ i ∈ is, Adm i) :
    outputs step s is = outputs step' t is ∧ R (final step s is) (final step' t is) := by
  induction is generalizing s t with
  | nil => exact ⟨rfl, hst⟩
  | cons i is ih =>
    rw [List.forall_mem_cons] at hAdm
    obtain ⟨hanswer, hnext⟩ := hStep s t i hAdm.1 hst
    obtain ⟨hanswers, hend⟩ := ih hnext hAdm.2
    exact ⟨by rw [outputs_cons, outputs_cons, hanswer, hanswers], hend⟩

/-! ## Two machines side by side, conditions on steps -/

/-- Two machines reading the same inputs. -/
def both (step : σ → ι → σ × ο) (step' : τ → ι → τ × ο') (st : σ × τ) (i : ι) :
    (σ × τ) × (ο × ο') :=
  (((step st.1 i).1, (step' st.2 i).1), ((step st.1 i).2, (step' st.2 i).2))

/-- `Q` holds at each step of a run: of the state before it, the input it reads and
those still to be read. -/
def AtEachStep (step : σ → ι → σ × ο) (Q : σ → ι → List ι → Prop) (s : σ) (is : List ι) : Prop :=
  ∀ past i rest, is = past ++ i :: rest → Q (final step s past) i rest

section AtEachStep

variable {step : σ → ι → σ × ο} {Q : σ → ι → List ι → Prop} {s : σ} {i : ι} {is : List ι}

@[simp] theorem atEachStep_nil : AtEachStep step Q s [] := by
  intro past i rest h
  simp at h

theorem atEachStep_cons :
    AtEachStep step Q s (i :: is) ↔ Q s i is ∧ AtEachStep step Q (step s i).1 is := by
  constructor
  · intro h
    refine ⟨h [] i is rfl, ?_⟩
    intro past j rest hsplit
    exact h (i :: past) j rest (by rw [hsplit, List.cons_append])
  · rintro ⟨hhead, htail⟩ past j rest hsplit
    cases past with
    | nil =>
      rw [List.nil_append, List.cons.injEq] at hsplit
      obtain ⟨rfl, rfl⟩ := hsplit
      exact hhead
    | cons i' past =>
      rw [List.cons_append, List.cons.injEq] at hsplit
      obtain ⟨rfl, hsplit⟩ := hsplit
      exact htail past j rest hsplit

end AtEachStep

/-- Some step of a run is as `Q` says of the state before it and the input it reads. -/
def AtSomeStep (step : σ → ι → σ × ο) (Q : σ → ι → Prop) (s : σ) (is : List ι) : Prop :=
  ∃ past i rest, is = past ++ i :: rest ∧ Q (final step s past) i

section AtSomeStep

variable {step : σ → ι → σ × ο} {Q : σ → ι → Prop} {s : σ} {i : ι} {is : List ι}

@[simp] theorem atSomeStep_nil : ¬ AtSomeStep step Q s [] := by
  rintro ⟨past, i, rest, h, -⟩
  simp at h

theorem atSomeStep_concat :
    AtSomeStep step Q s (is ++ [i]) ↔ AtSomeStep step Q s is ∨ Q (final step s is) i := by
  constructor
  · rintro ⟨past, j, rest, hsplit, hq⟩
    rcases List.eq_nil_or_concat rest with rfl | ⟨rest, k, rfl⟩
    · obtain ⟨rfl, hlast⟩ := List.append_inj' hsplit rfl
      cases hlast
      exact Or.inr hq
    · rw [List.concat_eq_append, ← List.cons_append, ← List.append_assoc] at hsplit
      obtain ⟨rfl, -⟩ := List.append_inj' hsplit rfl
      exact Or.inl ⟨past, j, rest, rfl, hq⟩
  · rintro (⟨past, j, rest, rfl, hq⟩ | hq)
    · exact ⟨past, j, rest ++ [i], by simp, hq⟩
    · exact ⟨is, i, [], rfl, hq⟩

end AtSomeStep

/-! ## Since when -/

/-- `P` does not hold after `before`, and it holds from the step `i` on, all through `since`. -/
structure HeldSince (step : σ → ι → σ × ο) (P : σ → Prop) (s : σ) (before : List ι) (i : ι)
    (since : List ι) : Prop where
  absent : ¬ P (final step s before)
  held : ∀ mid, mid <+: since → P (final step s (before ++ i :: mid))

section HeldSince

variable {step : σ → ι → σ × ο} {P : σ → Prop} {s : σ} {before is : List ι} {i j : ι}

theorem HeldSince.of_concat (h : HeldSince step P s before i (is ++ [j])) :
    HeldSince step P s before i is :=
  ⟨h.absent, fun mid hmid => h.held mid (hmid.trans (List.prefix_append is [j]))⟩

theorem HeldSince.concat (h : HeldSince step P s before i is)
    (hp : P (final step s (before ++ i :: (is ++ [j])))) :
    HeldSince step P s before i (is ++ [j]) := by
  refine ⟨h.absent, fun mid hmid => ?_⟩
  rcases List.prefix_concat_iff.mp hmid with rfl | hmid
  · exact hp
  · exact h.held mid hmid

/-- What holds after a run and did not hold at its start has held since one of its steps. -/
theorem exists_heldSince (hs : ¬ P s) (hp : P (final step s is)) :
    ∃ before i since, is = before ++ i :: since ∧ HeldSince step P s before i since := by
  induction is using List.reverseRecOn with
  | nil => exact absurd hp hs
  | append_singleton is j ih =>
    by_cases hlast : P (final step s is)
    · obtain ⟨before, i, since, rfl, hheld⟩ := ih hlast
      exact ⟨before, i, since ++ [j], by simp, hheld.concat (by simpa using hp)⟩
    -- it has come with the last step
    · refine ⟨is, j, [], rfl, hlast, ?_⟩
      intro mid hmid
      rw [List.prefix_nil.mp hmid]
      exact hp

end HeldSince

end Uniwm.Base
