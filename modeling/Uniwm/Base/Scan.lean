import Mathlib.Data.List.Basic

/-!
# Base — pointer scans

The C idiom `while (p < end && *p != sep) p++` over a region of memory. `span` is
what lies between two pointers, `scanTo` is where the scan stops. A text cut at
every separator is what one scan passes over, followed, where the scan stopped
at a separator, by the cut of what is behind it (`splitOn_span`).
-/

namespace Uniwm.Base

section Scan

variable {α : Type*}

/-- What memory holds from `p` up to `q`. -/
def span (mem : Nat → α) (p q : Nat) : List α := (List.range' p (q - p)).map mem

/-- `while (p < stop && *p != sep) p++` -/
def scanTo [DecidableEq α] (mem : Nat → α) (sep : α) (stop p : Nat) : Nat :=
  if p < stop ∧ mem p ≠ sep then scanTo mem sep stop (p + 1) else p
termination_by stop - p

/-- The positions at which that loop looks into memory; `&&` looks there only below `stop`. -/
def scanReads [DecidableEq α] (mem : Nat → α) (sep : α) (stop p : Nat) : List Nat :=
  if p < stop then
    if mem p ≠ sep then p :: scanReads mem sep stop (p + 1) else [p]
  else []
termination_by stop - p

@[simp] theorem span_length (mem : Nat → α) (p q : Nat) : (span mem p q).length = q - p := by
  simp [span]

theorem span_cons (mem : Nat → α) {p q : Nat} (h : p < q) :
    span mem p q = mem p :: span mem (p + 1) q := by
  have hlen : q - p = (q - (p + 1)) + 1 := by omega
  rw [span, hlen, List.range'_succ, List.map_cons]
  rfl

theorem span_append (mem : Nat → α) {p q r : Nat} (hpq : p ≤ q) (hqr : q ≤ r) :
    span mem p r = span mem p q ++ span mem q r := by
  have hsum : r - p = (q - p) + (r - q) := by omega
  have hq : p + 1 * (q - p) = q := by omega
  rw [span, span, span, ← List.map_append, hsum, ← List.range'_append, hq]

theorem mem_span {mem : Nat → α} {p q : Nat} {x : α} :
    x ∈ span mem p q ↔ ∃ a, p ≤ a ∧ a < q ∧ mem a = x := by
  simp only [span, List.mem_map, List.mem_range'_1]
  constructor
  · rintro ⟨a, ⟨hlo, hhi⟩, hx⟩
    exact ⟨a, hlo, by omega, hx⟩
  · rintro ⟨a, hlo, hhi, hx⟩
    exact ⟨a, ⟨hlo, by omega⟩, hx⟩

variable [DecidableEq α] (mem : Nat → α) (sep : α) (stop : Nat)

theorem le_scanTo (p : Nat) : p ≤ scanTo mem sep stop p := by
  fun_induction scanTo mem sep stop p with
  | case1 p _ ih => omega
  | case2 p _ => exact Nat.le_refl p

theorem scanTo_le {p : Nat} (h : p ≤ stop) : scanTo mem sep stop p ≤ stop := by
  fun_induction scanTo mem sep stop p with
  | case1 p hp ih => exact ih (by omega)
  | case2 p _ => exact h

/-- The scan passes over no separator. -/
theorem ne_of_lt_scanTo (p : Nat) : ∀ a, p ≤ a → a < scanTo mem sep stop p → mem a ≠ sep := by
  fun_induction scanTo mem sep stop p with
  | case1 p hp ih =>
    intro a hlo hhi
    rcases Nat.eq_or_lt_of_le hlo with rfl | hlt
    · exact hp.2
    · exact ih a hlt hhi
  | case2 p _ =>
    intro a hlo hhi
    omega

/-- Where it stops before the end there is one. -/
theorem scanTo_eq_sep (p : Nat) (h : scanTo mem sep stop p < stop) :
    mem (scanTo mem sep stop p) = sep := by
  fun_induction scanTo mem sep stop p with
  | case1 p _ ih => exact ih h
  | case2 p hp =>
    by_contra hne
    exact hp ⟨h, hne⟩

theorem mem_scanReads {p a : Nat} (h : a ∈ scanReads mem sep stop p) : p ≤ a ∧ a < stop := by
  fun_induction scanReads mem sep stop p with
  | case1 p hp hne ih =>
    rcases List.mem_cons.mp h with rfl | h
    · exact ⟨Nat.le_refl a, hp⟩
    · have := ih h
      omega
  | case2 p hp hsep =>
    have ha : a = p := List.mem_singleton.mp h
    subst ha
    exact ⟨Nat.le_refl a, hp⟩
  | case3 p hp => exact absurd h List.not_mem_nil

/-- The cut of a text, read off its first scan. -/
theorem splitOn_span {p : Nat} (h : p ≤ stop) :
    (span mem p stop).splitOn sep =
      if scanTo mem sep stop p < stop then
        span mem p (scanTo mem sep stop p) ::
          (span mem (scanTo mem sep stop p + 1) stop).splitOn sep
      else [span mem p (scanTo mem sep stop p)] := by
  have hle := scanTo_le mem sep stop h
  have hfree : sep ∉ span mem p (scanTo mem sep stop p) := by
    intro hmem
    obtain ⟨a, hlo, hhi, ha⟩ := mem_span.mp hmem
    exact ne_of_lt_scanTo mem sep stop p a hlo hhi ha
  by_cases hlt : scanTo mem sep stop p < stop
  · rw [if_pos hlt, span_append mem (le_scanTo mem sep stop p) hle, span_cons mem hlt,
      scanTo_eq_sep mem sep stop p hlt]
    exact List.splitOn_append_cons_self_of_not_mem hfree _
  · have heq : scanTo mem sep stop p = stop := by omega
    rw [if_neg hlt]
    rw [heq] at hfree ⊢
    exact List.splitOn_eq_singleton hfree

end Scan

end Uniwm.Base
