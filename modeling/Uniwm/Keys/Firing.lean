import Mathlib.Order.Basic
import Mathlib.Logic.Relation
import Mathlib.Data.Nat.Basic
import Mathlib.Data.List.Induction
import Mathlib.Tactic.SplitIfs
import Mathlib.Tactic.Push
import Uniwm.Keys.Suppression

/-!
# uniwm — the firing loop and callbacks that edit the table

`process_keybinds` walks the live array of bindings by index and runs each due
callback where it stands. A callback may bind and unbind keys: a binding is appended
behind all others, and an unbinding moves the last entry into the hole. So entries
only ever move towards the front, and the walk only ever moves towards the back.

What follows from that, for arbitrary callbacks:

* an entry that the walk has passed is never reached again (`fireFrom_gone`), hence
  no binding runs twice (`fireFrom_once`);
* a due entry ahead of the walk runs unless some callback takes it from the part
  still to be walked (`fireFrom_fate`); an unbinding at or before the running slot
  does that to the last entry, which then is skipped;
* a binding made during the press runs in the same press if it matches, lands ahead
  of the walk and stays there (`fireFrom_born`).

What the callbacks do on the way is described by a relation on the places where the walk
stands (`OnWalk`), which the loop follows (`mem_fireFrom_iff`).

`processKeybinds_fires_as_due_iff` puts this together: the press is handled as it
should be exactly when every due entry that leaves the part still to be walked is unbound
before its turn, and every matching latecomer ahead of the walk is taken away again by a
later callback.
-/

namespace Uniwm

open Base

/-! ## Calls on the table -/

theorem KeybindTable.entries_nodup (t : KeybindTable) : t.entries.Nodup :=
  List.Nodup.of_map _ t.serial_nodup

theorem KeybindTable.entries_length_le (t : KeybindTable) : t.entries.length ≤ keybindMax := by
  rw [entries, Slots.toList_length]
  exact t.binds.count_le

theorem KeybindTable.get?_eq (t : KeybindTable) (i : Nat) :
    t.binds.get? i = t.entries[i]? := Slots.get?_eq _ _

theorem KeybindTable.mem_drop_remove {t : KeybindTable} {j : Nat} (hj : j < t.binds.count)
    {p : Nat} {e : Keybind} (h : e ∈ (t.remove j hj).entries.drop p) : e ∈ t.entries.drop p := by
  have hlen : j < t.entries.length := by rwa [entries, Slots.toList_length]
  have herase : (t.remove j hj).entries = swapRemove t.entries j := Slots.toList_erase _ _ hj
  rw [herase] at h
  -- a hole before `p` costs the last entry, one behind `p` the unbound entry
  rcases Nat.lt_or_ge j p with hjp | hpj
  · rw [drop_swapRemove hjp] at h
    exact List.dropLast_subset _ h
  · rw [mem_drop_swapRemove hpj hlen] at h
    exact List.mem_of_mem_eraseIdx h

/-- What a call can do to the table: serials already given out stay so, and from any
position on, only an entry with a new serial can turn up. -/
theorem BindCall.run_spec (t : KeybindTable) (call : BindCall) :
    t.made ≤ (call.run t).made ∧
      ∀ p, ∀ e ∈ (call.run t).entries.drop p, e ∈ t.entries.drop p ∨ t.made ≤ e.serial := by
  cases call with
  | bind combo cb ctx keyboard =>
    simp only [BindCall.run, wmBindKey]
    -- refused: no callback, no keyboard; then the table has room or not
    split_ifs with hcb hkb hcap
    · exact ⟨le_rfl, fun p e he => Or.inl he⟩
    · exact ⟨le_rfl, fun p e he => Or.inl he⟩
    · refine ⟨Nat.le_succ _, ?_⟩
      intro p e he
      -- the entry made stands last, with the serial just given out
      rw [KeybindTable.entries, KeybindTable.add, Slots.toList_push, List.drop_append,
        List.mem_append] at he
      rcases he with he | he
      · exact Or.inl he
      · have heq : e = ⟨combo, cb, ctx, t.made⟩ := by simpa using List.mem_of_mem_drop he
        exact Or.inr (heq ▸ le_rfl)
    · exact ⟨le_rfl, fun p e he => Or.inl he⟩
  | unbind combo =>
    simp only [BindCall.run, wmUnbindKey]
    split
    · exact ⟨le_rfl, fun p e he => Or.inl he⟩
    · exact ⟨le_rfl, fun p e he => Or.inl (KeybindTable.mem_drop_remove _ he)⟩

theorem runCalls_spec (calls : List BindCall) (t : KeybindTable) :
    t.made ≤ (runCalls t calls).made ∧
      ∀ p, ∀ e ∈ (runCalls t calls).entries.drop p,
        e ∈ t.entries.drop p ∨ t.made ≤ e.serial := by
  induction calls generalizing t with
  | nil => exact ⟨le_rfl, fun p e he => Or.inl he⟩
  | cons call calls ih =>
    obtain ⟨hmade, hdrop⟩ := call.run_spec t
    obtain ⟨hmade', hdrop'⟩ := ih (call.run t)
    refine ⟨hmade.trans hmade', ?_⟩
    intro p e he
    rcases hdrop' p e he with hold | hnew
    · exact hdrop p e hold
    · exact Or.inr (hmade.trans hnew)

/-- An entry with a serial already given out does not come back behind a position. -/
theorem not_mem_drop_runCalls {t : KeybindTable} {calls : List BindCall} {p : Nat} {e : Keybind}
    (hold : e.serial < t.made) (h : e ∉ t.entries.drop p) :
    e ∉ (runCalls t calls).entries.drop p := by
  intro he
  rcases (runCalls_spec calls t).2 p e he with h' | h'
  · exact h h'
  · omega

/-! ## One entry along the walk -/

/-- The part of the table that the walk has yet to reach when `f`'s callback is called,
or returns. -/
def Firing.ahead (f : Firing) (t : KeybindTable) : List Keybind := t.entries.drop (f.slot + 1)

/-- The callback of `f` takes `e` from the part still to be walked: it unbinds `e`, or
an unbinding moves `e` to a slot already walked. -/
def Firing.Leaves (f : Firing) (e : Keybind) : Prop :=
  e ∈ f.ahead f.before ∧ e ∉ f.ahead f.after

section Walk

variable {keyMax : Nat} {cbs : Callbacks} {key : MCKey} {best : Nat} {down : Vector Bool keyMax}

theorem fireFrom_stop {i : Nat} {t : KeybindTable} (hx : t.entries[i]? = none) (fuel : Nat)
    (ran : List Keybind) : fireFrom cbs key best down (fuel + 1) i t ran = (t, []) := by
  rw [fireFrom, KeybindTable.get?_eq, hx]

theorem fireFrom_run {i : Nat} {t : KeybindTable} {x : Keybind} (hx : t.entries[i]? = some x)
    (hm : firesFor key best down x = true) (fuel : Nat) (ran : List Keybind) :
    fireFrom cbs key best down (fuel + 1) i t ran =
      ((fireFrom cbs key best down fuel (i + 1) (runCalls t (cbs (ran ++ [x])))
          (ran ++ [x])).1,
        ⟨i, x, t, cbs (ran ++ [x])⟩ ::
          (fireFrom cbs key best down fuel (i + 1) (runCalls t (cbs (ran ++ [x])))
            (ran ++ [x])).2) := by
  rw [fireFrom, KeybindTable.get?_eq, hx]
  simp only [hm, if_true]

theorem fireFrom_skip {i : Nat} {t : KeybindTable} {x : Keybind} (hx : t.entries[i]? = some x)
    (hm : ¬ firesFor key best down x = true) (fuel : Nat) (ran : List Keybind) :
    fireFrom cbs key best down (fuel + 1) i t ran =
      fireFrom cbs key best down fuel (i + 1) t ran := by
  rw [fireFrom, KeybindTable.get?_eq, hx]
  simp only [if_neg hm]

/-- Each firing runs the matching entry in its slot, of a table no younger than the
one the loop started from. -/
theorem fireFrom_firing {fuel i : Nat} {t : KeybindTable} {ran : List Keybind} {f : Firing}
    (hf : f ∈ (fireFrom cbs key best down fuel i t ran).2) :
    f.before.entries[f.slot]? = some f.entry ∧ firesFor key best down f.entry = true ∧
      t.made ≤ f.before.made := by
  induction fuel generalizing i t ran with
  | zero => simp [fireFrom] at hf
  | succ fuel ih =>
    cases hx : t.entries[i]? with
    | none => simp [fireFrom_stop hx] at hf
    | some x =>
      by_cases hm : firesFor key best down x = true
      · rw [fireFrom_run hx hm, List.mem_cons] at hf
        rcases hf with rfl | hf
        -- the callback run in slot `i`, and those after it
        · exact ⟨hx, hm, le_rfl⟩
        · obtain ⟨h1, h2, h3⟩ := ih hf
          exact ⟨h1, h2, (runCalls_spec _ t).1.trans h3⟩
      · rw [fireFrom_skip hx hm] at hf
        exact ih hf

/-- An entry that is not ahead, and is not still to be made, is never ahead again. -/
theorem fireFrom_gone {fuel i : Nat} {t : KeybindTable} {ran : List Keybind} {e : Keybind}
    (hold : e.serial < t.made) (h : e ∉ t.entries.drop i) {f : Firing}
    (hf : f ∈ (fireFrom cbs key best down fuel i t ran).2) :
    e ∉ f.before.entries.drop f.slot := by
  induction fuel generalizing i t ran with
  | zero => simp [fireFrom] at hf
  | succ fuel ih =>
    have hnext : e ∉ t.entries.drop (i + 1) := fun he =>
      h (List.drop_subset_drop_left _ (Nat.le_succ i) he)
    cases hx : t.entries[i]? with
    | none => simp [fireFrom_stop hx] at hf
    | some x =>
      by_cases hm : firesFor key best down x = true
      · rw [fireFrom_run hx hm, List.mem_cons] at hf
        rcases hf with rfl | hf
        · exact h
        · exact ih (hold.trans_le (runCalls_spec _ t).1) (not_mem_drop_runCalls hold hnext) hf
      · rw [fireFrom_skip hx hm] at hf
        exact ih hold hnext hf

/-- Such an entry is not run either. -/
theorem fireFrom_gone_entry {fuel i : Nat} {t : KeybindTable} {ran : List Keybind} {e : Keybind}
    (hold : e.serial < t.made) (h : e ∉ t.entries.drop i) :
    e ∉ (fireFrom cbs key best down fuel i t ran).2.map (·.entry) := by
  intro he
  obtain ⟨f, hf, rfl⟩ := List.mem_map.mp he
  refine fireFrom_gone hold h hf ?_
  exact List.mem_of_getElem? (i := 0) (by simpa using (fireFrom_firing hf).1)

/-- The entry in slot `i` is not behind slot `i`. -/
theorem KeybindTable.not_mem_drop_of_getElem? {t : KeybindTable} {i : Nat} {e : Keybind}
    (hx : t.entries[i]? = some e) : e ∉ t.entries.drop (i + 1) := by
  obtain ⟨hi, rfl⟩ := List.getElem?_eq_some_iff.mp hx
  have hnodup := t.entries_nodup.sublist (List.drop_sublist i t.entries)
  rw [List.drop_eq_getElem_cons hi, List.nodup_cons] at hnodup
  exact hnodup.1

theorem KeybindTable.serial_lt_of_getElem? {t : KeybindTable} {i : Nat} {e : Keybind}
    (hx : t.entries[i]? = some e) : e.serial < t.made :=
  t.serial_lt e (List.mem_of_getElem? hx)

/-- The walk only moves towards the back. -/
theorem fireFrom_slots (fuel i : Nat) (t : KeybindTable) (ran : List Keybind) :
    (fireFrom cbs key best down fuel i t ran).2.Pairwise (fun f g => f.slot < g.slot) ∧
      ∀ f ∈ (fireFrom cbs key best down fuel i t ran).2, i ≤ f.slot := by
  induction fuel generalizing i t ran with
  | zero => simp [fireFrom]
  | succ fuel ih =>
    cases hx : t.entries[i]? with
    | none => simp [fireFrom_stop hx]
    | some x =>
      by_cases hm : firesFor key best down x = true
      · rw [fireFrom_run hx hm, List.pairwise_cons, List.forall_mem_cons]
        obtain ⟨hpairs, hfrom⟩ := ih (i + 1) (runCalls t (cbs (ran ++ [x]))) (ran ++ [x])
        refine ⟨⟨hfrom, hpairs⟩, Nat.le_refl i, ?_⟩
        intro f hf
        exact Nat.le_of_succ_le (hfrom f hf)
      · rw [fireFrom_skip hx hm]
        obtain ⟨hpairs, hfrom⟩ := ih (i + 1) t ran
        exact ⟨hpairs, fun f hf => Nat.le_of_succ_le (hfrom f hf)⟩

/-- **No binding runs twice.** -/
theorem fireFrom_once (fuel i : Nat) (t : KeybindTable) (ran : List Keybind) :
    ((fireFrom cbs key best down fuel i t ran).2.map (·.entry)).Nodup := by
  induction fuel generalizing i t ran with
  | zero => simp [fireFrom]
  | succ fuel ih =>
    cases hx : t.entries[i]? with
    | none => simp [fireFrom_stop hx]
    | some x =>
      by_cases hm : firesFor key best down x = true
      · rw [fireFrom_run hx hm, List.map_cons, List.nodup_cons]
        have hlt := t.serial_lt_of_getElem? hx
        refine ⟨fireFrom_gone_entry (hlt.trans_le (runCalls_spec _ t).1) ?_, ih ..⟩
        exact not_mem_drop_runCalls hlt (t.not_mem_drop_of_getElem? hx)
      · rw [fireFrom_skip hx hm]
        exact ih ..

/-- **Fate of an entry ahead.** A matching entry ahead of the walk runs exactly when no
callback takes it from the part still to be walked. -/
theorem fireFrom_fate {fuel i : Nat} {t : KeybindTable} {ran : List Keybind} {e : Keybind}
    (hfuel : keybindMax ≤ i + fuel) (hm : firesFor key best down e = true)
    (he : e ∈ t.entries.drop i) :
    e ∈ (fireFrom cbs key best down fuel i t ran).2.map (·.entry) ↔
      ∀ f ∈ (fireFrom cbs key best down fuel i t ran).2, ¬ f.Leaves e := by
  have hold : e.serial < t.made := t.serial_lt e (List.mem_of_mem_drop he)
  induction fuel generalizing i t ran with
  | zero =>
    -- the fuel covers the table, so nothing is ahead
    have := t.entries_length_le
    rw [List.drop_eq_nil_of_le (by omega)] at he
    simp at he
  | succ fuel ih =>
    have hi : i < t.entries.length := by
      by_contra hge
      rw [List.drop_eq_nil_of_le (by omega)] at he
      simp at he
    have hx : t.entries[i]? = some t.entries[i] := List.getElem?_eq_getElem hi
    generalize t.entries[i] = x at hx
    -- the entry is the one in slot `i` or comes after it
    have hcons : e = x ∨ e ∈ t.entries.drop (i + 1) := by
      have hdrop : t.entries.drop i = x :: t.entries.drop (i + 1) := by
        rw [List.drop_eq_getElem_cons hi, (List.getElem?_eq_some_iff.mp hx).2]
      rwa [hdrop, List.mem_cons] at he
    by_cases hmx : firesFor key best down x = true
    · rw [fireFrom_run hx hmx, List.map_cons, List.mem_cons, List.forall_mem_cons]
      have hmade := hold.trans_le (runCalls_spec (cbs (ran ++ [x])) t).1
      rcases hcons with rfl | hnext
      · -- the walk stands on the entry itself
        have hbehind := t.not_mem_drop_of_getElem? hx
        refine iff_of_true (Or.inl rfl) ⟨fun h => hbehind h.1, fun f hf h => ?_⟩
        exact fireFrom_gone hmade (not_mem_drop_runCalls hold hbehind) hf
          (List.drop_subset_drop_left _ (Nat.le_succ _) h.1)
      · have hne : e ≠ x := fun h => t.not_mem_drop_of_getElem? hx (h ▸ hnext)
        by_cases hstay : e ∈ (runCalls t (cbs (ran ++ [x]))).entries.drop (i + 1)
        · -- still ahead when the callback returns
          have hrest := @ih (i + 1) (runCalls t (cbs (ran ++ [x]))) (ran ++ [x]) (by omega) hstay
            hmade
          exact ⟨fun h => ⟨fun hl => hl.2 hstay, hrest.mp (h.resolve_left hne)⟩,
            fun h => Or.inr (hrest.mpr h.2)⟩
        · -- taken away by this callback
          refine iff_of_false ?_ fun h => h.1 ⟨hnext, hstay⟩
          rintro (h | h)
          · exact hne h
          · exact fireFrom_gone_entry hmade hstay h
    · rw [fireFrom_skip hx hmx]
      have hne : e ≠ x := fun h => hmx (h ▸ hm)
      exact ih (by omega) (hcons.resolve_left hne) hold

/-- What a callback makes is numbered after all that was there. -/
theorem Firing.made_le {f : Firing} {e : Keybind} (hb : e ∉ f.before.entries)
    (ha : e ∈ f.ahead f.after) : f.before.made ≤ e.serial := by
  rcases (runCalls_spec f.calls f.before).2 _ e ha with h | h
  · exact absurd (List.mem_of_mem_drop h) hb
  · exact h

/-- A list is split at its head or further on. -/
theorem exists_split_cons {α : Type*} {a : α} {rest : List α} {P : α → List α → Prop} :
    (∃ l b l', a :: rest = l ++ b :: l' ∧ P b l') ↔
      P a rest ∨ ∃ l b l', rest = l ++ b :: l' ∧ P b l' := by
  constructor
  · rintro ⟨l, b, l', hsplit, h⟩
    cases l with
    | nil =>
      obtain ⟨rfl, rfl⟩ := List.cons.inj hsplit
      exact Or.inl h
    | cons y l => exact Or.inr ⟨l, b, l', (List.cons.inj hsplit).2, h⟩
  · rintro (h | ⟨l, b, l', hsplit, h⟩)
    · exact ⟨[], a, rest, rfl, h⟩
    · exact ⟨a :: l, b, l', by rw [hsplit, List.cons_append], h⟩

/-- **Fate of a latecomer.** A matching entry made during the walk runs exactly when the
callback that made it leaves it ahead of the walk and no later callback takes it away. -/
theorem fireFrom_born {fuel i : Nat} {t : KeybindTable} {ran : List Keybind} {e : Keybind}
    (hfuel : keybindMax ≤ i + fuel) (hm : firesFor key best down e = true)
    (hnew : t.made ≤ e.serial) :
    e ∈ (fireFrom cbs key best down fuel i t ran).2.map (·.entry) ↔
      ∃ l f l', (fireFrom cbs key best down fuel i t ran).2 = l ++ f :: l' ∧
        e ∉ f.before.entries ∧ e ∈ f.ahead f.after ∧ ∀ g ∈ l', ¬ g.Leaves e := by
  induction fuel generalizing i t ran with
  | zero => simp [fireFrom]
  | succ fuel ih =>
    cases hx : t.entries[i]? with
    | none => simp [fireFrom_stop hx]
    | some x =>
      by_cases hmx : firesFor key best down x = true
      · have hne : e ≠ x := by
          rintro rfl
          have := t.serial_lt_of_getElem? hx
          omega
        have habsent : e ∉ t.entries := by
          intro h
          have := t.serial_lt e h
          omega
        -- so `e` is not bound yet, and the callback run in slot `i` is not its own
        rw [fireFrom_run hx hmx, List.map_cons, List.mem_cons, or_iff_right hne,
          exists_split_cons]
        -- once `e` exists, no later callback can be the one that makes it
        have hlater : e.serial < (runCalls t (cbs (ran ++ [x]))).made → ∀ f ∈
            (fireFrom cbs key best down fuel (i + 1) (runCalls t (cbs (ran ++ [x])))
              (ran ++ [x])).2, e ∉ f.before.entries → e ∉ f.ahead f.after := by
          intro hlt f hf hb ha
          have hmade := (fireFrom_firing hf).2.2
          have hserial := Firing.made_le hb ha
          omega
        by_cases hstay : e ∈ (runCalls t (cbs (ran ++ [x]))).entries.drop (i + 1)
        · have hlt := KeybindTable.serial_lt _ e (List.mem_of_mem_drop hstay)
          -- made by this callback and left ahead: from here on it is an entry like any other
          rw [fireFrom_fate (by omega) hm hstay]
          constructor
          · intro h
            exact Or.inl ⟨habsent, hstay, h⟩
          · rintro (⟨-, -, h⟩ | ⟨l, f, l', hsplit, hb, ha, -⟩)
            · exact h
            · exact absurd ha (hlater hlt f (by simp [hsplit]) hb)
        · rw [or_iff_right fun h => hstay h.2.1]
          by_cases hlt : e.serial < (runCalls t (cbs (ran ++ [x]))).made
          · -- made by this callback, but not left ahead of the walk
            refine iff_of_false (fireFrom_gone_entry hlt hstay) ?_
            rintro ⟨l, f, l', hsplit, hb, ha, -⟩
            exact hlater hlt f (by simp [hsplit]) hb ha
          · -- not made yet
            exact ih (by omega) (by omega)
      · rw [fireFrom_skip hx hmx]
        exact ih (by omega) hnew

/-- The callbacks after `f` are those in later slots. -/
theorem mem_later_iff {l l' : List Firing} {f g : Firing}
    (hslots : (l ++ f :: l').Pairwise fun f g => f.slot < g.slot) (hg : g ∈ l ++ f :: l') :
    g ∈ l' ↔ f.slot < g.slot := by
  rw [List.pairwise_append, List.pairwise_cons] at hslots
  constructor
  · exact hslots.2.1.1 g
  · intro hlt
    rcases List.mem_append.mp hg with hbefore | hg
    · have := hslots.2.2 g hbefore f (List.mem_cons_self ..)
      omega
    · rcases List.mem_cons.mp hg with rfl | hafter
      · omega
      · exact hafter

end Walk

/-! ## The walk as a relation -/

/-- Where the walk stands: the slot, the table that it finds there and the bindings run so
far. -/
structure Stand where
  slot : Nat
  table : KeybindTable
  ran : List Keybind

/-- Where the walk stands it runs the callback `f`. -/
def Stand.Runs (cbs : Callbacks) (fires : Keybind → Bool) (s : Stand) (f : Firing) : Prop :=
  ∃ x, s.table.entries[s.slot]? = some x ∧ fires x = true ∧
    f = ⟨s.slot, x, s.table, cbs (s.ran ++ [x])⟩

/-- One slot further, after the callback of the binding if it fires. -/
inductive Stand.Next (cbs : Callbacks) (fires : Keybind → Bool) : Stand → Stand → Prop
  | skip {s : Stand} {x : Keybind} (hx : s.table.entries[s.slot]? = some x)
      (hm : fires x = false) : Next cbs fires s ⟨s.slot + 1, s.table, s.ran⟩
  | run {s : Stand} {x : Keybind} (hx : s.table.entries[s.slot]? = some x)
      (hm : fires x = true) :
      Next cbs fires s ⟨s.slot + 1, runCalls s.table (cbs (s.ran ++ [x])), s.ran ++ [x]⟩

/-- On its way from `s` the walk runs the callback `f`. -/
def OnWalk (cbs : Callbacks) (fires : Keybind → Bool) (s : Stand) (f : Firing) : Prop :=
  ∃ s', Relation.ReflTransGen (Stand.Next cbs fires) s s' ∧ s'.Runs cbs fires f

section OnWalk

variable {cbs : Callbacks} {fires : Keybind → Bool} {s : Stand} {f : Firing}

theorem onWalk_iff :
    OnWalk cbs fires s f ↔
      s.Runs cbs fires f ∨ ∃ s', Stand.Next cbs fires s s' ∧ OnWalk cbs fires s' f := by
  constructor
  · rintro ⟨s', hreach, hruns⟩
    rcases hreach.cases_head with rfl | ⟨s₁, hnext, hreach⟩
    · exact Or.inl hruns
    · exact Or.inr ⟨s₁, hnext, s', hreach, hruns⟩
  · rintro (hruns | ⟨s₁, hnext, s', hreach, hruns⟩)
    · exact ⟨s, .refl, hruns⟩
    · exact ⟨s', .head hnext hreach, hruns⟩

theorem not_onWalk (hx : s.table.entries[s.slot]? = none) : ¬ OnWalk cbs fires s f := by
  rw [onWalk_iff]
  rintro (⟨x, hx', -⟩ | ⟨s', hnext, -⟩)
  · simp [hx] at hx'
  · cases hnext with
    | skip hx' _ => simp [hx] at hx'
    | run hx' _ => simp [hx] at hx'

theorem onWalk_run {x : Keybind} (hx : s.table.entries[s.slot]? = some x)
    (hm : fires x = true) :
    OnWalk cbs fires s f ↔ f = ⟨s.slot, x, s.table, cbs (s.ran ++ [x])⟩ ∨
      OnWalk cbs fires ⟨s.slot + 1, runCalls s.table (cbs (s.ran ++ [x])), s.ran ++ [x]⟩ f := by
  rw [onWalk_iff]
  refine or_congr ⟨?_, fun h => ⟨x, hx, hm, h⟩⟩ ⟨?_, fun h => ⟨_, .run hx hm, h⟩⟩
  · rintro ⟨y, hy, -, rfl⟩
    obtain rfl : x = y := Option.some.inj (hx.symm.trans hy)
    rfl
  · rintro ⟨s', hnext, hwalk⟩
    cases hnext with
    | skip hy hm' =>
      obtain rfl := Option.some.inj (hx.symm.trans hy)
      simp [hm] at hm'
    | run hy _ =>
      obtain rfl := Option.some.inj (hx.symm.trans hy)
      exact hwalk

theorem onWalk_skip {x : Keybind} (hx : s.table.entries[s.slot]? = some x)
    (hm : fires x = false) :
    OnWalk cbs fires s f ↔ OnWalk cbs fires ⟨s.slot + 1, s.table, s.ran⟩ f := by
  rw [onWalk_iff]
  constructor
  · rintro (⟨y, hy, hm', -⟩ | ⟨s', hnext, hwalk⟩)
    · obtain rfl := Option.some.inj (hx.symm.trans hy)
      simp [hm] at hm'
    · cases hnext with
      | skip _ _ => exact hwalk
      | run hy hm' =>
        obtain rfl := Option.some.inj (hx.symm.trans hy)
        simp [hm] at hm'
  · exact fun h => Or.inr ⟨_, .skip hx hm, h⟩

/-- The loop runs the callbacks on the walk. -/
theorem mem_fireFrom_iff {keyMax : Nat} {key : MCKey} {best : Nat} {down : Vector Bool keyMax}
    {fuel i : Nat} {t : KeybindTable} {ran : List Keybind} (hfuel : keybindMax ≤ i + fuel) :
    f ∈ (fireFrom cbs key best down fuel i t ran).2 ↔
      OnWalk cbs (firesFor key best down) ⟨i, t, ran⟩ f := by
  induction fuel generalizing i t ran with
  | zero =>
    -- the walk is past the last slot
    have hx : t.entries[i]? = none :=
      List.getElem?_eq_none (t.entries_length_le.trans hfuel)
    exact iff_of_false (by simp [fireFrom]) (not_onWalk hx)
  | succ fuel ih =>
    cases hx : t.entries[i]? with
    | none => exact iff_of_false (by simp [fireFrom_stop hx]) (not_onWalk hx)
    | some x =>
      cases hm : firesFor key best down x with
      | true =>
        rw [fireFrom_run hx hm, List.mem_cons, ih (by omega)]
        exact (onWalk_run (s := ⟨i, t, ran⟩) hx hm).symm
      | false =>
        rw [fireFrom_skip hx (by simp [hm]), ih (by omega)]
        exact (onWalk_skip (s := ⟨i, t, ran⟩) hx hm).symm

end OnWalk

/-! ## A press and its callbacks -/

section Press

variable {keyMax : Nat}

/-- `e` is bound, triggered and most specific when the press of `key` arrives. -/
def DueAt (kb : Keybinds keyMax) (key : MCKey) (e : Keybind) : Prop :=
  e ∈ kb.table.entries ∧
    comboTriggered key e.combo (setFlag kb.down key true) = true ∧
    ∀ e' ∈ kb.table.entries, comboTriggered key e'.combo (setFlag kb.down key true) = true →
      e'.combo.count ≤ e.combo.count

instance (kb : Keybinds keyMax) (key : MCKey) : DecidablePred (DueAt kb key) := fun _ =>
  inferInstanceAs (Decidable (_ ∧ _ ∧ _))

/-- The test of the firing loop for a press of `key`. -/
def Keybinds.fires (kb : Keybinds keyMax) (key : MCKey) : Keybind → Bool :=
  firesFor key (bestCount key (setFlag kb.down key true) kb.table.entries)
    (setFlag kb.down key true)

/-- The press is handled as its bindings ask: only due ones run, each at most once, and
a due one that no callback before its turn unbinds is not skipped. Its turn is its slot in the
table that the press finds. -/
structure FiresAsDue (kb : Keybinds keyMax) (key : MCKey) (fired : List Firing) : Prop where
  only_due : ∀ e ∈ fired.map (·.entry), DueAt kb key e
  once : (fired.map (·.entry)).Nodup
  not_skipped : ∀ i e, kb.table.entries[i]? = some e → DueAt kb key e →
    (∀ f ∈ fired, f.slot < i → e ∈ f.after.entries) → e ∈ fired.map (·.entry)

/-- The callbacks keep out of the walk's way: a due entry that one takes from the part
still to be walked is unbound before its turn, by that one or by a later one, and a matching
entry that one makes and leaves in that part is taken from it by a later one. -/
structure KeepsWalk (cbs : Callbacks) (kb : Keybinds keyMax) (key : MCKey) : Prop where
  displaced_unbound : ∀ f, OnWalk cbs (kb.fires key) ⟨0, kb.table, []⟩ f →
    ∀ i e, kb.table.entries[i]? = some e → DueAt kb key e → f.Leaves e →
      ∃ g, OnWalk cbs (kb.fires key) ⟨0, kb.table, []⟩ g ∧ g.slot < i ∧ e ∉ g.after.entries
  latecomer_withdrawn : ∀ f, OnWalk cbs (kb.fires key) ⟨0, kb.table, []⟩ f →
    ∀ e, kb.fires key e = true → e ∉ f.before.entries → e ∈ f.ahead f.after →
      ∃ g, OnWalk cbs (kb.fires key) ⟨0, kb.table, []⟩ g ∧ f.slot < g.slot ∧ g.Leaves e

/-- The first loop finds an upper bound of the triggered lengths, and one that is
attained unless nothing is triggered. -/
theorem bestCount_spec (key : MCKey) (down : Vector Bool keyMax) (entries : List Keybind) :
    (∀ e ∈ entries, comboTriggered key e.combo down = true →
      e.combo.count ≤ bestCount key down entries) ∧
    (bestCount key down entries = 0 ∨ ∃ e ∈ entries, comboTriggered key e.combo down = true ∧
      e.combo.count = bestCount key down entries) := by
  unfold bestCount
  induction entries using List.reverseRecOn with
  | nil => simp
  | append_singleton entries x ih =>
    obtain ⟨hle, hatt⟩ := ih
    rw [List.foldl_append, List.foldl_cons, List.foldl_nil]
    -- the last entry raises the bound if it is triggered and longer
    generalize hb : List.foldl _ 0 entries = b at hle hatt ⊢
    simp only [List.mem_append, List.mem_singleton, or_imp, forall_and, forall_eq]
    by_cases hx : comboTriggered key x.combo down = true ∧ b < x.combo.count
    · rw [if_pos (by simp [hx.1, hx.2])]
      refine ⟨⟨fun e he ht => (hle e he ht).trans hx.2.le, fun _ => le_rfl⟩, Or.inr ?_⟩
      exact ⟨x, Or.inr rfl, hx.1, rfl⟩
    · rw [if_neg (by simpa using hx)]
      refine ⟨⟨hle, fun ht => ?_⟩, hatt.imp_right ?_⟩
      · exact Nat.le_of_not_lt fun hlt => hx ⟨ht, hlt⟩
      · rintro ⟨e, he, h⟩
        exact ⟨e, Or.inl he, h⟩

/-- For a bound entry, the test of the firing loop is being triggered and most
specific. -/
theorem firesFor_bestCount_iff {key : MCKey} {down : Vector Bool keyMax}
    {entries : List Keybind} {e : Keybind} (he : e ∈ entries) :
    firesFor key (bestCount key down entries) down e = true ↔
      comboTriggered key e.combo down = true ∧
        ∀ e' ∈ entries, comboTriggered key e'.combo down = true →
          e'.combo.count ≤ e.combo.count := by
  obtain ⟨hle, hatt⟩ := bestCount_spec key down entries
  rw [firesFor, Bool.and_eq_true, decide_eq_true_eq]
  constructor
  · rintro ⟨hcount, ht⟩
    exact ⟨ht, fun e' he' ht' => hcount ▸ hle e' he' ht'⟩
  · rintro ⟨ht, hmax⟩
    refine ⟨Nat.le_antisymm (hle e he ht) ?_, ht⟩
    -- the bound is attained, since `e` is triggered
    rcases hatt with h0 | ⟨e', he', ht', hcount⟩
    · omega
    · exact hcount ▸ hmax e' he' ht'

theorem dueAt_iff {kb : Keybinds keyMax} {key : MCKey} {e : Keybind} :
    DueAt kb key e ↔ e ∈ kb.table.entries ∧ kb.fires key e = true :=
  and_congr_right fun he => (firesFor_bestCount_iff he).symm

/-- The callbacks that a fresh press runs. -/
def Keybinds.firings (cbs : Callbacks) (kb : Keybinds keyMax) (key : MCKey) : List Firing :=
  (fireFrom cbs key (bestCount key (setFlag kb.down key true) kb.table.entries)
    (setFlag kb.down key true) keybindMax 0 kb.table []).2

theorem processKeybinds_fresh {kb : Keybinds keyMax} {key : MCKey}
    (hFresh : flag kb.down key = false) (cbs : Callbacks) :
    (processKeybinds cbs kb (.globalKeyDown key)).2 = kb.firings cbs key := by
  simp [processKeybinds, processKey, hFresh, Keybinds.firings]

section Firings

variable {cbs : Callbacks} {kb : Keybinds keyMax} {key : MCKey} {e : Keybind} {f : Firing}

theorem mem_firings_iff :
    f ∈ kb.firings cbs key ↔ OnWalk cbs (kb.fires key) ⟨0, kb.table, []⟩ f :=
  mem_fireFrom_iff (Nat.le_add_left ..)

theorem firings_slots : (kb.firings cbs key).Pairwise fun f g => f.slot < g.slot :=
  (fireFrom_slots ..).1

/-- A due entry runs unless a callback takes it from the part still to be walked. -/
theorem DueAt.runs_iff (he : DueAt kb key e) :
    e ∈ (kb.firings cbs key).map (·.entry) ↔ ∀ f ∈ kb.firings cbs key, ¬ f.Leaves e := by
  obtain ⟨hmem, hm⟩ := dueAt_iff.mp he
  exact fireFrom_fate (Nat.le_add_left ..) hm hmem

/-- A matching entry that is made during the press runs if it is left ahead of the walk. -/
theorem latecomer_runs_iff (hm : kb.fires key e = true) (hnew : kb.table.made ≤ e.serial) :
    e ∈ (kb.firings cbs key).map (·.entry) ↔ ∃ l f l', kb.firings cbs key = l ++ f :: l' ∧
      e ∉ f.before.entries ∧ e ∈ f.ahead f.after ∧ ∀ g ∈ l', ¬ g.Leaves e :=
  fireFrom_born (Nat.le_add_left ..) hm hnew

theorem FiresAsDue.keepsWalk (h : FiresAsDue kb key (kb.firings cbs key)) :
    KeepsWalk cbs kb key where
  -- it does not run, so a callback before its turn unbinds it
  displaced_unbound f hf i e hi he hleaves := by
    have hnot : ¬ ∀ g ∈ kb.firings cbs key, ¬ g.Leaves e :=
      fun hkept => hkept f (mem_firings_iff.mpr hf) hleaves
    rw [← he.runs_iff] at hnot
    have hunbound : ¬ ∀ g ∈ kb.firings cbs key, g.slot < i → e ∈ g.after.entries :=
      fun hbound => hnot (h.not_skipped i e hi he hbound)
    push Not at hunbound
    obtain ⟨g, hg, hslot, hgone⟩ := hunbound
    exact ⟨g, mem_firings_iff.mp hg, hslot, hgone⟩
  -- it would run, though it was not bound when the press arrived
  latecomer_withdrawn f hf e hm hb ha := by
    by_contra hkeep
    have hf' := mem_firings_iff.mpr hf
    obtain ⟨l, l', hsplit⟩ := List.append_of_mem hf'
    have hslots := @firings_slots _ cbs kb key
    have hmade := (fireFrom_firing hf').2.2
    have hserial := Firing.made_le hb ha
    have hlater : ∀ g ∈ l', ¬ g.Leaves e := by
      intro g hg hleaves
      have hg' : g ∈ kb.firings cbs key := by simp [hsplit, hg]
      have hslot := (mem_later_iff (hsplit ▸ hslots) (hsplit ▸ hg')).mp hg
      exact hkeep ⟨g, mem_firings_iff.mp hg', hslot, hleaves⟩
    have hrun := (latecomer_runs_iff hm (hmade.trans hserial)).mpr
      ⟨l, f, l', hsplit, hb, ha, hlater⟩
    have := kb.table.serial_lt e (h.only_due e hrun).1
    omega

theorem KeepsWalk.firesAsDue (h : KeepsWalk cbs kb key) :
    FiresAsDue kb key (kb.firings cbs key) where
  only_due e he := by
    obtain ⟨f, hf, rfl⟩ := List.mem_map.mp he
    have hm := (fireFrom_firing hf).2.1
    rcases Nat.lt_or_ge f.entry.serial kb.table.made with hold | hnew
    · refine dueAt_iff.mpr ⟨?_, hm⟩
      by_contra habsent
      exact fireFrom_gone_entry (i := 0) hold habsent he
    -- a latecomer that runs was left ahead and not taken away later
    · obtain ⟨l, g, l', hsplit, hb, ha, hkeep⟩ := (latecomer_runs_iff hm hnew).mp he
      have hg : g ∈ kb.firings cbs key := by simp [hsplit]
      obtain ⟨g', hg', hslot, hleaves⟩ := h.latecomer_withdrawn g (mem_firings_iff.mp hg) _ hm hb ha
      rw [← mem_firings_iff] at hg'
      have hslots := @firings_slots _ cbs kb key
      have hlater := (mem_later_iff (hsplit ▸ hslots) (hsplit ▸ hg')).mpr hslot
      exact absurd hleaves (hkeep g' hlater)
  once := fireFrom_once ..
  -- what leaves is unbound before its turn, and nothing is
  not_skipped i e hi he hbound := by
    rw [he.runs_iff]
    intro f hf hleaves
    obtain ⟨g, hg, hslot, hgone⟩ :=
      h.displaced_unbound f (mem_firings_iff.mp hf) i e hi he hleaves
    exact hgone (hbound g (mem_firings_iff.mpr hg) hslot)

end Firings

/-- **Callbacks that edit the table.** For a fresh press and arbitrary callbacks, the
bindings run are as due exactly when the callbacks keep out of the walk's way. -/
theorem processKeybinds_fires_as_due_iff (cbs : Callbacks) {kb : Keybinds keyMax} {key : MCKey}
    (hFresh : flag kb.down key = false) :
    FiresAsDue kb key (processKeybinds cbs kb (.globalKeyDown key)).2 ↔
      KeepsWalk cbs kb key := by
  rw [processKeybinds_fresh hFresh]
  exact ⟨FiresAsDue.keepsWalk, KeepsWalk.firesAsDue⟩

end Press

/-! ### A tie in which the first callback unbinds itself -/

/-- The combos 1 + 3 and 2 + 3 bound, in this order, with keys 1 and 2 held. -/
def tiedKeybinds : Keybinds 128 where
  table := (wmBindKey (wmBindKey KeybindTable.empty (.pair 1 3) 10 100 .ok).2
    (.pair 2 3) 11 101 .ok).2
  down := setFlag (setFlag (Vector.replicate 128 false) 1 true) 2 true

/-- The first callback run unbinds 1 + 3; later ones make no calls. -/
def unbindsItself : Callbacks := fun ran =>
  if ran.length = 1 then [.unbind (.pair 1 3)] else []

theorem processKeybinds_fires_as_due_iff_tied :
    FiresAsDue tiedKeybinds 3 (processKeybinds unbindsItself tiedKeybinds (.globalKeyDown 3)).2 ↔
      KeepsWalk unbindsItself tiedKeybinds 3 :=
  processKeybinds_fires_as_due_iff unbindsItself (by decide +kernel)

/-- Both bindings are due for a press of 3. The first unbinds itself, which moves the
second into the slot just walked, and it is skipped though still bound. -/
theorem processKeybinds_skips_tied :
    flag tiedKeybinds.down 3 = false ∧
      ¬ FiresAsDue tiedKeybinds 3
        (processKeybinds unbindsItself tiedKeybinds (.globalKeyDown 3)).2 := by
  refine ⟨by decide +kernel, ?_⟩
  intro h
  have hdue : DueAt tiedKeybinds 3 ⟨.pair 2 3, 11, 101, 1⟩ := by decide +kernel
  have hsecond : tiedKeybinds.table.entries[1]? = some ⟨.pair 2 3, 11, 101, 1⟩ := by
    decide +kernel
  have hbound : ∀ f ∈ (processKeybinds unbindsItself tiedKeybinds (.globalKeyDown 3)).2,
      f.slot < 1 → (⟨.pair 2 3, 11, 101, 1⟩ : Keybind) ∈ f.after.entries := by decide +kernel
  have hran : (⟨.pair 2 3, 11, 101, 1⟩ : Keybind) ∉
      (processKeybinds unbindsItself tiedKeybinds (.globalKeyDown 3)).2.map (·.entry) := by
    decide +kernel
  exact hran (h.not_skipped 1 _ hsecond hdue hbound)

end Uniwm
