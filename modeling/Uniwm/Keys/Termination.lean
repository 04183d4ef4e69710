import Mathlib.Data.Int.Order.Basic
import Uniwm.Model.KeybindArray
import Uniwm.Keys.Firing

/-!
# uniwm — the firing loop comes to its end

The callbacks that `process_keybinds` runs may bind and unbind keys, so while the loop walks,
`keybind.count` goes up and down as they please. What holds the loop is the capacity: bind and
unbind keep `count` from 0 to `KEYBIND_MAX` (`run_valid`), so the test of the loop fails at slot
`KEYBIND_MAX` at the latest, and no slot is visited twice.

* `LoopInv`, the invariant of every step, inside callbacks too: as many callbacks have been
  started as slots passed, at most.
* `loop_ends`: the loop comes to its end from any slot.
* `firing_loop_bounded` puts the two together for a press; `firing_loop_refines` connects the
  array and the loop to `processKey`.
-/

namespace Uniwm

open Base

variable {cbs : Callbacks} {fires : Keybind → Bool}

-- ----------------------------------------------------------------------------
-- The count
-- ----------------------------------------------------------------------------

namespace KeybindArray

variable {a : KeybindArray}

theorem length_entries (a : KeybindArray) : a.entries.length = a.count.toNat := by
  simp [entries]

theorem unbindKey_none {combo : KeyCombo}
    (hnone : a.entries.findIdx? (fun e => comboEq e.combo combo) = none) :
    (a.unbindKey combo).2.2 = a := by
  rw [unbindKey, hnone]

theorem unbindKey_some {combo : KeyCombo} {j : Nat}
    (hsome : a.entries.findIdx? (fun e => comboEq e.combo combo) = some j) :
    (a.unbindKey combo).2.2 =
        { a with
          binds := Function.update a.binds j (a.binds (a.count - 1))
          count := a.count - 1 } ∧ j < a.count.toNat := by
  refine ⟨by rw [unbindKey, hsome], ?_⟩
  rw [← length_entries]
  exact (List.findIdx?_eq_some_iff_findIdx_eq.mp hsome).1

/-- Bind and unbind keep the count in its bounds. -/
theorem run_valid (h : a.Valid) (call : BindCall) : (a.run call).Valid := by
  obtain ⟨hnonneg, hle⟩ := h
  cases call with
  | bind combo cb ctx keyboard =>
    rw [run, bindKey]
    split_ifs with hcb hkeyboard hfull
    · exact ⟨hnonneg, hle⟩
    · exact ⟨hnonneg, hle⟩
    · exact ⟨hnonneg, hle⟩
    · show 0 ≤ a.count + 1 ∧ a.count + 1 ≤ (keybindMax : Int)
      omega
  | unbind combo =>
    rw [run]
    cases hfind : a.entries.findIdx? (fun e => comboEq e.combo combo) with
    | none =>
      rw [unbindKey_none hfind]
      exact ⟨hnonneg, hle⟩
    | some j =>
      obtain ⟨hrun, hj⟩ := unbindKey_some hfind
      rw [hrun]
      -- an entry was found, so there is one to take away
      show 0 ≤ a.count - 1 ∧ a.count - 1 ≤ (keybindMax : Int)
      omega

theorem runs_valid (h : a.Valid) (calls : List BindCall) : (calls.foldl run a).Valid := by
  induction calls generalizing a with
  | nil => exact h
  | cons call calls ih => exact ih (run_valid h call)

end KeybindArray

-- ----------------------------------------------------------------------------
-- What every step keeps
-- ----------------------------------------------------------------------------

/-- One step after the other. -/
abbrev FiringLoop.Reaches (cbs : Callbacks) (fires : Keybind → Bool) :
    FiringLoop → FiringLoop → Prop :=
  Relation.ReflTransGen fun l l' => l.step cbs fires = some l'

/-- The slots that the loop is done with, or runs the callback of. -/
def FiringLoop.passed (l : FiringLoop) : Int := if l.running.isSome then l.slot + 1 else l.slot

/-- The count is in its bounds, and so is the slot; each slot passed has started one callback at
most. -/
structure LoopInv (l : FiringLoop) : Prop where
  valid : l.keys.Valid
  slot : 0 ≤ l.slot
  passed : l.passed ≤ keybindMax
  ran : (l.ran.length : Int) ≤ l.passed

theorem LoopInv.start {a : KeybindArray} (ha : a.Valid) : LoopInv (.start a) :=
  ⟨ha, le_rfl, ha.1.trans ha.2, le_rfl⟩

/-- **Step lemma.** -/
theorem LoopInv.step {l l' : FiringLoop} (h : LoopInv l) (hstep : l.step cbs fires = some l') :
    LoopInv l' := by
  obtain ⟨hvalid, hslot, hpassed, hran⟩ := h
  obtain ⟨slot, running, keys, ran⟩ := l
  simp only [FiringLoop.passed] at hpassed hran hslot hvalid
  cases running with
  | some calls =>
    simp only [Option.isSome_some, if_true] at hpassed hran
    cases calls with
    | nil =>
      cases hstep
      exact ⟨hvalid, by show 0 ≤ slot + 1; omega, hpassed, hran⟩
    | cons call calls =>
      cases hstep
      exact ⟨KeybindArray.run_valid hvalid call, hslot, hpassed, hran⟩
  | none =>
    simp only [Option.isSome_none, Bool.false_eq_true, if_false] at hpassed hran
    simp only [FiringLoop.step] at hstep
    by_cases htest : slot < keys.count
    · -- the test has passed, so this slot is below `KEYBIND_MAX`
      have hbelow : slot + 1 ≤ (keybindMax : Int) := by
        have hle := hvalid.2
        omega
      rw [if_pos htest] at hstep
      split_ifs at hstep with hfires
      · cases hstep
        refine ⟨hvalid, hslot, hbelow, ?_⟩
        show ((ran ++ [keys.binds slot]).length : Int) ≤ slot + 1
        rw [List.length_append, List.length_singleton]
        omega
      · cases hstep
        refine ⟨hvalid, by show 0 ≤ slot + 1; omega, hbelow, ?_⟩
        show (ran.length : Int) ≤ slot + 1
        omega
    · rw [if_neg htest] at hstep
      cases hstep

/-- **Run lemma.** -/
theorem LoopInv.run {l l' : FiringLoop} (h : LoopInv l)
    (hreach : FiringLoop.Reaches cbs fires l l') : LoopInv l' := by
  induction hreach with
  | refl => exact h
  | tail _ hstep ih => exact ih.step hstep

-- ----------------------------------------------------------------------------
-- The end of the loop
-- ----------------------------------------------------------------------------

/-- A callback makes its calls and returns. -/
theorem callback_returns (slot : Int) (a : KeybindArray) (ran : List Keybind)
    (calls : List BindCall) :
    FiringLoop.Reaches cbs fires ⟨slot, some calls, a, ran⟩
      ⟨slot + 1, none, calls.foldl KeybindArray.run a, ran⟩ := by
  induction calls generalizing a with
  | nil => exact .single rfl
  | cons call calls ih => exact .head rfl (ih (a.run call))

section Visit

variable {slot : Int} {a : KeybindArray} {ran : List Keybind}

theorem step_ended (hend : ¬ slot < a.count) :
    FiringLoop.step cbs fires ⟨slot, none, a, ran⟩ = none := by
  simp only [FiringLoop.step, if_neg hend]

theorem visit_skip (htest : slot < a.count) (hfires : fires (a.binds slot) = false) :
    FiringLoop.Reaches cbs fires ⟨slot, none, a, ran⟩ ⟨slot + 1, none, a, ran⟩ := by
  refine .single ?_
  simp only [FiringLoop.step, if_pos htest, hfires, Bool.false_eq_true, if_false]

theorem visit_run (htest : slot < a.count) (hfires : fires (a.binds slot) = true) :
    FiringLoop.Reaches cbs fires ⟨slot, none, a, ran⟩
      ⟨slot + 1, none, (cbs (ran ++ [a.binds slot])).foldl KeybindArray.run a,
        ran ++ [a.binds slot]⟩ := by
  refine .head ?_ (callback_returns slot a (ran ++ [a.binds slot]) (cbs (ran ++ [a.binds slot])))
  simp only [FiringLoop.step, if_pos htest, hfires, if_true]

end Visit

/-- From every slot the loop comes to its end: `n` slots are left at most. -/
theorem loop_ends (n : Nat) {slot : Int} {a : KeybindArray} (ha : a.Valid)
    (hn : (keybindMax : Int) ≤ slot + n) (ran : List Keybind) :
    ∃ l, FiringLoop.Reaches cbs fires ⟨slot, none, a, ran⟩ l ∧ l.step cbs fires = none := by
  induction n generalizing slot a ran with
  | zero =>
    have hle := ha.2
    exact ⟨_, .refl, step_ended (by omega)⟩
  | succ n ih =>
    by_cases htest : slot < a.count
    · cases hfires : fires (a.binds slot) with
      | true =>
        -- the callback leaves a valid array, and the walk goes on in that
        have hvalid := KeybindArray.runs_valid ha (cbs (ran ++ [a.binds slot]))
        obtain ⟨l, hreach, hend⟩ := @ih (slot + 1) _ hvalid (by omega) (ran ++ [a.binds slot])
        exact ⟨l, (visit_run htest hfires).trans hreach, hend⟩
      | false =>
        obtain ⟨l, hreach, hend⟩ := @ih (slot + 1) a ha (by omega) ran
        exact ⟨l, (visit_skip htest hfires).trans hreach, hend⟩
    · exact ⟨_, .refl, step_ended htest⟩

/-- What the loop reads is bound. -/
theorem LoopInv.reads {l : FiringLoop} (h : LoopInv l) {i : Int} (hreads : l.reads = some i) :
    0 ≤ i ∧ i < l.keys.count ∧ l.keys.binds i ∈ l.keys.entries := by
  obtain ⟨slot, running, keys, ran⟩ := l
  cases running with
  | some calls => cases hreads
  | none =>
    simp only [FiringLoop.reads] at hreads
    split_ifs at hreads with htest
    obtain rfl : slot = i := Option.some.inj hreads
    have hslot : 0 ≤ slot := h.slot
    refine ⟨hslot, htest, ?_⟩
    show keys.binds slot ∈ keys.entries
    have hmem : slot.toNat ∈ List.range keys.count.toNat := List.mem_range.mpr (by omega)
    refine List.mem_map.mpr ⟨slot.toNat, hmem, ?_⟩
    rw [Int.toNat_of_nonneg hslot]

/-- **The firing loop ends.** However the callbacks bind and unbind, the loop of a press comes to
its end; on the way it starts at most `KEYBIND_MAX` callbacks, the count stays in its bounds and
the loop reads entries below it. -/
theorem firing_loop_bounded :
    (∀ calls : List BindCall, (calls.foldl KeybindArray.run .empty).Valid) ∧
      ∀ {keyMax : Nat} (cbs : Callbacks) (key : MCKey) (down : Vector Bool keyMax)
        (a : KeybindArray), a.Valid →
        (∃ l, FiringLoop.Reaches cbs (a.fires key (setFlag down key true)) (.start a) l ∧
          l.step cbs (a.fires key (setFlag down key true)) = none) ∧
        ∀ l, FiringLoop.Reaches cbs (a.fires key (setFlag down key true)) (.start a) l →
          l.ran.length ≤ keybindMax ∧ (0 ≤ l.keys.count ∧ l.keys.count ≤ keybindMax) ∧
            ∀ i, l.reads = some i →
              0 ≤ i ∧ i < l.keys.count ∧ l.keys.binds i ∈ l.keys.entries := by
  constructor
  · exact fun calls => KeybindArray.runs_valid ⟨le_rfl, by decide⟩ calls
  · intro keyMax cbs key down a ha
    refine ⟨loop_ends keybindMax ha (by omega) [], ?_⟩
    intro l hreach
    have hinv := (LoopInv.start ha).run hreach
    refine ⟨?_, hinv.valid, fun i hi => hinv.reads hi⟩
    have hran := hinv.ran
    have hpassed := hinv.passed
    omega

/-- One binding, whose callback unbinds it and binds two combos anew. -/
def oneBound : KeybindArray := (KeybindArray.empty.bindKey (.pair 1 3) 10 100 .ok).2

def rebinds : Callbacks := fun _ =>
  [.unbind (.pair 1 3), .bind (.pair 1 3) 10 100 .ok, .bind (.pair 2 3) 11 101 .ok]

/-- A press of 3 while 1 is held. -/
theorem firing_loop_bounded_rebinds :
    oneBound.Valid ∧
      ∃ l, FiringLoop.Reaches rebinds
          (oneBound.fires 3 (setFlag (setFlag (Vector.replicate 128 false) 1 true) 3 true))
          (.start oneBound) l ∧
        l.step rebinds
          (oneBound.fires 3 (setFlag (setFlag (Vector.replicate 128 false) 1 true) 3 true)) = none ∧
        l.ran.length ≤ keybindMax := by
  have hvalid : oneBound.Valid := firing_loop_bounded.1 [.bind (.pair 1 3) 10 100 .ok]
  refine ⟨hvalid, ?_⟩
  obtain ⟨⟨l, hreach, hend⟩, hall⟩ := firing_loop_bounded.2 rebinds 3
    (setFlag (Vector.replicate 128 false) 1 true) oneBound hvalid
  exact ⟨l, hreach, hend, (hall l hreach).1⟩

-- ----------------------------------------------------------------------------
-- The table behind the array
-- ----------------------------------------------------------------------------

namespace Represents

variable {a : KeybindArray} {t : KeybindTable}

theorem count (h : Represents a t) : a.count = t.binds.count := by
  have hlen : a.count.toNat = t.binds.count := by
    rw [← KeybindArray.length_entries, h.entries, KeybindTable.entries, Slots.toList_length]
  have hnonneg := h.nonneg
  omega

theorem valid (h : Represents a t) : a.Valid := by
  have hle := t.binds.count_le
  have hcount := h.count
  refine ⟨h.nonneg, ?_⟩
  omega

/-- The entry at a slot below the count. -/
theorem getElem? (h : Represents a t) {slot : Nat} (htest : (slot : Int) < a.count) :
    t.entries[slot]? = some (a.binds slot) := by
  have hslot : slot < a.count.toNat := by omega
  rw [← h.entries, KeybindArray.entries, List.getElem?_map, List.getElem?_range hslot,
    Option.map_some]

theorem getElem?_none (h : Represents a t) {slot : Nat} (htest : ¬ (slot : Int) < a.count) :
    t.entries[slot]? = none := by
  have hcount := h.count
  refine List.getElem?_eq_none ?_
  rw [KeybindTable.entries, Slots.toList_length]
  omega

end Represents

namespace KeybindArray

variable {a : KeybindArray}

/-- `binds[count++] = e` -/
theorem entries_append (hnonneg : 0 ≤ a.count) (e : Keybind) (made : Nat) :
    entries ⟨Function.update a.binds a.count e, a.count + 1, made⟩ = a.entries ++ [e] := by
  have hnext : (a.count + 1).toNat = a.count.toNat + 1 := by omega
  have hcount : (a.count.toNat : Int) = a.count := Int.toNat_of_nonneg hnonneg
  show (List.range (a.count + 1).toNat).map (fun i : Nat => Function.update a.binds a.count e i) =
    a.entries ++ [e]
  rw [entries, hnext, List.range_succ, List.map_append, List.map_singleton, hcount,
    Function.update_self]
  refine congrArg (· ++ [e]) (List.map_congr_left fun i hi => ?_)
  -- the slots before the new one
  have hne : (i : Int) ≠ a.count := by
    have := List.mem_range.mp hi
    omega
  exact Function.update_of_ne hne e a.binds

/-- `binds[j] = binds[--count]` -/
theorem entries_swap {j : Nat} (hj : j < a.count.toNat) (made : Nat) :
    entries ⟨Function.update a.binds j (a.binds (a.count - 1)), a.count - 1, made⟩ =
      swapRemove a.entries j := by
  obtain ⟨n, hn⟩ : ∃ n, a.count.toNat = n + 1 := ⟨a.count.toNat - 1, by omega⟩
  have hlast : a.count - 1 = n := by omega
  have hold : a.entries = ((List.range n).map fun i : Nat => a.binds i) ++ [a.binds n] := by
    rw [entries, hn, List.range_succ, List.map_append, List.map_singleton]
  rw [hold, swapRemove_concat, hlast]
  apply List.ext_getElem
  · simp [entries]
  · intro i hi hi'
    simp only [entries, List.getElem_map, List.getElem_range, List.getElem_set]
    by_cases hij : j = i
    · rw [if_pos hij, hij, Function.update_self]
    · have hne : (i : Int) ≠ j := by omega
      rw [if_neg hij, Function.update_of_ne hne]

end KeybindArray

namespace Represents

variable {a : KeybindArray} {t : KeybindTable}

theorem bindKey (h : Represents a t) (combo : KeyCombo) (cb ctx : Ptr) (keyboard : WMError) :
    Represents (a.bindKey combo cb ctx keyboard).2 (wmBindKey t combo cb ctx keyboard).2 := by
  have hcount := h.count
  rw [KeybindArray.bindKey, wmBindKey]
  by_cases hcb : cb = 0
  · rw [if_pos hcb, if_pos hcb]
    exact h
  · rw [if_neg hcb, if_neg hcb]
    by_cases hkeyboard : keyboard ≠ .ok
    · rw [if_pos hkeyboard, if_pos hkeyboard]
      exact h
    · rw [if_neg hkeyboard, if_neg hkeyboard]
      by_cases hroom : t.binds.count < keybindMax
      · rw [if_neg (by omega), dif_pos hroom]
        refine ⟨?_, ?_, congrArg (· + 1) h.made⟩
        · show KeybindArray.entries _ = Slots.toList _
          rw [KeybindArray.entries_append h.nonneg, h.entries, h.made]
          exact (Slots.toList_push t.binds _ hroom).symm
        · show 0 ≤ a.count + 1
          omega
      -- no room in the one, no room in the other
      · rw [if_pos (by omega), dif_neg hroom]
        exact h

theorem unbindKey (h : Represents a t) (combo : KeyCombo) :
    Represents (a.unbindKey combo).2.2 (wmUnbindKey t combo).2.2 := by
  have hslotOf : t.slotOf combo = a.entries.findIdx? (fun e => comboEq e.combo combo) := by
    rw [KeybindTable.slotOf, h.entries]
  rw [wmUnbindKey]
  split
  · next hnone =>
    rw [KeybindArray.unbindKey_none (hslotOf ▸ hnone)]
    exact h
  · next j hsome =>
    obtain ⟨hrun, hj⟩ := KeybindArray.unbindKey_some (hslotOf ▸ hsome)
    rw [hrun]
    refine ⟨?_, ?_, h.made⟩
    · show KeybindArray.entries _ = Slots.toList _
      rw [KeybindArray.entries_swap hj, h.entries]
      exact (Slots.toList_erase t.binds j (KeybindTable.slotOf_lt hsome)).symm
    · show 0 ≤ a.count - 1
      omega

/-- Every call does to the array what it does to the table. -/
theorem run (h : Represents a t) (call : BindCall) : Represents (a.run call) (call.run t) := by
  cases call with
  | bind combo cb ctx keyboard => exact h.bindKey combo cb ctx keyboard
  | unbind combo => exact h.unbindKey combo

theorem runs (h : Represents a t) (calls : List BindCall) :
    Represents (calls.foldl KeybindArray.run a) (runCalls t calls) := by
  induction calls generalizing a t with
  | nil => exact h
  | cons call calls ih => exact ih (h.run call)

/-- The calls start from empty tables. -/
example : Represents .empty .empty := ⟨rfl, by decide, rfl⟩

end Represents

section Refine

variable {keyMax : Nat} {key : MCKey} {best : Nat} {down : Vector Bool keyMax}

/-- From every slot the loop runs the bindings that `fireFrom` runs. -/
theorem loop_refines (n : Nat) {slot : Nat} {a : KeybindArray} {t : KeybindTable}
    (h : Represents a t) (hn : keybindMax ≤ slot + n) (ran : List Keybind) :
    ∃ l, FiringLoop.Reaches cbs (firesFor key best down) ⟨slot, none, a, ran⟩ l ∧
      l.step cbs (firesFor key best down) = none ∧
      Represents l.keys (fireFrom cbs key best down n slot t ran).1 ∧
      l.ran = ran ++ (fireFrom cbs key best down n slot t ran).2.map (·.entry) := by
  induction n generalizing slot a t ran with
  | zero =>
    have hle := h.valid.2
    exact ⟨_, .refl, step_ended (by omega), h, (List.append_nil ran).symm⟩
  | succ n ih =>
    by_cases htest : (slot : Int) < a.count
    · have hx := h.getElem? htest
      cases hfires : firesFor key best down (a.binds slot) with
      | true =>
        obtain ⟨l, hreach, hend, hkeys, hran⟩ :=
          @ih (slot + 1) _ _ (h.runs (cbs (ran ++ [a.binds slot]))) (by omega)
            (ran ++ [a.binds slot])
        rw [fireFrom_run hx hfires]
        refine ⟨l, (visit_run htest hfires).trans hreach, hend, hkeys, ?_⟩
        rw [hran, List.map_cons, List.append_assoc, List.singleton_append]
      | false =>
        obtain ⟨l, hreach, hend, hkeys, hran⟩ := @ih (slot + 1) a t h (by omega) ran
        rw [fireFrom_skip hx (by rw [hfires]; exact Bool.false_ne_true)]
        exact ⟨l, (visit_skip htest hfires).trans hreach, hend, hkeys, hran⟩
    · rw [fireFrom_stop (h.getElem?_none htest)]
      exact ⟨_, .refl, step_ended htest, h, (List.append_nil ran).symm⟩

/-- **Refinement.** For a fresh press the loop on the array runs the bindings that
`processKeybinds` runs, and leaves the table that it leaves. -/
theorem firing_loop_refines (cbs : Callbacks) {kb : Keybinds keyMax} {a : KeybindArray}
    (h : Represents a kb.table) (hfresh : flag kb.down key = false) :
    ∃ l, FiringLoop.Reaches cbs (a.fires key (setFlag kb.down key true)) (.start a) l ∧
      l.step cbs (a.fires key (setFlag kb.down key true)) = none ∧
      Represents l.keys (processKeybinds cbs kb (.globalKeyDown key)).1.table ∧
      l.ran = (processKeybinds cbs kb (.globalKeyDown key)).2.map (·.entry) := by
  have hpress : (processKeybinds cbs kb (.globalKeyDown key)).1.table =
      (fireFrom cbs key (bestCount key (setFlag kb.down key true) kb.table.entries)
        (setFlag kb.down key true) keybindMax 0 kb.table []).1 := by
    simp [processKeybinds, processKey, hfresh]
  rw [hpress, processKeybinds_fresh hfresh, Keybinds.firings, KeybindArray.fires, h.entries]
  exact loop_refines keybindMax h (Nat.le_add_left ..) []

end Refine

end Uniwm
