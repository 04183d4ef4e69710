import Uniwm.Base.Machine
import Uniwm.Model.Keys

/-!
# uniwm — what the keyboard hook swallows

`suppress_cb` is asked about every keyboard event and keeps its own record of the
keys that are down. Over a whole trace of calls that record is the trace itself
(`suppress_tracks`), so each verdict is a predicate of the trace: an event is
swallowed exactly when some combo of the table ends in its key and has all its
other keys held (`swallowed_iff_armed`).

The verdict does not look at whether the event is a press or a release, nor at what
was decided before. Hence the release of a key need not share the fate of its
presses: `suppress_release_iff` says exactly when it does, and
`suppress_release_split` is a run in which it does not.
-/

namespace Uniwm

open Base

/-- One keyboard event: the key, and whether it goes down. -/
abbrev KeyEvent := MCKey × Bool

/-! ## Combos and held keys -/

/-- With the keys of `isHeld` down, `key` completes the combo `c`. -/
def Completes (isHeld : MCKey → Prop) (key : MCKey) (c : KeyCombo) : Prop :=
  c.toList.getLast? = some key ∧ ∀ mod ∈ c.toList.dropLast, isHeld mod

theorem comboTriggered_iff {keyMax : Nat} {key : MCKey} {c : KeyCombo}
    {down : Vector Bool keyMax} :
    comboTriggered key c down = true ↔ Completes (fun mod => flag down mod = true) key c := by
  unfold comboTriggered Completes
  cases c.toList.getLast? with
  | none => simp
  | some last =>
    rw [Bool.and_eq_true, decide_eq_true_eq, List.all_eq_true, Option.some.injEq,
      eq_comm (a := key)]

theorem Completes.congr {isHeld isHeld' : MCKey → Prop} {key : MCKey} {c : KeyCombo}
    (h : ∀ mod ∈ c.toList.dropLast, isHeld mod ↔ isHeld' mod) :
    Completes isHeld key c ↔ Completes isHeld' key c := by
  unfold Completes
  refine and_congr_right fun _ => ?_
  exact forall₂_congr h

/-- Reading an array that tracks a trace is asking the trace, below the array's end. -/
theorem flag_eq_true_iff {keyMax : Nat} {down : Vector Bool keyMax} {ws : List KeyEvent}
    (h : Tracks down ws) (mod : MCKey) :
    flag down mod = true ↔ mod < keyMax ∧ held ws mod = true := by
  rw [h mod, Bool.and_eq_true, decide_eq_true_eq]

/-! ## Verdicts along a trace -/

/-- The hook as a machine. -/
def hookStep {keyMax : Nat} (s : Suppress keyMax) (e : KeyEvent) : Suppress keyMax × Bool :=
  suppressCb s e.1 e.2

/-- The verdicts on a trace of hook calls that starts with no key held, for a fixed
table of combos. -/
def swallowed (keyMax : Nat) (combos : Slots KeyCombo suppressMax) (calls : List KeyEvent) :
    List Bool :=
  outputs hookStep (⟨combos, Vector.replicate keyMax false⟩ : Suppress keyMax) calls

/-- Some combo of the table ends in `key` and, after the events `ws`, has all its other
keys held. -/
def Armed (keyMax : Nat) (combos : Slots KeyCombo suppressMax) (ws : List KeyEvent)
    (key : MCKey) : Prop :=
  ∃ c ∈ combos.toList, Completes (fun mod => mod < keyMax ∧ held ws mod = true) key c

/-- The hook's record of held keys is the trace of its calls. -/
theorem suppress_tracks (keyMax : Nat) (combos : Slots KeyCombo suppressMax)
    (calls : List KeyEvent) :
    (final hookStep (⟨combos, Vector.replicate keyMax false⟩ : Suppress keyMax) calls).combos =
        combos ∧
      Tracks (final hookStep (⟨combos, Vector.replicate keyMax false⟩ : Suppress keyMax)
        calls).down calls := by
  exact final_history hookStep (fun s past => s.combos = combos ∧ Tracks s.down past)
    (fun s past e h => ⟨h.1, h.2.setFlag e.1 e.2⟩) ⟨rfl, tracks_cleared keyMax⟩ calls

/-- **Verdicts.** Event `i` is swallowed exactly when its key is armed by the trace up
to and including it. -/
theorem swallowed_iff_armed {keyMax : Nat} {combos : Slots KeyCombo suppressMax}
    {calls : List KeyEvent} {i : Nat} {e : KeyEvent} (hi : calls[i]? = some e) :
    (swallowed keyMax combos calls)[i]? = some true ↔
      Armed keyMax combos (calls.take (i + 1)) e.1 := by
  obtain ⟨hcombos, htracks⟩ := suppress_tracks keyMax combos (calls.take i)
  have htake : calls.take (i + 1) = calls.take i ++ [e] := by
    rw [List.take_add_one, hi]
    rfl
  -- the verdict on event `i` is given from the state that the first `i` calls left
  rw [swallowed, outputs_getElem?, hi, htake]
  simp only [Option.map_some, Option.some.injEq, hookStep, suppressCb, List.any_eq_true, hcombos]
  refine exists_congr fun c => and_congr_right fun _ => ?_
  rw [comboTriggered_iff]
  exact Completes.congr fun mod _ => flag_eq_true_iff (htracks.setFlag e.1 e.2) mod

/-! ## Presses and their release -/

/-- Call `j` is a press of `key` with no release of it between `j` and `i`. -/
def PressSince (calls : List KeyEvent) (key : MCKey) (i j : Nat) : Prop :=
  j < i ∧ calls[j]? = some (key, true) ∧ ∀ m, j < m → m < i → calls[m]? ≠ some (key, false)

/-- The release at `i` is swallowed exactly when every press of the key since its
previous release was. -/
def ReleaseFollowsPresses (keyMax : Nat) (combos : Slots KeyCombo suppressMax)
    (calls : List KeyEvent) (key : MCKey) (i : Nat) : Prop :=
  (swallowed keyMax combos calls)[i]? = some true ↔
    ∀ j, PressSince calls key i j → (swallowed keyMax combos calls)[j]? = some true

/-- **Release and presses.** The release of a key shares the fate of its presses exactly
when the modifiers held at the release complete some combo ending in the key just in
case those held at each of the presses did. -/
theorem suppress_release_iff {keyMax : Nat} {combos : Slots KeyCombo suppressMax}
    {calls : List KeyEvent} {key : MCKey} {i : Nat} (hi : calls[i]? = some (key, false)) :
    ReleaseFollowsPresses keyMax combos calls key i ↔
      (Armed keyMax combos (calls.take (i + 1)) key ↔
        ∀ j, PressSince calls key i j → Armed keyMax combos (calls.take (j + 1)) key) := by
  unfold ReleaseFollowsPresses
  rw [swallowed_iff_armed hi]
  refine iff_congr Iff.rfl (forall₂_congr fun j hj => ?_)
  exact swallowed_iff_armed hj.2.1

/-- The combo of the keys 1 and 2, in this order. -/
def comboOneTwo : KeyCombo := .pair 1 2

theorem suppress_release_iff_tap :
    ReleaseFollowsPresses 128 (Slots.empty.push comboOneTwo (by decide))
        [(1, true), (2, true), (2, false)] 2 2 ↔
      (Armed 128 (Slots.empty.push comboOneTwo (by decide))
          (([(1, true), (2, true), (2, false)] : List KeyEvent).take 3) 2 ↔
        ∀ j, PressSince [(1, true), (2, true), (2, false)] 2 2 j →
          Armed 128 (Slots.empty.push comboOneTwo (by decide))
            (([(1, true), (2, true), (2, false)] : List KeyEvent).take (j + 1)) 2) :=
  suppress_release_iff rfl

/-- With the combo 1 + 2 suppressed, letting go of 1 before 2 passes the release of 2
to the application, which never saw its press. -/
theorem suppress_release_split :
    ¬ ReleaseFollowsPresses 128 (Slots.empty.push comboOneTwo (by decide))
      [(1, true), (2, true), (1, false), (2, false)] 2 3 := by
  have hrun : swallowed 128 (Slots.empty.push comboOneTwo (by decide))
      [(1, true), (2, true), (1, false), (2, false)] = [false, true, false, false] := by
    decide +kernel
  unfold ReleaseFollowsPresses
  rw [hrun]
  intro h
  have hpresses : ∀ j, PressSince [(1, true), (2, true), (1, false), (2, false)] 2 3 j →
      [false, true, false, false][j]? = some true := by
    rintro j ⟨hj, hpress, -⟩
    -- of the three calls before the release only the second is a press of 2
    obtain rfl | rfl | rfl : j = 0 ∨ j = 1 ∨ j = 2 := by omega
    · simp at hpress
    · rfl
    · simp at hpress
  simpa using h.mpr hpresses

end Uniwm
