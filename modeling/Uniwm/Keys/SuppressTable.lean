import Mathlib.Data.Multiset.Filter
import Uniwm.Keys.Suppression

/-!
# uniwm — the suppressed combos as a multiset

`wm_suppress_key` and `wm_unsuppress_key` keep an array in which removal moves entries
about. `Suppressed` is what the array is for: a multiset of combos, given by their keys,
and the trace of hook calls. It answers every call by itself (`Suppressed.step`), and the
array answers alike whatever calls are made (`suppress_refines`): the order of the entries
and what stale slots hold cannot be told from the answers.
-/

namespace Uniwm

open Base

/-! ## Calls -/

inductive SuppressCall where
  | suppress (combo : KeyCombo) (keyboard : WMError)
  | unsuppress (combo : KeyCombo)
  | hook (key : MCKey) (down : Bool)

/-- A combo to suppress has keys below `MC_KEY_MAX` only. -/
def SuppressCall.InRange (keyMax : Nat) : SuppressCall → Prop
  | suppress combo _ => ∀ key ∈ combo.toList, key < keyMax
  | unsuppress _ => True
  | hook _ _ => True

inductive SuppressAnswer where
  | error (e : WMError)
  | swallow (verdict : Bool)
deriving DecidableEq

/-- One call, on the array of `input.c`. -/
def suppressStep {keyMax : Nat} (s : Suppress keyMax) :
    SuppressCall → Suppress keyMax × SuppressAnswer
  | .suppress combo keyboard =>
    ((wmSuppressKey s combo keyboard).2, .error (wmSuppressKey s combo keyboard).1)
  | .unsuppress combo => ((wmUnsuppressKey s combo).2, .error (wmUnsuppressKey s combo).1)
  | .hook key down => ((suppressCb s key down).1, .swallow (suppressCb s key down).2)

/-! ## The meaning of the table -/

/-- The combos to swallow, each by its keys, and the keyboard events so far. -/
structure Suppressed where
  combos : Multiset (List MCKey)
  events : List KeyEvent

def Suppressed.init : Suppressed := ⟨0, []⟩

/-- `key` ends the combo of these keys, and all the others are held. -/
def Ends (events : List KeyEvent) (key : MCKey) (keys : List MCKey) : Prop :=
  keys.getLast? = some key ∧ ∀ mod ∈ keys.dropLast, held events mod = true

instance (events : List KeyEvent) (key : MCKey) (keys : List MCKey) :
    Decidable (Ends events key keys) :=
  inferInstanceAs (Decidable (_ ∧ _))

instance (events : List KeyEvent) (key : MCKey) (combos : Multiset (List MCKey)) :
    Decidable (∃ keys ∈ combos, Ends events key keys) :=
  Multiset.decidableExistsMultiset

/-- One call, on the multiset. -/
def Suppressed.step (m : Suppressed) : SuppressCall → Suppressed × SuppressAnswer
  | .suppress combo keyboard =>
    if keyboard ≠ .ok then (m, .error keyboard)
    else if m.combos.card < suppressMax then
      ({ m with combos := combo.toList ::ₘ m.combos }, .error .ok)
    else (m, .error .outOfMemory)
  | .unsuppress combo =>
    ({ m with combos := m.combos.filter (· ≠ combo.toList) }, .error .ok)
  | .hook key down =>
    let events := m.events ++ [(key, down)]
    ({ m with events := events }, .swallow (decide (∃ keys ∈ m.combos, Ends events key keys)))

/-! ## The removal loop -/

section Removal

variable (combo : KeyCombo)

/-- From a slot behind which no copy is left, the loop takes out the copies and nothing
else. -/
theorem unsuppressFrom_perm {fuel j : Nat} {t : Slots KeyCombo suppressMax}
    (hfuel : t.count ≤ j + fuel) (hdone : ∀ c ∈ t.toList.take j, comboEq c combo = false) :
    (unsuppressFrom combo fuel j t).toList.Perm (t.toList.filter fun c => !comboEq c combo) := by
  -- past the end nothing is left to do
  have hend : ∀ j (t : Slots KeyCombo suppressMax), t.count ≤ j →
      (∀ c ∈ t.toList.take j, comboEq c combo = false) →
      t.toList.Perm (t.toList.filter fun c => !comboEq c combo) := by
    intro j t hj hdone
    rw [List.take_of_length_le (by rwa [Slots.toList_length])] at hdone
    rw [List.filter_eq_self.mpr fun c hc => by rw [hdone c hc]; rfl]
  fun_induction unsuppressFrom combo fuel j t with
  | case1 j t => exact hend j t (by omega) hdone
  | case2 fuel j t h heq ih =>
    have hj : j < t.toList.length := by rwa [Slots.toList_length]
    have hget : t.toList[j]? = some (t.get j h) := by rw [← Slots.get?_eq, Slots.get?, dif_pos h]
    have hrest := ih (by have : (t.erase j h).count = t.count - 1 := rfl
                         omega)
      (by rwa [Slots.toList_erase, take_swapRemove hj])
    rw [Slots.toList_erase] at hrest
    exact hrest.trans (filter_swapRemove_perm hget (by rw [heq]; rfl))
  | case3 fuel j t h hne ih =>
    refine ih (by omega) ?_
    have hget : t.toList[j]? = some (t.get j h) := by rw [← Slots.get?_eq, Slots.get?, dif_pos h]
    rw [List.take_add_one, hget]
    intro c hc
    rcases List.mem_append.mp hc with hc | hc
    · exact hdone c hc
    · have heq : c = t.get j h := by simpa using hc
      rw [heq]
      exact Bool.eq_false_iff.mpr hne
  | case4 fuel j t h => exact hend j t (by omega) hdone

/-- Each round shortens what is ahead, so that fuel for the slots ahead is enough. -/
theorem unsuppressFrom_fuel {fuel j : Nat} {t : Slots KeyCombo suppressMax}
    (hfuel : t.count ≤ j + fuel) (more : Nat) :
    unsuppressFrom combo (fuel + more) j t = unsuppressFrom combo fuel j t := by
  fun_induction unsuppressFrom combo fuel j t with
  | case1 j t =>
    cases more with
    | zero => rfl
    | succ more => rw [Nat.zero_add, unsuppressFrom, dif_neg (by omega)]
  | case2 fuel j t h heq ih =>
    rw [Nat.succ_add_eq_add_succ, Nat.add_succ, unsuppressFrom, dif_pos h, if_pos heq]
    exact ih (by have : (t.erase j h).count = t.count - 1 := rfl
                 omega)
  | case3 fuel j t h hne ih =>
    rw [Nat.succ_add_eq_add_succ, Nat.add_succ, unsuppressFrom, dif_pos h, if_neg hne]
    exact ih (by omega)
  | case4 fuel j t h =>
    rw [Nat.succ_add_eq_add_succ, Nat.add_succ, unsuppressFrom, dif_neg h]

end Removal

/-! ## The array means the multiset -/

/-- The combos of the array, each by its keys. -/
def contents (t : Slots KeyCombo suppressMax) : Multiset (List MCKey) :=
  (t.toList.map Slots.toList : List (List MCKey))

@[simp] theorem card_contents (t : Slots KeyCombo suppressMax) : (contents t).card = t.count := by
  simp [contents]

theorem contents_push (t : Slots KeyCombo suppressMax) (combo : KeyCombo)
    (h : t.count < suppressMax) : contents (t.push combo h) = combo.toList ::ₘ contents t := by
  rw [contents, contents, Slots.toList_push, List.map_append, Multiset.cons_coe,
    Multiset.coe_eq_coe]
  exact List.perm_append_singleton combo.toList _

/-- `wm_unsuppress_key` removes every copy of the combo, and no other combo. -/
theorem contents_unsuppressFrom (combo : KeyCombo) (t : Slots KeyCombo suppressMax) :
    contents (unsuppressFrom combo t.count 0 t) =
      (contents t).filter (· ≠ combo.toList) := by
  have hperm := unsuppressFrom_perm combo (Nat.le_of_eq (Nat.zero_add t.count).symm)
    (fun c hc => absurd hc (by simp))
  rw [contents, contents, Multiset.filter_coe, Multiset.coe_eq_coe, List.filter_map]
  refine (hperm.map Slots.toList).trans (List.Perm.of_eq ?_)
  congr 1
  apply List.filter_congr
  intro c _
  by_cases heq : c.toList = combo.toList
  · simp [heq, comboEq_iff.mpr heq]
  · have hne : comboEq c combo = false := by
      rw [← Bool.not_eq_true, comboEq_iff]
      exact heq
    simp [heq, hne]

/-- The array and the record of keys down mean `m`. -/
structure Means {keyMax : Nat} (s : Suppress keyMax) (m : Suppressed) : Prop where
  combos : contents s.combos = m.combos
  down : Tracks s.down m.events
  below : ∀ keys ∈ m.combos, ∀ key ∈ keys, key < keyMax

section Refinement

variable {keyMax : Nat} {s : Suppress keyMax} {m : Suppressed}

theorem Means.suppress (h : Means s m) (combo : KeyCombo) (keyboard : WMError)
    (hcombo : ∀ key ∈ combo.toList, key < keyMax) :
    (suppressStep s (.suppress combo keyboard)).2 = (m.step (.suppress combo keyboard)).2 ∧
      Means (suppressStep s (.suppress combo keyboard)).1
        (m.step (.suppress combo keyboard)).1 := by
  have hcount : m.combos.card = s.combos.count := by rw [← h.combos, card_contents]
  rw [suppressStep, wmSuppressKey, Suppressed.step]
  by_cases hkeyboard : keyboard = .ok
  · rw [if_neg (not_not_intro hkeyboard), if_neg (not_not_intro hkeyboard), hcount]
    by_cases hroom : s.combos.count < suppressMax
    · rw [dif_pos hroom, if_pos hroom]
      refine ⟨rfl, ?_, h.down, ?_⟩
      · exact (contents_push s.combos combo hroom).trans (congrArg _ h.combos)
      · intro keys hkeys
        rcases Multiset.mem_cons.mp hkeys with rfl | hkeys
        · exact hcombo
        · exact h.below keys hkeys
    · rw [dif_neg hroom, if_neg hroom]
      exact ⟨rfl, h⟩
  · rw [if_pos hkeyboard, if_pos hkeyboard]
    exact ⟨rfl, h⟩

theorem Means.unsuppress (h : Means s m) (combo : KeyCombo) :
    (suppressStep s (.unsuppress combo)).2 = (m.step (.unsuppress combo)).2 ∧
      Means (suppressStep s (.unsuppress combo)).1 (m.step (.unsuppress combo)).1 := by
  refine ⟨rfl, ?_, h.down, ?_⟩
  · rw [suppressStep, wmUnsuppressKey, contents_unsuppressFrom, h.combos]
    rfl
  · intro keys hkeys
    exact h.below keys (Multiset.mem_of_mem_filter hkeys)

/-- With all keys below `MC_KEY_MAX`, the array of keys down says what the trace says. -/
theorem triggered_iff_ends {down : Vector Bool keyMax} {events : List KeyEvent}
    (htracks : Tracks down events) (key : MCKey) {c : KeyCombo}
    (hbelow : ∀ k ∈ c.toList, k < keyMax) :
    comboTriggered key c down = true ↔ Ends events key c.toList := by
  rw [comboTriggered_iff, Completes, Ends]
  refine and_congr_right fun _ => forall₂_congr fun mod hmod => ?_
  rw [flag_eq_true_iff htracks]
  exact and_iff_right (hbelow mod (List.dropLast_subset _ hmod))

theorem Means.hook (h : Means s m) (key : MCKey) (down : Bool) :
    (suppressStep s (.hook key down)).2 = (m.step (.hook key down)).2 ∧
      Means (suppressStep s (.hook key down)).1 (m.step (.hook key down)).1 := by
  have htracks := h.down.setFlag key down
  refine ⟨?_, h.combos, htracks, h.below⟩
  rw [suppressStep, suppressCb, Suppressed.step, SuppressAnswer.swallow.injEq, Bool.eq_iff_iff,
    List.any_eq_true, decide_eq_true_eq]
  have hmem : ∀ keys, keys ∈ m.combos ↔ ∃ c ∈ s.combos.toList, c.toList = keys := by
    intro keys
    rw [← h.combos, contents, Multiset.mem_coe, List.mem_map]
  constructor
  · rintro ⟨c, hc, htriggered⟩
    have hkeys : c.toList ∈ m.combos := (hmem _).mpr ⟨c, hc, rfl⟩
    exact ⟨c.toList, hkeys, (triggered_iff_ends htracks key (h.below _ hkeys)).mp htriggered⟩
  · rintro ⟨keys, hkeys, hends⟩
    obtain ⟨c, hc, rfl⟩ := (hmem keys).mp hkeys
    exact ⟨c, hc, (triggered_iff_ends htracks key (h.below _ hkeys)).mpr hends⟩

theorem Means.step (h : Means s m) {call : SuppressCall} (hcall : call.InRange keyMax) :
    (suppressStep s call).2 = (m.step call).2 ∧
      Means (suppressStep s call).1 (m.step call).1 := by
  cases call with
  | suppress combo keyboard => exact h.suppress combo keyboard hcall
  | unsuppress combo => exact h.unsuppress combo
  | hook key down => exact h.hook key down

theorem means_init (keyMax : Nat) : Means (Suppress.init keyMax) Suppressed.init where
  combos := by simp [Suppress.init, Suppressed.init, contents]
  down := tracks_cleared keyMax
  below := by simp [Suppressed.init]

/-- A call that fails leaves the table alone. -/
theorem suppressStep_of_error {call : SuppressCall} {e : WMError}
    (hanswer : (suppressStep s call).2 = .error e) (he : e ≠ .ok) :
    (suppressStep s call).1 = s := by
  cases call with
  | suppress combo keyboard =>
    rw [suppressStep, wmSuppressKey] at hanswer ⊢
    by_cases hkeyboard : keyboard ≠ .ok
    · rw [if_pos hkeyboard]
    · rw [if_neg hkeyboard] at hanswer ⊢
      by_cases hroom : s.combos.count < suppressMax
      · rw [dif_pos hroom] at hanswer
        cases hanswer
        exact absurd rfl he
      · rw [dif_neg hroom]
  | unsuppress combo =>
    cases hanswer
    exact absurd rfl he
  | hook key down => cases hanswer

end Refinement

/-- **The suppress table is a multiset of combos**, and answers as one, after any calls. -/
theorem suppress_refines {keyMax : Nat} {calls : List SuppressCall}
    (hcalls : ∀ call ∈ calls, call.InRange keyMax) :
    let s := final suppressStep (Suppress.init keyMax) calls
    let m := final Suppressed.step Suppressed.init calls
    outputs suppressStep (Suppress.init keyMax) calls =
      outputs Suppressed.step Suppressed.init calls ∧
    contents s.combos = m.combos ∧ m.combos.card = s.combos.count ∧ s.combos.count ≤ suppressMax ∧
    (∀ call e, (suppressStep s call).2 = .error e → e ≠ .ok → (suppressStep s call).1 = s) ∧
    ∀ combo fuel, s.combos.count ≤ fuel →
      unsuppressFrom combo fuel 0 s.combos = (wmUnsuppressKey s combo).2.combos := by
  intro s m
  obtain ⟨hanswers, hmeans⟩ := final_simulation suppressStep Suppressed.step Means
    (SuppressCall.InRange keyMax) (fun s m call hcall h => h.step hcall) (means_init keyMax) hcalls
  refine ⟨hanswers, hmeans.combos, ?_, s.combos.count_le, ?_, ?_⟩
  · rw [← hmeans.combos, card_contents]
  · intro call e hanswer he
    exact suppressStep_of_error hanswer he
  · intro combo fuel hfuel
    obtain ⟨more, rfl⟩ := Nat.exists_eq_add_of_le hfuel
    exact unsuppressFrom_fuel combo (Nat.le_of_eq (Nat.zero_add _).symm) more

/-- 1 + 2 suppressed twice and 3 + 2 once, 1 + 2 given up again, then 3 and 2 pressed. -/
def suppressTwice : List SuppressCall :=
  [.suppress comboOneTwo .ok, .suppress (.pair 3 2) .ok, .suppress comboOneTwo .ok,
    .unsuppress comboOneTwo, .hook 3 true, .hook 2 true]

theorem suppress_refines_twice :
    outputs suppressStep (Suppress.init 128) suppressTwice =
        [.error .ok, .error .ok, .error .ok, .error .ok, .swallow false, .swallow true] ∧
      contents (final suppressStep (Suppress.init 128) suppressTwice).combos = {[3, 2]} := by
  have hrange : ∀ call ∈ suppressTwice, call.InRange 128 := by
    simp [suppressTwice, SuppressCall.InRange, comboOneTwo, KeyCombo.pair, Slots.toList]
  have h := suppress_refines hrange
  exact ⟨h.1.trans (by decide), h.2.1.trans (by decide)⟩

end Uniwm
