import Uniwm.Keys.Combos
import Uniwm.Keys.SuppressTable
import Uniwm.Model.Suppressing

/-!
# uniwm — what a script suppresses is swallowed

A script suppresses combos by their specs and gives them up again, and in between the keyboard
hook asks. `inForce` reads off what the script was told which combos are in force: those of each
call that went through, but for the ones given up since. The hook swallows just the key events
that complete one of them (`script_supresses`), whatever the order of the calls, whichever of
them fail and however the specs are written.

* `specCombo_cases`    — a spec is a combo, or there is none.
* `inForce_concat`     — what a call adds to those in force and what it takes away.
* `Means.concat`       — the table keeps meaning the combos in force.
* `script_supresses`   — and so the answers are what they should be.
-/

namespace Uniwm

open Base

-- ----------------------------------------------------------------------------
-- Specs
-- ----------------------------------------------------------------------------

/-- A text that splits at `+` into at most four key names. -/
def IsSpec (names : KeyNames) (text : List UInt8) : Prop :=
  (text.splitOn plusSign).length ≤ wmKeyComboMax ∧
    ∀ piece ∈ text.splitOn plusSign, names.fromStr piece ≠ names.unknown

instance (names : KeyNames) (text : List UInt8) : Decidable (IsSpec names text) :=
  inferInstanceAs (Decidable (_ ∧ _))

/-- The key names are those of keys below `MC_KEY_MAX`. -/
def KeyNames.Below (names : KeyNames) (keyMax : Nat) : Prop :=
  ∀ text, names.fromStr text ≠ names.unknown → names.fromStr text < keyMax

theorem specCombo_cases (names : KeyNames) (spec : CString) :
    (¬ IsSpec names spec.text ∧ specCombo names spec = none) ∨
      IsSpec names spec.text ∧ ∃ combo, specCombo names spec = some combo ∧
        combo.toList = specKeys names spec.text := by
  have hiff := wmKeyComboFromStr_ok_iff names spec Slots.empty
  unfold specCombo
  by_cases hok : (wmKeyComboFromStr names (some spec) (some Slots.empty)).error = .ok
  · obtain ⟨combo, hout, -, hkeys, -⟩ := wmKeyComboFromStr_out names spec Slots.empty hok
    rw [if_neg (not_not_intro hok)]
    exact Or.inr ⟨hiff.mp hok, combo, hout, hkeys⟩
  · rw [if_pos hok]
    exact Or.inl ⟨fun hspec => hok (hiff.mpr hspec), rfl⟩

theorem IsSpec.below {names : KeyNames} {keyMax : Nat} (hnames : names.Below keyMax)
    {text : List UInt8} (h : IsSpec names text) : ∀ key ∈ specKeys names text, key < keyMax := by
  intro key hkey
  obtain ⟨piece, hpiece, rfl⟩ := List.mem_map.mp hkey
  exact hnames piece (h.2 piece hpiece)

-- ----------------------------------------------------------------------------
-- What is in force
-- ----------------------------------------------------------------------------

/-- What was called and what the answer was. -/
abbrev SupressTrace := List (SupressStep × SupressAnswer)

/-- The call gives up the combo of these keys. -/
def undoes (names : KeyNames) (keys : List MCKey) : SupressStep × SupressAnswer → Bool
  | (.unsupress spec _, .raised none) => specKeys names spec.text = keys
  | _ => false

/-- The combo that the call adds, by its keys. -/
def added (names : KeyNames) : SupressStep × SupressAnswer → List (List MCKey)
  | (.supress spec _ _, .raised none) => [specKeys names spec.text]
  | _ => []

/-- The combos added and not given up since, each by its keys. -/
def inForce (names : KeyNames) : SupressTrace → List (List MCKey)
  | [] => []
  | x :: later =>
    ((added names x).filter fun keys => !later.any (undoes names keys)) ++ inForce names later

/-- The keyboard events that the hook was asked about. -/
def hookEvents (trace : SupressTrace) : List KeyEvent :=
  trace.filterMap fun x =>
    match x.1 with
    | .hook key down => some (key, down)
    | _ => none

variable (names : KeyNames)

theorem inForce_concat (trace : SupressTrace) (x : SupressStep × SupressAnswer) :
    inForce names (trace ++ [x]) =
      ((inForce names trace).filter fun keys => !undoes names keys x) ++ added names x := by
  induction trace with
  | nil => simp [inForce]
  | cons y trace ih =>
    rw [List.cons_append, inForce, ih, inForce, List.filter_append, List.filter_filter,
      List.append_assoc]
    congr 2
    funext keys
    rw [List.any_append, List.any_cons, List.any_nil, Bool.or_false, Bool.not_or, Bool.and_comm]

/-- What gives up no combo only adds. -/
theorem inForce_concat_keeps (trace : SupressTrace) {x : SupressStep × SupressAnswer}
    (hundoes : ∀ keys, undoes names keys x = false) :
    inForce names (trace ++ [x]) = inForce names trace ++ added names x := by
  have hkept : ((inForce names trace).filter fun keys => !undoes names keys x) =
      inForce names trace :=
    List.filter_eq_self.mpr fun keys _ => by rw [hundoes]; rfl
  rw [inForce_concat, hkept]

-- ----------------------------------------------------------------------------
-- One call
-- ----------------------------------------------------------------------------

section Calls

variable {keyMax : Nat} (s : Suppress keyMax) (spec : CString) (wm : Bool)

/-- Either `supress_key` adds the combo, or it raises an error and changes nothing. -/
theorem supress_cases (keyboard : WMError) :
    let called := supressStep names s (.supress spec wm keyboard)
    let goes := IsSpec names spec.text ∧ wm = true ∧ keyboard = .ok ∧ s.combos.count < suppressMax
    goes ∧ called.2 = .raised none ∧ (∃ combo, combo.toList = specKeys names spec.text ∧
        called.1 = (suppressStep s (.suppress combo .ok)).1) ∨
      ¬ goes ∧ (∃ message, called.2 = .raised (some message)) ∧ called.1 = s := by
  intro called goes
  rcases specCombo_cases names spec with ⟨hspec, hnone⟩ | ⟨hspec, combo, hsome, hkeys⟩
  · have hcalled : called = (s, .raised (some (invalidSpec "uniwm.supress_key" spec))) := by
      simp only [called, supressStep, lSupressKey, hnone]
    rw [hcalled]
    exact Or.inr ⟨fun h => hspec h.1, ⟨_, rfl⟩, rfl⟩
  cases wm with
  | false =>
    have hcalled : called = (s, .raised (some (ascii noWindowManager))) := by
      simp only [called, supressStep, lSupressKey, hsome, Bool.not_false, if_true]
    rw [hcalled]
    exact Or.inr ⟨fun h => Bool.false_ne_true h.2.1, ⟨_, rfl⟩, rfl⟩
  | true =>
    have hfails : (wmSuppressKey s combo keyboard).1 ≠ .ok →
        called = ((wmSuppressKey s combo keyboard).2,
          .raised (some (ascii "uniwm.supress_key: failed"))) := by
      intro hne
      simp only [called, supressStep, lSupressKey, hsome, Bool.not_true, Bool.false_eq_true,
        if_false, if_pos hne]
    by_cases hkeyboard : keyboard = .ok
    · subst hkeyboard
      by_cases hroom : s.combos.count < suppressMax
      · refine Or.inl ⟨⟨hspec, rfl, rfl, hroom⟩, ?_⟩
        have hok : (wmSuppressKey s combo .ok).1 = .ok := by
          rw [wmSuppressKey, if_neg (not_not_intro rfl), dif_pos hroom]
        have hcalled : called = ((wmSuppressKey s combo .ok).2, .raised none) := by
          simp only [called, supressStep, lSupressKey, hsome, Bool.not_true, Bool.false_eq_true,
            if_false, if_neg (not_not_intro hok)]
        rw [hcalled]
        exact ⟨rfl, combo, hkeys, rfl⟩
      -- the table is full
      · have hfull : wmSuppressKey s combo .ok = (.outOfMemory, s) := by
          rw [wmSuppressKey, if_neg (not_not_intro rfl), dif_neg hroom]
        rw [hfails (by simp [hfull]), hfull]
        exact Or.inr ⟨fun h => hroom h.2.2.2, ⟨_, rfl⟩, rfl⟩
    · have hfailed : wmSuppressKey s combo keyboard = (keyboard, s) := by
        rw [wmSuppressKey, if_pos hkeyboard]
      rw [hfails (by rwa [hfailed]), hfailed]
      exact Or.inr ⟨fun h => hkeyboard h.2.2.1, ⟨_, rfl⟩, rfl⟩

/-- Either `unsupress_key` gives the combo up, or it raises an error and changes nothing. -/
theorem unsupress_cases :
    let called := supressStep names s (.unsupress spec wm)
    let goes := IsSpec names spec.text ∧ wm = true
    goes ∧ called.2 = .raised none ∧ (∃ combo, combo.toList = specKeys names spec.text ∧
        called.1 = (suppressStep s (.unsuppress combo)).1) ∨
      ¬ goes ∧ (∃ message, called.2 = .raised (some message)) ∧ called.1 = s := by
  intro called goes
  rcases specCombo_cases names spec with ⟨hspec, hnone⟩ | ⟨hspec, combo, hsome, hkeys⟩
  · have hcalled : called = (s, .raised (some (invalidSpec "uniwm.unsupress_key" spec))) := by
      simp only [called, supressStep, lUnsupressKey, hnone]
    rw [hcalled]
    exact Or.inr ⟨fun h => hspec h.1, ⟨_, rfl⟩, rfl⟩
  cases wm with
  | false =>
    have hcalled : called = (s, .raised (some (ascii noWindowManager))) := by
      simp only [called, supressStep, lUnsupressKey, hsome, Bool.not_false, if_true]
    rw [hcalled]
    exact Or.inr ⟨fun h => Bool.false_ne_true h.2, ⟨_, rfl⟩, rfl⟩
  | true =>
    have hcalled : called = ((wmUnsuppressKey s combo).2, .raised none) := by
      simp only [called, supressStep, lUnsupressKey, hsome, Bool.not_true, Bool.false_eq_true,
        if_false]
      rfl
    rw [hcalled]
    exact Or.inl ⟨⟨hspec, rfl⟩, rfl, combo, hkeys, rfl⟩

end Calls

-- ----------------------------------------------------------------------------
-- The table means it
-- ----------------------------------------------------------------------------

/-- What the trace says is suppressed. -/
def Suppressed.of (trace : SupressTrace) : Suppressed := ⟨inForce names trace, hookEvents trace⟩

theorem hookEvents_concat (trace : SupressTrace) (x : SupressStep × SupressAnswer) :
    hookEvents (trace ++ [x]) = hookEvents trace ++ hookEvents [x] :=
  List.filterMap_append

theorem Suppressed.of_supress (trace : SupressTrace) (spec : CString) (wm : Bool)
    (keyboard : WMError) :
    Suppressed.of names (trace ++ [(.supress spec wm keyboard, .raised none)]) =
      ⟨specKeys names spec.text ::ₘ inForce names trace, hookEvents trace⟩ := by
  rw [Suppressed.of, inForce_concat_keeps names trace fun _ => rfl, hookEvents_concat,
    Suppressed.mk.injEq]
  refine ⟨?_, List.append_nil _⟩
  rw [Multiset.cons_coe, Multiset.coe_eq_coe]
  exact List.perm_append_singleton _ _

theorem Suppressed.of_unsupress (trace : SupressTrace) (spec : CString) (wm : Bool) :
    Suppressed.of names (trace ++ [(.unsupress spec wm, .raised none)]) =
      ⟨(inForce names trace : Multiset (List MCKey)).filter (· ≠ specKeys names spec.text),
        hookEvents trace⟩ := by
  rw [Suppressed.of, inForce_concat, hookEvents_concat, Suppressed.mk.injEq, Multiset.filter_coe]
  refine ⟨congrArg _ ?_, List.append_nil _⟩
  show _ ++ [] = _
  rw [List.append_nil]
  refine List.filter_congr fun keys _ => ?_
  rw [undoes, ← decide_not]
  exact decide_eq_decide.mpr ne_comm

theorem Suppressed.of_hook (trace : SupressTrace) (key : MCKey) (down : Bool)
    (answer : SupressAnswer) :
    Suppressed.of names (trace ++ [(.hook key down, answer)]) =
      ⟨inForce names trace, hookEvents trace ++ [(key, down)]⟩ := by
  rw [Suppressed.of, inForce_concat_keeps names trace fun _ => rfl, hookEvents_concat,
    Suppressed.mk.injEq]
  exact ⟨congrArg _ (List.append_nil _), rfl⟩

/-- What adds nothing and gives up nothing leaves what is suppressed as it is. -/
theorem Suppressed.of_idle (trace : SupressTrace) {x : SupressStep × SupressAnswer}
    (hadded : added names x = []) (hundoes : ∀ keys, undoes names keys x = false)
    (hevents : hookEvents [x] = []) :
    Suppressed.of names (trace ++ [x]) = Suppressed.of names trace := by
  rw [Suppressed.of, inForce_concat_keeps names trace hundoes, hadded, List.append_nil,
    hookEvents_concat, hevents, List.append_nil, Suppressed.of]

variable {names}

section Runs

variable {keyMax : Nat} {s : Suppress keyMax} {trace : SupressTrace}

theorem Means.count_eq (h : Means s (Suppressed.of names trace)) :
    s.combos.count = (inForce names trace).length := by
  rw [← card_contents, h.combos]
  rfl

/-- **One step.** The table goes on to mean what is in force. -/
theorem Means.concat (hnames : names.Below keyMax) (h : Means s (Suppressed.of names trace))
    (st : SupressStep) :
    Means (supressStep names s st).1
      (Suppressed.of names (trace ++ [(st, (supressStep names s st).2)])) := by
  cases st with
  | supress spec wm keyboard =>
    rcases supress_cases names s spec wm keyboard with
      ⟨⟨hspec, -, -, hroom⟩, hanswer, combo, hkeys, hnext⟩ | ⟨-, ⟨message, hanswer⟩, hnext⟩
    · have hmeans := (h.suppress combo .ok (by rw [hkeys]; exact hspec.below hnames)).2
      rw [hanswer, hnext]
      have hcard : (Suppressed.of names trace).combos.card < suppressMax := by
        rwa [← h.combos, card_contents]
      have hsame : (Suppressed.step (Suppressed.of names trace) (.suppress combo .ok)).1 =
          Suppressed.of names (trace ++ [(.supress spec wm keyboard, .raised none)]) := by
        rw [Suppressed.step, if_neg (not_not_intro rfl), if_pos hcard, Suppressed.of_supress, hkeys]
        rfl
      rwa [hsame] at hmeans
    · rw [hanswer, hnext, Suppressed.of_idle names trace rfl (fun _ => rfl) rfl]
      exact h
  | unsupress spec wm =>
    rcases unsupress_cases names s spec wm with
      ⟨⟨hspec, -⟩, hanswer, combo, hkeys, hnext⟩ | ⟨-, ⟨message, hanswer⟩, hnext⟩
    · have hmeans := (h.unsuppress combo).2
      rw [hanswer, hnext]
      have hsame : (Suppressed.step (Suppressed.of names trace) (.unsuppress combo)).1 =
          Suppressed.of names (trace ++ [(.unsupress spec wm, .raised none)]) := by
        rw [Suppressed.step, Suppressed.of_unsupress, hkeys]
        rfl
      rwa [hsame] at hmeans
    · rw [hanswer, hnext, Suppressed.of_idle names trace rfl (fun _ => rfl) rfl]
      exact h
  | hook key down =>
    have hmeans := (h.hook key down).2
    rw [Suppressed.of_hook]
    exact hmeans

theorem means_run (hnames : names.Below keyMax) (steps : List SupressStep) :
    Means (final (supressStep names) (Suppress.init keyMax) steps)
      (Suppressed.of names (steps.zip (outputs (supressStep names) (Suppress.init keyMax) steps))) :=
  final_trace (supressStep names) (fun s trace => Means s (Suppressed.of names trace))
    (fun _ _ st h => h.concat hnames st) (means_init keyMax) steps

end Runs

/-- **What scripts suppress is swallowed.** After any calls, whatever came of each: the hook
swallows a key event if it completes a combo in force and not otherwise; `supress_key` goes
through if its spec is one, there is a window manager, the keyboard can be listened to and fewer
than `SUPPRESS_MAX` combos are in force; `unsupress_key` does without the last two; and a call
that raises an error changes nothing. -/
theorem script_supresses {keyMax : Nat} (hnames : names.Below keyMax) (steps : List SupressStep) :
    let s := final (supressStep names) (Suppress.init keyMax) steps
    let trace := steps.zip (outputs (supressStep names) (Suppress.init keyMax) steps)
    (∀ key down, (supressStep names s (.hook key down)).2 = .swallow
      (decide (∃ keys ∈ inForce names trace, Ends (hookEvents trace ++ [(key, down)]) key keys))) ∧
    (∀ spec wm keyboard, (supressStep names s (.supress spec wm keyboard)).2 = .raised none ↔
      IsSpec names spec.text ∧ wm = true ∧ keyboard = .ok ∧
        (inForce names trace).length < suppressMax) ∧
    (∀ spec wm, (supressStep names s (.unsupress spec wm)).2 = .raised none ↔
      IsSpec names spec.text ∧ wm = true) ∧
    (∀ st message, (supressStep names s st).2 = .raised (some message) →
      (supressStep names s st).1 = s) ∧
    (inForce names trace).length ≤ suppressMax := by
  intro s trace
  have hmeans : Means s (Suppressed.of names trace) := means_run hnames steps
  have hcount : s.combos.count = (inForce names trace).length := hmeans.count_eq
  refine ⟨fun key down => ?_, fun spec wm keyboard => ?_, fun spec wm => ?_, ?_, ?_⟩
  · have hanswer := (hmeans.hook key down).1
    rw [Suppressed.step, suppressStep, SuppressAnswer.swallow.injEq] at hanswer
    rw [supressStep, hanswer]
    exact congrArg SupressAnswer.swallow (decide_eq_decide.mpr Iff.rfl)
  · rw [← hcount]
    rcases supress_cases names s spec wm keyboard with
      ⟨hgoes, hanswer, -⟩ | ⟨hgoes, ⟨message, hanswer⟩, -⟩
    · exact iff_of_true hanswer hgoes
    · exact iff_of_false (by simp [hanswer]) hgoes
  · rcases unsupress_cases names s spec wm with
      ⟨hgoes, hanswer, -⟩ | ⟨hgoes, ⟨message, hanswer⟩, -⟩
    · exact iff_of_true hanswer hgoes
    · exact iff_of_false (by simp [hanswer]) hgoes
  · intro st message hraised
    cases st with
    | supress spec wm keyboard =>
      rcases supress_cases names s spec wm keyboard with ⟨-, hanswer, -⟩ | ⟨-, -, hsame⟩
      · rw [hanswer] at hraised
        cases hraised
      · exact hsame
    | unsupress spec wm =>
      rcases unsupress_cases names s spec wm with ⟨-, hanswer, -⟩ | ⟨-, -, hsame⟩
      · rw [hanswer] at hraised
        cases hraised
      · exact hsame
    | hook key down => cases hraised
  · rw [← hcount]
    exact s.combos.count_le

/-- A string that stands alone in memory. -/
def CString.ofText (text : List UInt8) (h : 0 ∉ text) : CString where
  mem p := (text[p]?).getD 0
  beg := 0
  stop := text.length
  beg_le := Nat.zero_le _
  no_nul p _ hp := by
    rw [List.getElem?_eq_getElem hp]
    exact fun hzero => h (hzero ▸ List.getElem_mem hp)
  nul := by simp

/-- Keys named by one letter, from 1 on. -/
def letterKeys : KeyNames where
  unknown := 0
  fromStr
    | [c] => c.toNat - 96
    | _ => 0

theorem letterKeys_below : letterKeys.Below 160 := by
  intro text _
  rcases text with _ | ⟨c, _ | ⟨d, rest⟩⟩
  · decide
  · have hc : c.toNat < 256 := c.toNat_lt
    show c.toNat - 96 < 160
    omega
  · show 0 < 160
    decide

/-- `a+b` and `b+a` are suppressed, `a+b` is given up again, and `a+` is no spec. Then B goes
down. -/
def supressTwo : List SupressStep :=
  [.supress (.ofText (ascii "a+b") (by decide)) true .ok,
    .supress (.ofText (ascii "b+a") (by decide)) true .ok,
    .unsupress (.ofText (ascii "a+b") (by decide)) true,
    .supress (.ofText (ascii "a+") (by decide)) true .ok,
    .hook 2 true]

theorem script_supresses_two :
    let s := final (supressStep letterKeys) (Suppress.init 160) supressTwo
    (supressStep letterKeys s (.hook 1 true)).2 = .swallow true ∧
      (supressStep letterKeys s (.hook 2 true)).2 = .swallow false := by
  obtain ⟨hook, -⟩ := script_supresses letterKeys_below supressTwo
  exact ⟨(hook 1 true).trans (by decide +kernel), (hook 2 true).trans (by decide +kernel)⟩

end Uniwm
