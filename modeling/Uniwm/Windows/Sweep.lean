import Uniwm.Windows.Polling
import Uniwm.Windows.Reactive

/-!
# uniwm — destructions that a poll infers

A firing poll takes a registered window for destroyed when its identity is not in the list
of those seen (`poll_destroys_iff`). The list is built by the visits, and a visit may leave
the window it shows out of it: its identity query can fail, and so can the push. What the
enumeration itself answers, that it could not go on, is not looked at.

An `Enumeration` is what one call of `mc_wm_get_all_windows` does: the windows live at that
moment, those it shows before it ends, and its result. `sweep_sound_iff` is the exact
condition under which the poll reports only windows that are really gone;
`live_window_destroyed` gives two enumerations that make a live window reported as
destroyed.
-/

namespace Uniwm

open Base

variable {keyMax : Nat}

/-! ## Enumerations that may fail -/

/-- A window shown by an enumeration: its identity, whether `mc_wm_window_get_identity` gives
it, and whether the pushes to `poll.seen` and to `watch.list` find memory. -/
structure ShownWindow where
  hwnd : Identity
  window : WindowRef
  queried : Bool
  seenGrown : Bool
  listGrown : Bool

/-- The visit that the window gets. -/
def ShownWindow.visit (v : ShownWindow) : Visit :=
  ⟨v.window, if v.queried then some v.hwnd else none, v.seenGrown, v.listGrown⟩

theorem ShownWindow.visit_identity_iff {v : ShownWindow} {x : Identity} :
    v.visit.identity = some x ↔ v.hwnd = x ∧ v.queried = true := by
  unfold ShownWindow.visit
  cases v.queried <;> simp

/-- One call of `mc_wm_get_all_windows`: it shows the first of the live windows, all of them
if its result is `MCE_OK`. -/
structure Enumeration where
  live : List Identity
  shown : List ShownWindow
  ok : Bool
  shown_live : shown.map (·.hwnd) <+: live
  complete : ok = true → shown.map (·.hwnd) = live

namespace Enumeration

variable (e : Enumeration) (x : Identity)

/-- The visits that the poll gets. -/
def visits : List Visit := e.shown.map ShownWindow.visit

/-- The window `x` is shown. -/
def Shows : Prop := ∃ v ∈ e.shown, v.hwnd = x

/-- A visit of `x` enters it into `poll.seen`. -/
def Notices : Prop := ∃ v ∈ e.shown, v.hwnd = x ∧ v.queried = true ∧ v.seenGrown = true

/-- A visit of `x` finds memory for an entry. -/
def Stores : Prop := ∃ v ∈ e.shown, v.hwnd = x ∧ v.queried = true ∧ v.listGrown = true

end Enumeration

/-- A firing poll reports `x` as destroyed. -/
def PollDestroys (s : Input keyMax) (e : Enumeration) (x : Identity) : Prop :=
  ∃ event ∈ (pollWindows true e.visits s).queue.drop s.queue.length,
    event.reports x = some .destroyed

/-- A firing poll reports as destroyed only windows that are gone, and none at all when the
enumeration did not come to its end. -/
def SweepSound (s : Input keyMax) (e : Enumeration) : Prop :=
  ∀ x, PollDestroys s e x → e.ok = true ∧ x ∉ e.live

/-! ## What the visits leave -/

/-- A visit pushes created events only. -/
theorem visit_pushes (st : Input keyMax × List Identity) (v : Visit) :
    ∃ xs : List Identity, (windowVisit true st v).1.queue =
      st.1.queue ++ xs.map (windowEvent · .created) := by
  cases hid : v.identity with
  | none => exact ⟨[], by simp [windowVisit, hid]⟩
  | some x =>
    cases hfind : findWindow st.1.watch.list x with
    | some w => exact ⟨[], by simp [windowVisit, hid, hfind]⟩
    | none =>
      have hreg : (registerWindowRef st.1 x v.window true v.listGrown).queue = st.1.queue := by
        unfold registerWindowRef
        split <;> rfl
      simp only [windowVisit, hid, hfind, if_true]
      rcases emitWindowEvent_queue (registerWindowRef st.1 x v.window true v.listGrown) x .created
        with hq | hq
      · exact ⟨[], by rw [hq, hreg]; simp⟩
      · exact ⟨[x], by rw [hq, hreg]; rfl⟩

theorem visits_push (visits : List Visit) (st : Input keyMax × List Identity) :
    ∃ xs : List Identity, (visits.foldl (windowVisit true) st).1.queue =
      st.1.queue ++ xs.map (windowEvent · .created) := by
  induction visits generalizing st with
  | nil => exact ⟨[], by simp⟩
  | cons v visits ih =>
    obtain ⟨xs, hxs⟩ := visit_pushes st v
    obtain ⟨ys, hys⟩ := ih (windowVisit true st v)
    exact ⟨xs ++ ys, by rw [List.foldl_cons, hys, hxs]; simp⟩

/-- The identities seen are those of the visits that could be asked and remembered. -/
theorem mem_seen_iff (fire : Bool) (visits : List Visit) (st : Input keyMax × List Identity)
    (x : Identity) :
    x ∈ (visits.foldl (windowVisit fire) st).2 ↔
      x ∈ st.2 ∨ ∃ v ∈ visits, v.identity = some x ∧ v.seenGrown = true := by
  induction visits generalizing st with
  | nil => simp
  | cons v visits ih =>
    have hvisit : x ∈ (windowVisit fire st v).2 ↔
        x ∈ st.2 ∨ (v.identity = some x ∧ v.seenGrown = true) := by
      cases hid : v.identity with
      | none => simp [windowVisit, hid]
      | some y =>
        have hseen : (windowVisit fire st v).2 = if v.seenGrown then st.2 ++ [y] else st.2 := by
          simp only [windowVisit, hid]
          split <;> rfl
        rw [hseen]
        cases v.seenGrown <;> simp [eq_comm]
    rw [List.foldl_cons, ih, hvisit, or_assoc, List.exists_mem_cons_iff]

/-- The identities registered afterwards are those that were, and those stored. -/
theorem mem_registered_iff (fire : Bool) (visits : List Visit) (s : Input keyMax)
    (x : Identity) :
    x ∈ (visits.foldl (windowVisit fire) (s, [])).1.identities ↔
      x ∈ s.identities ∨ ∃ v ∈ visits, v.stores x = true := by
  have hfind := visits_findWindow fire visits (s, []) x
  have hmem : ∀ s' : Input keyMax, x ∈ s'.identities ↔ findWindow s'.watch.list x ≠ none :=
    fun s' => by rw [ne_eq, findWindow_eq_none_iff, not_not]; rfl
  rw [hmem, hmem, hfind]
  simp only [ne_eq, Option.or_eq_none_iff, Option.map_eq_none_iff, List.find?_eq_none]
  grind

/-- After the visits of an enumeration `poll.seen` holds the windows noticed. -/
theorem Enumeration.mem_seen_iff (e : Enumeration) (s : Input keyMax) (x : Identity) :
    x ∈ (e.visits.foldl (windowVisit true) (s, [])).2 ↔ e.Notices x := by
  rw [Uniwm.mem_seen_iff, Enumeration.visits]
  simp only [List.not_mem_nil, false_or, List.mem_map, exists_exists_and_eq_and,
    ShownWindow.visit_identity_iff, and_assoc]
  rfl

theorem Enumeration.mem_registered_iff (e : Enumeration) (s : Input keyMax) (x : Identity) :
    x ∈ (e.visits.foldl (windowVisit true) (s, [])).1.identities ↔
      x ∈ s.identities ∨ e.Stores x := by
  rw [Uniwm.mem_registered_iff, Enumeration.visits]
  simp only [Visit.stores, Bool.and_eq_true, decide_eq_true_eq, List.mem_map,
    exists_exists_and_eq_and, ShownWindow.visit_identity_iff, and_assoc]
  rfl

/-! ## What the poll reports -/

/-- **The sweep.** A firing poll reports as destroyed the identities that are registered, from
before or by one of its visits, and were not noticed. -/
theorem poll_destroys_iff {s : Input keyMax} (hwm : s.wm = true) (hreg : s.registered = true)
    (e : Enumeration) (x : Identity) :
    PollDestroys s e x ↔ (x ∈ s.identities ∨ e.Stores x) ∧ ¬ e.Notices x := by
  have hkept := flagsKept (visits_flags true e.visits (s, []))
  obtain ⟨-, hswept⟩ := sweepDestroyed_spec (hkept.wm.trans hwm) (hkept.registered.trans hreg)
    (e.visits.foldl (windowVisit true) (s, [])).2
  obtain ⟨ys, hys⟩ := visits_push e.visits (s, [])
  -- the events pushed: creations by the visits, then destructions by the sweep
  rw [← e.mem_seen_iff s x, ← e.mem_registered_iff s x, PollDestroys,
    pollWindows_firing hwm, hswept, hys, List.append_assoc, List.drop_left]
  constructor
  · rintro ⟨event, hevent, hreports⟩
    rcases List.mem_append.mp hevent with hevent | hevent
    · obtain ⟨y, -, rfl⟩ := List.mem_map.mp hevent
      rw [windowEvent_reports] at hreports
      split at hreports <;> cases hreports
    · obtain ⟨y, hy, rfl⟩ := List.mem_map.mp hevent
      rw [windowEvent_reports] at hreports
      have hyx : y = x := by
        by_contra hne
        rw [if_neg (fun h => hne h.1)] at hreports
        cases hreports
      rw [List.mem_filter, decide_eq_true_eq] at hy
      exact hyx ▸ hy
  · rintro ⟨hregistered, hunseen⟩
    refine ⟨windowEvent x .destroyed, List.mem_append_right _ ?_, ?_⟩
    · exact List.mem_map_of_mem (List.mem_filter.mpr ⟨hregistered, by simpa using hunseen⟩)
    · rw [windowEvent_reports, if_pos ⟨rfl, Or.inr rfl⟩]

/-- Without the input, or without the event group, nothing is reported. -/
theorem poll_destroys_mute {s : Input keyMax} (hmute : ¬ (s.wm = true ∧ s.registered = true))
    (e : Enumeration) (x : Identity) : ¬ PollDestroys s e x := by
  have hqueue : (pollWindows true e.visits s).queue = s.queue := by
    cases hwm : s.wm with
    | false => rw [pollWindows_unset hwm]
    | true =>
      have hreg : s.registered = false := by
        rw [Bool.eq_false_iff]
        exact fun h => hmute ⟨hwm, h⟩
      exact poll_mute hreg true e.visits
  rintro ⟨event, hevent, -⟩
  rw [hqueue, List.drop_length] at hevent
  exact List.not_mem_nil hevent

/-- **Inferred destructions.** For every registry and every enumeration, with whatever
failures: a firing poll reports only windows that are gone, and none when the enumeration
did not come to its end, if and only if (unless events cannot be pushed at all) every
registered window that the enumeration showed, or every registered window if it did not
come to its end, is noticed by one of the visits. -/
theorem sweep_sound_iff (s : Input keyMax) (e : Enumeration) :
    SweepSound s e ↔
      (s.wm = true ∧ s.registered = true →
        ∀ x, x ∈ s.identities ∨ e.Stores x → (e.ok = true → e.Shows x) → e.Notices x) := by
  have hlive : e.ok = true → ∀ x, x ∈ e.live ↔ e.Shows x := by
    intro hok x
    rw [← e.complete hok, List.mem_map]
    rfl
  by_cases hmute : s.wm = true ∧ s.registered = true
  · simp only [SweepSound, poll_destroys_iff hmute.1 hmute.2, hmute, and_self, true_imp_iff]
    refine forall_congr' fun x => ?_
    -- a window that is noticed is neither reported nor asked about
    by_cases hnotices : e.Notices x
    · simp [hnotices]
    · cases hok : e.ok with
      | true => simp [hnotices, hlive hok]
      | false => simp [hnotices]
  · exact iff_of_true (fun x hx => absurd hx (poll_destroys_mute hmute e x))
      (fun h => absurd h hmute)

/-! ### Live windows reported as destroyed -/

/-- The enumeration of the live windows 5 and 6 that gives up after the first of them. -/
def cutShort : Enumeration where
  live := [5, 6]
  shown := [⟨5, 1, true, true, true⟩]
  ok := false
  shown_live := by decide
  complete := by decide

/-- The complete enumeration of the live window 5, without memory for `poll.seen`. -/
def unseen : Enumeration where
  live := [5]
  shown := [⟨5, 1, true, false, true⟩]
  ok := true
  shown_live := by decide
  complete := by decide

/-- The windows 5 and 6 are registered. -/
def twoRegistered : Input 128 :=
  { Input.init 128 with
    wm := true
    registered := true
    watch := ⟨true, true, [⟨5, 11, true⟩, ⟨6, 12, true⟩], 0⟩ }

/-- Window 6, which the first enumeration does not come to, and window 5, which the second
one shows, are reported as destroyed. -/
theorem live_window_destroyed :
    (PollDestroys twoRegistered cutShort 6 ∧ ¬ SweepSound twoRegistered cutShort) ∧
      PollDestroys twoRegistered unseen 5 ∧ ¬ SweepSound twoRegistered unseen := by
  have hcut : PollDestroys twoRegistered cutShort 6 := by
    rw [poll_destroys_iff rfl rfl]
    simp [twoRegistered, Input.identities, cutShort, Enumeration.Notices]
  have hunseen : PollDestroys twoRegistered unseen 5 := by
    rw [poll_destroys_iff rfl rfl]
    simp [twoRegistered, Input.identities, unseen, Enumeration.Notices]
  refine ⟨⟨hcut, fun h => ?_⟩, hunseen, ?_⟩
  · exact absurd (h 6 hcut).1 (by decide)
  · intro h
    exact (h 5 hunseen).2 (by decide)

end Uniwm
