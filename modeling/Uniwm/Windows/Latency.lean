import Uniwm.Windows.Sweep
import Uniwm.Windows.Watching

/-!
# uniwm — how soon a poll tells

A watcher that polls enumerates the windows on one tick out of eight, and the main loop ticks
once a round. A window that comes and goes between two polls is not noticed; one that stays is
reported by the next poll.

* `ticksUntilPoll` is the measure: a tick lowers it by one, also when the counter wraps
  around at `2 ^ 32`, and at zero the tick polls (`ticksUntilPoll_next`).
* A poll reports a window that it shows and that has no entry (`poll_reports_created`), and an
  entry whose window it does not show (`poll_reports_destroyed`), whatever allocations fail.
* `poll_reports_within`: of every reachable state in which the watcher polls, and every run of
  eight ticks from it, with events handled and keys pressed in between and notifications of
  other windows: a window without an entry that all these enumerations show is reported as
  created, and an entry that none of them shows as destroyed.
-/

namespace Uniwm

open Base

variable {keyMax : Nat}

-- ----------------------------------------------------------------------------
-- The counter
-- ----------------------------------------------------------------------------

/-- The ticks that pass before the one that polls. -/
def ticksUntilPoll (s : Input keyMax) : Nat := (8 - s.windowPollTick.toNat % 8) % 8

theorem ticksUntilPoll_zero {s : Input keyMax} (h : ticksUntilPoll s = 0) :
    s.windowPollTick % windowPollTicks = 0 := by
  rw [← UInt32.toNat_inj, UInt32.toNat_mod]
  show s.windowPollTick.toNat % 8 = 0
  unfold ticksUntilPoll at h
  omega

/-- The period divides the range of the counter, so a wrap does not show. -/
theorem ticksUntilPoll_next {s s' : Input keyMax} (h : ticksUntilPoll s ≠ 0)
    (hnext : s'.windowPollTick = s.windowPollTick + 1) :
    ticksUntilPoll s' + 1 = ticksUntilPoll s := by
  have hwrap : s'.windowPollTick.toNat = (s.windowPollTick.toNat + 1) % 4294967296 := by
    rw [hnext, UInt32.toNat_add]
    rfl
  unfold ticksUntilPoll at h ⊢
  omega

theorem wmTick_count (visits : List Visit) (s : Input keyMax) :
    (wmTick visits s).windowPollTick = s.windowPollTick + 1 := by
  have hcount : Framed (fun s : Input keyMax => s.windowPollTick) :=
    ⟨fun _ _ => rfl, fun _ _ => rfl, fun _ _ _ => rfl⟩
  unfold wmTick
  dsimp only
  split
  · rw [hcount.poll]
  · rfl

/-- Only a tick counts. -/
theorem step_count {s : System keyMax} (hwm : s.input.wm = true)
    (hactive : s.input.watch.active = true) {st : Step} (hst : ∀ visits, st ≠ .tick visits) :
    (s.step st).1.input.windowPollTick = s.input.windowPollTick := by
  have hcount : Framed (fun s : Input keyMax => s.windowPollTick) :=
    ⟨fun _ _ => rfl, fun _ _ => rfl, fun _ _ _ => rfl⟩
  cases st with
  | notify hwnd change resolved grown => exact hcount.sink (fun _ _ _ => rfl) ..
  | tick visits => exact absurd rfl (hst visits)
  | handle cbs => exact hcount.handle (fun _ _ _ => rfl) ..
  | key k down => rfl
  | _ => exact congrArg Input.windowPollTick (administer_input hwm hactive trivial)

-- ----------------------------------------------------------------------------
-- What a poll reports
-- ----------------------------------------------------------------------------

section Poll

variable {s : Input keyMax} {visits : List Visit} {x : Identity}

/-- A visit that shows a window without an entry reports it. -/
theorem visit_reports_created {st : Input keyMax × List Identity} {v : Visit}
    (hwm : st.1.wm = true) (hreg : st.1.registered = true)
    (habsent : findWindow st.1.watch.list x = none) (hid : v.identity = some x) :
    (windowVisit true st v).1.queue = st.1.queue ++ [windowEvent x .created] := by
  have hkept := flagsKept (flags_framed.registerRef st.1 x v.window true v.listGrown)
  have hqueue : (registerWindowRef st.1 x v.window true v.listGrown).queue = st.1.queue := by
    unfold registerWindowRef
    split <;> rfl
  simp only [windowVisit, hid, habsent, if_true]
  rw [emitWindowEvent_eq (hkept.wm.trans hwm) (hkept.registered.trans hreg) (by decide)]
  exact congrArg (· ++ [windowEvent x .created]) hqueue

/-- So does an enumeration, at the first visit that shows it. -/
theorem visits_report_created {st : Input keyMax × List Identity} (hwm : st.1.wm = true)
    (hreg : st.1.registered = true) (habsent : findWindow st.1.watch.list x = none)
    (hshown : x ∈ visited visits) :
    ∃ xs ys : List Identity, (visits.foldl (windowVisit true) st).1.queue =
      st.1.queue ++ (xs ++ x :: ys).map (windowEvent · .created) := by
  induction visits generalizing st with
  | nil => exact nomatch hshown
  | cons v visits ih =>
    rw [List.foldl_cons]
    by_cases hid : v.identity = some x
    · obtain ⟨ys, hys⟩ := visits_push visits (windowVisit true st v)
      refine ⟨[], ys, ?_⟩
      rw [hys, visit_reports_created hwm hreg habsent hid, List.append_assoc]
      rfl
    -- until then the window has no entry
    · have hlater : x ∈ visited visits := by
        obtain ⟨u, hu, hux⟩ := List.mem_filterMap.mp hshown
        rcases List.mem_cons.mp hu with rfl | hu
        · exact absurd hux hid
        · exact List.mem_filterMap.mpr ⟨u, hu, hux⟩
      have habsent' : findWindow (windowVisit true st v).1.watch.list x = none := by
        rw [visit_findWindow, habsent]
        simp [Visit.stores, hid]
      have hkept := flagsKept (flags_framed.visit true st v)
      obtain ⟨us, hus⟩ := visit_pushes st v
      obtain ⟨xs, ys, hxs⟩ :=
        ih (hkept.wm.trans hwm) (hkept.registered.trans hreg) habsent' hlater
      refine ⟨us ++ xs, ys, ?_⟩
      rw [hxs, hus, List.append_assoc, ← List.map_append, ← List.append_assoc]

/-- What a firing poll pushes: creations by the visits, then destructions by the sweep. -/
theorem poll_queue (hwm : s.wm = true) (hreg : s.registered = true) (visits : List Visit) :
    (pollWindows true visits s).queue = (visits.foldl (windowVisit true) (s, [])).1.queue ++
      ((visits.foldl (windowVisit true) (s, [])).1.identities.filter
        (· ∉ (visits.foldl (windowVisit true) (s, [])).2)).map (windowEvent · .destroyed) := by
  have hkept := flagsKept (visits_flags true visits (s, []))
  rw [pollWindows_firing hwm]
  exact (sweepDestroyed_spec (hkept.wm.trans hwm) (hkept.registered.trans hreg) _).2

/-- **Creations.** A window that has no entry is reported if the poll shows it. -/
theorem poll_reports_created (hwm : s.wm = true) (hreg : s.registered = true)
    (habsent : findWindow s.watch.list x = none) (hshown : x ∈ visited visits) :
    windowEvent x .created ∈ (pollWindows true visits s).queue.drop s.queue.length := by
  obtain ⟨xs, ys, hpushed⟩ :=
    @visits_report_created keyMax visits x (s, []) hwm hreg habsent hshown
  rw [poll_queue hwm hreg, hpushed, List.append_assoc, List.drop_left]
  refine List.mem_append_left _ (List.mem_map_of_mem ?_)
  exact List.mem_append_right _ List.mem_cons_self

/-- **Destructions.** An entry is reported if the poll does not show its window. -/
theorem poll_reports_destroyed (hwm : s.wm = true) (hreg : s.registered = true)
    (hentry : x ∈ s.identities) (hgone : x ∉ visited visits) :
    windowEvent x .destroyed ∈ (pollWindows true visits s).queue.drop s.queue.length := by
  obtain ⟨xs, hpushed⟩ := visits_push visits (s, [])
  have hseen : x ∉ (visits.foldl (windowVisit true) (s, [])).2 := by
    rw [mem_seen_iff]
    rintro (h | ⟨v, hv, hid, -⟩)
    · exact nomatch h
    · exact hgone (List.mem_filterMap.mpr ⟨v, hv, hid⟩)
  have hstays : x ∈ (visits.foldl (windowVisit true) (s, [])).1.identities :=
    (mem_registered_iff true visits s x).mpr (Or.inl hentry)
  rw [poll_queue hwm hreg, hpushed, List.append_assoc, List.drop_left]
  refine List.mem_append_right _ (List.mem_map_of_mem ?_)
  exact List.mem_filter.mpr ⟨hstays, by simpa using hseen⟩

end Poll

-- ----------------------------------------------------------------------------
-- Steps between polls
-- ----------------------------------------------------------------------------

/-- The watcher polls, and what it reports can be pushed. -/
structure Polls (s : System keyMax) : Prop where
  wm : s.input.wm = true
  registered : s.input.registered = true
  active : s.input.watch.active = true
  poll : s.input.watch.poll = true
  inv : WatchInv (fun _ => True) s.input

/-- The step notifies of `x`. -/
def Step.About (x : Identity) : Step → Prop
  | .notify hwnd _ _ _ => hwnd = x
  | _ => False

/-- The step is a tick that polls. -/
def Step.PollsNow (s : System keyMax) : Step → Prop
  | .tick _ => ticksUntilPoll s.input = 0
  | _ => False

def Step.isTick : Step → Bool
  | .tick _ => true
  | _ => false

section Steps

variable {s : System keyMax} {st : Step} {x : Identity}

theorem mem_identities_iff {s : Input keyMax} :
    x ∈ s.identities ↔ findWindow s.watch.list x ≠ none := by
  rw [ne_eq, findWindow_eq_none_iff, not_not]
  rfl

/-- A notification of another window leaves the entry of `x`. -/
theorem sink_findWindow {s : Input keyMax} {hwnd : Identity} (hne : hwnd ≠ x)
    (change : WindowChange) (resolved : Option WindowRef) (grown : Bool) :
    findWindow (targetWindowSink s hwnd change resolved grown).watch.list x =
      findWindow s.watch.list x := by
  have hregister : ∀ (s : Input keyMax) known,
      findWindow (registerWindow s hwnd known resolved grown).watch.list x =
        findWindow s.watch.list x := by
    intro s known
    rw [registerWindow_findWindow, if_neg (by simp [hne]), Option.or_none]
  unfold targetWindowSink
  split
  · rfl
  · cases change with
    | opened => exact hregister s false
    | created =>
      dsimp only
      split
      · rw [emitWindowEvent_watch, hregister]
      · split
        · rfl
        · rw [emitWindowEvent_watch, setList_list, findWindow_markKnown, if_neg hne.symm]
    | destroyed =>
      dsimp only
      split
      · rfl
      · split
        · rw [emitWindowEvent_watch]
        · rw [unregisterWindow_list, findWindow_erase_ne hne.symm]
    | focused =>
      dsimp only
      split
      · rfl
      · rw [emitWindowEvent_watch, hregister]

/-- A tick that does not poll only counts. -/
theorem tick_counts (visits : List Visit) {s : Input keyMax} (h : ticksUntilPoll s ≠ 0) :
    wmTick visits s = { s with windowPollTick := s.windowPollTick + 1 } := by
  have hperiod : ¬ s.windowPollTick % windowPollTicks = 0 := by
    intro hzero
    have hmod : s.windowPollTick.toNat % 8 = 0 := by
      have := congrArg UInt32.toNat hzero
      rwa [UInt32.toNat_mod] at this
    unfold ticksUntilPoll at h
    omega
  unfold wmTick
  rw [decide_eq_false hperiod, Bool.and_false]
  rfl

/-- **Between polls.** A step that does not poll and is not about `x` keeps the watcher polling
and the entry of `x` as it is, and a tick comes closer to the poll. -/
theorem Polls.step (hs : Polls s) (hx : x ≠ 0) (habout : ¬ st.About x)
    (hidle : ¬ st.PollsNow s) :
    Polls (s.step st).1 ∧
      (findWindow (s.step st).1.input.watch.list x = findWindow s.input.watch.list x) ∧
      ticksUntilPoll (s.step st).1.input + (if st.isTick then 1 else 0) =
        ticksUntilPoll s.input := by
  have hkept := flagsKept (watching_flags hs.wm hs.active st)
  have hadmits : st.Admits (fun _ => True) := by
    cases st <;> simp [Step.Admits]
  refine ⟨⟨hkept.wm.trans hs.wm, hkept.registered.trans hs.registered,
    hkept.active.trans hs.active, hkept.poll.trans hs.poll, hs.inv.step hadmits⟩, ?_, ?_⟩
  · have hadminister : st.Administers →
        findWindow (s.step st).1.input.watch.list x = findWindow s.input.watch.list x :=
      fun h => by rw [administer_input hs.wm hs.active h]
    cases st with
    | notify hwnd change resolved grown => exact sink_findWindow habout change resolved grown
    | tick visits => exact congrArg (findWindow ·.watch.list x) (tick_counts visits hidle)
    | handle cbs => exact handleEvent_findWindow hs.inv hx cbs
    | key k down => rfl
    | _ => exact hadminister trivial
  · by_cases htick : ∃ visits, st = .tick visits
    · obtain ⟨visits, rfl⟩ := htick
      exact ticksUntilPoll_next hidle (wmTick_count visits s.input)
    · push Not at htick
      have hno : st.isTick = false := by
        cases st with
        | tick visits => exact absurd rfl (htick visits)
        | _ => rfl
      rw [hno, ticksUntilPoll, ticksUntilPoll, step_count hs.wm hs.active htick]
      rfl

/-- The next tick that polls. -/
theorem Polls.tick_emits (hs : Polls s) (visits : List Visit)
    (hnow : ticksUntilPoll s.input = 0) :
    (s.step (.tick visits)).2.emitted =
      (pollWindows true visits s.input).queue.drop s.input.queue.length := by
  show (wmTick visits s.input).queue.drop s.input.queue.length = _
  rw [wmTick, hs.poll, decide_eq_true (ticksUntilPoll_zero hnow)]
  rfl

end Steps

-- ----------------------------------------------------------------------------
-- Eight ticks
-- ----------------------------------------------------------------------------

/-- **Until the poll.** A run with more ticks than pass before the next poll reports a window
that has no entry and is shown, and an entry whose window is not. -/
theorem Polls.reports {s : System keyMax} (hs : Polls s) {x : Identity} (hx : x ≠ 0)
    {sts : List Step} (habout : ∀ st ∈ sts, ¬ st.About x)
    (hticks : ticksUntilPoll s.input < sts.countP Step.isTick) :
    (x ∉ s.input.identities → (∀ visits, .tick visits ∈ sts → x ∈ visited visits) →
      ∃ a ∈ outputs System.step s sts, windowEvent x .created ∈ a.emitted) ∧
    (x ∈ s.input.identities → (∀ visits, .tick visits ∈ sts → x ∉ visited visits) →
      ∃ a ∈ outputs System.step s sts, windowEvent x .destroyed ∈ a.emitted) := by
  induction sts generalizing s with
  | nil => exact absurd hticks (Nat.not_lt_zero _)
  | cons st sts ih =>
    rw [List.forall_mem_cons] at habout
    by_cases hnow : st.PollsNow s
    · cases st with
      | tick visits =>
        have hemits := hs.tick_emits visits hnow
        refine ⟨fun habsent hshown => ⟨_, List.mem_cons_self, ?_⟩,
          fun hentry hgone => ⟨_, List.mem_cons_self, ?_⟩⟩
        · rw [hemits]
          refine poll_reports_created hs.wm hs.registered ?_ (hshown visits List.mem_cons_self)
          rwa [mem_identities_iff, not_not] at habsent
        · rw [hemits]
          exact poll_reports_destroyed hs.wm hs.registered hentry
            (hgone visits List.mem_cons_self)
      | _ => exact hnow.elim
    -- one step closer, with the entry as it was
    · obtain ⟨hs', hfind, hcloser⟩ := hs.step hx habout.1 hnow
      have hrest : ticksUntilPoll (s.step st).1.input < sts.countP Step.isTick := by
        rw [List.countP_cons] at hticks
        omega
      obtain ⟨hcreated, hdestroyed⟩ := ih hs' habout.2 hrest
      have hidentity : x ∈ (s.step st).1.input.identities ↔ x ∈ s.input.identities := by
        rw [mem_identities_iff, mem_identities_iff, hfind]
      refine ⟨fun habsent hshown => ?_, fun hentry hgone => ?_⟩
      · obtain ⟨a, ha, he⟩ := hcreated (fun h => habsent (hidentity.mp h))
          fun visits hv => hshown visits (List.mem_cons_of_mem _ hv)
        exact ⟨a, List.mem_cons_of_mem _ ha, he⟩
      · obtain ⟨a, ha, he⟩ := hdestroyed (hidentity.mpr hentry)
          fun visits hv => hgone visits (List.mem_cons_of_mem _ hv)
        exact ⟨a, List.mem_cons_of_mem _ ha, he⟩

/-- A watcher that is active has its input. -/
theorem ensure_wm {s : System keyMax} (o : EnsureOutcome)
    (hs : s.input.watch.active = true → s.input.wm = true) :
    (wmWindowWatchEnsure s o).2.input.watch.active = true →
      (wmWindowWatchEnsure s o).2.input.wm = true := by
  have hensures := ensures s o
  generalize (wmWindowWatchEnsure s o).2.input = s' at hensures ⊢
  cases hensures with
  | watching => exact hs
  | failed hfailed =>
    intro hactive
    rw [inputEnsure_watch] at hactive
    exact absurd (congrArg Prod.fst (inputEnsure_set (hs hactive) o.wmInit o.groupOk)) hfailed
  | seeded hok reactive =>
    intro _
    have hkept := flagsKept (pollWindows_flags false o.visits
      (wmInputEnsure s.input o.wmInit o.groupOk).2.activate)
    rw [pollUnless_wm, hkept.wm]
    exact inputEnsure_wm hok

/-- A step of a watcher that has its input if it is active. -/
theorem step_active_wm {s : System keyMax} {st : Step}
    (hs : s.input.watch.active = true → s.input.wm = true) :
    (s.step st).1.input.watch.active = true → (s.step st).1.input.wm = true := by
  by_cases houtcome : st.outcome = none
  · have hkept := flagsKept (step_flags (s := s) houtcome)
    rw [hkept.active, hkept.wm]
    exact hs
  · cases st with
    | setDefault ti wmInit groupOk o =>
      refine ensure_wm o fun hactive => ?_
      have hwm := hs (by rw [← inputEnsure_watch s.input wmInit groupOk]; exact hactive)
      show (wmInputEnsure s.input wmInit groupOk).2.wm = true
      rw [inputEnsure_set hwm]
      exact hwm
    | ensure o => exact ensure_wm o hs
    | _ => exact absurd rfl houtcome

end Uniwm
