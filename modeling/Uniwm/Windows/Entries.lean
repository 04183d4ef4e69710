import Uniwm.Windows.Sweep
import Uniwm.Windows.References

/-!
# uniwm — what a step does to an entry

`known` is set where an entry is made, from four places, and turned on in a fifth; the
`WINDOW_CREATED` event is sent by statements of its own. `EntryStep x seeds mentions s s'`
relates the two over one step: an entry that stays is known afterwards if it was, or if the step
reported `x` as created; a new entry is known if it was seeded or reported.

One lemma an operation (`sink_entry`, `firingPoll_entry`, `silentPoll_entry`, `ensure_entry`,
`handle_entry`), and `watchStep_entry` for every step of the watcher. Events are emitted only
once the event group is registered, which `emit_window_event` looks at.
-/

namespace Uniwm

open Base

variable {keyMax : Nat} {x : Identity}

-- ----------------------------------------------------------------------------
-- Reports and steps
-- ----------------------------------------------------------------------------

/-- One of the events reports `x` as created. -/
def ReportsCreated (x : Identity) (events : List WMEvent) : Prop :=
  ∃ event ∈ events, event.reports x = some .created

/-- What the queue of `s'` holds behind the events of `s`. -/
def pushedOn (s s' : Input keyMax) : List WMEvent := s'.queue.drop s.queue.length

/-- The step enumerates the windows without reporting them. -/
def WatchStep.Seeds : WatchStep → Prop
  | system (.setDefault ..) => True
  | system (.ensure ..) => True
  | poll fire _ => fire = false
  | _ => False

/-- The step is a notification that `x` was opened or has the focus. -/
def WatchStep.Mentions (x : Identity) : WatchStep → Prop
  | system (.notify hwnd .opened _ _) => hwnd = x
  | system (.notify hwnd .focused _ _) => hwnd = x
  | _ => False

-- ----------------------------------------------------------------------------
-- What a step does to an entry
-- ----------------------------------------------------------------------------

/-- What may happen to the entry of `x` on the way from `s` to `s'`. -/
structure EntryStep (x : Identity) (seeds mentions : Prop) (s s' : Input keyMax) : Prop where
  kept : ∀ w w', findWindow s.watch.list x = some w → findWindow s'.watch.list x = some w' →
    (w'.known = true ↔ w.known = true ∨ ReportsCreated x (pushedOn s s'))
  added : ∀ w', findWindow s.watch.list x = none → findWindow s'.watch.list x = some w' →
    (w'.known = true ↔ seeds ∨ ReportsCreated x (pushedOn s s')) ∧
      (w'.known = false → mentions)

@[simp] theorem not_reportsCreated_nil : ¬ ReportsCreated x [] := by
  rintro ⟨event, hevent, -⟩
  exact List.not_mem_nil hevent

theorem reportsCreated_windowEvent {y : Identity} {change : WindowChange} :
    ReportsCreated x [windowEvent y change] ↔ y = x ∧ change = .created := by
  rw [ReportsCreated]
  simp only [List.mem_singleton, exists_eq_left, windowEvent_reports]
  constructor
  · intro h
    split_ifs at h with hyx
    exact ⟨hyx.1, Option.some.inj h⟩
  · rintro ⟨rfl, rfl⟩
    simp

section Operations

variable {s s' : Input keyMax} {seeds mentions : Prop}

theorem pushedOn_of_queue {events : List WMEvent} (hqueue : s'.queue = s.queue ++ events) :
    pushedOn s s' = events := by
  rw [pushedOn, hqueue, List.drop_left]

theorem pushedOn_of_eq (hqueue : s'.queue = s.queue) : pushedOn s s' = [] := by
  rw [pushedOn, hqueue, List.drop_length]

/-- Where `x` keeps its entry, or loses it, and is not reported. -/
theorem EntryStep.idle (hlist : ∀ w', findWindow s'.watch.list x = some w' →
      findWindow s.watch.list x = some w')
    (hpushed : ¬ ReportsCreated x (pushedOn s s')) : EntryStep x seeds mentions s s' := by
  constructor
  · intro w w' hw hw'
    have hsame := hw.symm.trans (hlist w' hw')
    rw [Option.some.inj hsame]
    exact ⟨Or.inl, fun h => h.resolve_right hpushed⟩
  · intro w' hw hw'
    rw [hlist w' hw'] at hw
    cases hw

theorem EntryStep.same (hwatch : s'.watch.list = s.watch.list) (hqueue : s'.queue = s.queue) :
    EntryStep x seeds mentions s s' :=
  .idle (fun w' hw' => by rwa [hwatch] at hw') (by rw [pushedOn_of_eq hqueue]; simp)

/-- An entry that was there stays as it is, a new one is as told. -/
theorem EntryStep.or {new : Option RegisteredWindow}
    (hlist : findWindow s'.watch.list x = (findWindow s.watch.list x).or new)
    (hold : (findWindow s.watch.list x).isSome → ¬ ReportsCreated x (pushedOn s s'))
    (hnew : ∀ w' ∈ new, findWindow s.watch.list x = none →
      (w'.known = true ↔ seeds ∨ ReportsCreated x (pushedOn s s')) ∧
        (w'.known = false → mentions)) : EntryStep x seeds mentions s s' := by
  constructor
  · intro w w' hw hw'
    rw [hw, Option.some_or] at hlist
    have hsame := hlist.symm.trans hw'
    rw [Option.some.inj hsame]
    exact ⟨Or.inl, fun h => h.resolve_right (hold (by rw [hw]; rfl))⟩
  · intro w' hw hw'
    rw [hw, Option.none_or] at hlist
    exact hnew w' (Option.mem_def.mpr (hlist.symm.trans hw')) hw

-- ----------------------------------------------------------------------------
-- Notifications
-- ----------------------------------------------------------------------------

/-- With the event group registered, an emission pushes its event. -/
theorem pushedOn_emit (hwm : s'.wm = true) (hreg : s'.registered = true)
    (hqueue : s'.queue = s.queue) {change : WindowChange} (hchange : change ≠ .opened)
    (y : Identity) : pushedOn s (emitWindowEvent s' y change) = [windowEvent y change] := by
  apply pushedOn_of_queue
  rw [emitWindowEvent_eq hwm hreg hchange, hqueue]

/-- Registering without a report: what it adds is not known. -/
theorem register_entry {y : Identity} (hlist : s'.watch.list = s.watch.list)
    (resolved : Option WindowRef) (grown : Bool) {s'' : Input keyMax}
    (hwatch : s''.watch.list = (registerWindow s' y false resolved grown).watch.list)
    (hpushed : ¬ ReportsCreated x (pushedOn s s'')) (hseeds : ¬ seeds) :
    EntryStep x seeds (y = x) s s'' := by
  refine .or (by rw [hwatch, registerWindow_findWindow, hlist]) (fun _ => hpushed) ?_
  intro w' hw' hnone
  by_cases hyx : y = x
  · subst hyx
    have hknown : w'.known = false := by
      split at hw'
      · obtain ⟨r, -, rfl⟩ := Option.map_eq_some_iff.mp hw'
        rfl
      · cases hw'
    rw [hknown]
    exact ⟨iff_of_false Bool.false_ne_true (fun h => h.elim hseeds hpushed), fun _ => rfl⟩
  · rw [if_neg (by simp [hyx])] at hw'
    cases hw'

/-- A window shown for the first time is registered and reported. -/
theorem fresh_entry (hwm : s.wm = true) (hreg : s.registered = true) {y : Identity}
    (hfind : findWindow s.watch.list y = none) (resolved : Option WindowRef) (grown : Bool) :
    EntryStep x seeds mentions s
      (emitWindowEvent (registerWindow s y true resolved grown) y .created) := by
  have hkept := flagsKept (registerWindow_flags s y true resolved grown)
  have hpushed := pushedOn_emit (hkept.wm.trans hwm) (hkept.registered.trans hreg)
    (registerWindow_queue s y true resolved grown) (by decide : WindowChange.created ≠ .opened) y
  refine .or (by rw [emitWindowEvent_watch, registerWindow_findWindow]) ?_ ?_
  · -- a window with an entry is another one
    intro hsome
    rw [hpushed, reportsCreated_windowEvent]
    rintro ⟨rfl, -⟩
    rw [hfind] at hsome
    cases hsome
  · intro w' hw' _
    rw [hpushed, reportsCreated_windowEvent]
    split at hw'
    · next hyx =>
      obtain ⟨r, -, rfl⟩ := Option.map_eq_some_iff.mp hw'
      simp only [Bool.and_eq_true, decide_eq_true_eq] at hyx
      simp [hyx.1]
    · cases hw'

/-- One that has an entry, but was not shown so far, is marked and reported. -/
theorem marked_entry (hwm : s.wm = true) (hreg : s.registered = true) (y : Identity) :
    EntryStep x seeds mentions s
      (emitWindowEvent (s.setList (markKnown y s.watch.list)) y .created) := by
  have hmarked : (s.setList (markKnown y s.watch.list)).wm = true := hwm
  have hpushed := pushedOn_emit hmarked hreg (setList_queue _)
    (by decide : WindowChange.created ≠ .opened) y
  constructor
  · intro v v' hv hv'
    rw [emitWindowEvent_watch, setList_list, findWindow_markKnown] at hv'
    rw [hpushed, reportsCreated_windowEvent]
    -- the entry that is marked is the one reported
    by_cases hxy : x = y
    · subst hxy
      rw [if_pos rfl, hv] at hv'
      cases hv'
      simp
    · rw [if_neg hxy, hv] at hv'
      cases hv'
      simp [Ne.symm hxy]
  · intro v' hv hv'
    rw [emitWindowEvent_watch, setList_list, findWindow_markKnown] at hv'
    split_ifs at hv' with hxy
    · rw [← hxy, hv] at hv'
      cases hv'
    · rw [hv] at hv'
      cases hv'

theorem created_entry (hwm : s.wm = true) (hreg : s.registered = true) (y : Identity)
    (resolved : Option WindowRef) (grown : Bool) :
    EntryStep x seeds mentions s (targetWindowSink s y .created resolved grown) := by
  rw [targetWindowSink.eq_def, if_neg (by simp [hwm])]
  cases hfind : findWindow s.watch.list y with
  | none =>
    dsimp only
    exact fresh_entry hwm hreg hfind resolved grown
  | some w =>
    dsimp only
    split
    · exact .same rfl rfl
    · exact marked_entry hwm hreg y

/-- An entry that an erasure leaves was there before. -/
theorem findWindow_of_erase (hinv : WatchInv (fun _ => True) s) {y : Identity}
    {w : RegisteredWindow}
    (hw : findWindow (s.watch.list.eraseP (·.identity = y)) x = some w) :
    findWindow s.watch.list x = some w := by
  by_cases hxy : x = y
  · subst hxy
    rw [findWindow_erase_self hinv.nodup] at hw
    cases hw
  · rwa [findWindow_erase_ne hxy] at hw

theorem destroyed_entry (hinv : WatchInv (fun _ => True) s) (hwm : s.wm = true)
    (hreg : s.registered = true) (y : Identity) (resolved : Option WindowRef) (grown : Bool) :
    EntryStep x seeds mentions s (targetWindowSink s y .destroyed resolved grown) := by
  rw [targetWindowSink.eq_def, if_neg (by simp [hwm])]
  cases hfind : findWindow s.watch.list y with
  | none => exact .same rfl rfl
  | some w =>
    dsimp only
    split
    · refine .idle (fun w' hw' => by rwa [emitWindowEvent_watch] at hw') ?_
      rw [pushedOn_emit hwm hreg rfl (by decide : WindowChange.destroyed ≠ .opened),
        reportsCreated_windowEvent]
      exact fun h => absurd h.2 (by decide)
    -- a window that was never reported loses its entry
    · refine .idle (fun w' hw' => ?_) ?_
      · rw [unregisterWindow_list] at hw'
        exact findWindow_of_erase hinv hw'
      · rw [pushedOn_of_eq (unregisterWindow_queue s y)]
        exact not_reportsCreated_nil

/-- **Notifications.** -/
theorem sink_entry (hinv : WatchInv (fun _ => True) s) (hreg : s.registered = true)
    (y : Identity) (change : WindowChange) (resolved : Option WindowRef) (grown : Bool) :
    EntryStep x False ((WatchStep.system (.notify y change resolved grown)).Mentions x) s
      (targetWindowSink s y change resolved grown) := by
  cases hwm : s.wm with
  | false =>
    rw [targetWindowSink.eq_def, if_pos (by simp [hwm])]
    exact .same rfl rfl
  | true =>
    cases change with
    | created => exact created_entry hwm hreg y resolved grown
    | destroyed => exact destroyed_entry hinv hwm hreg y resolved grown
    | opened =>
      rw [targetWindowSink.eq_def, if_neg (by simp [hwm])]
      refine register_entry rfl resolved grown rfl ?_ id
      rw [pushedOn_of_eq (registerWindow_queue ..)]
      exact not_reportsCreated_nil
    | focused =>
      rw [targetWindowSink.eq_def, if_neg (by simp [hwm])]
      dsimp only
      split
      · exact .same rfl rfl
      · generalize hs' : ({ s with watch := { s.watch with focused := y } } : Input keyMax) = s'
        have hlist : s'.watch.list = s.watch.list := by rw [← hs']
        have hqueue : s'.queue = s.queue := by rw [← hs']
        have hflags : s'.flags = s.flags := by rw [← hs']; rfl
        have hkept := flagsKept ((registerWindow_flags s' y false resolved grown).trans hflags)
        refine register_entry hlist resolved grown (by rw [emitWindowEvent_watch]) ?_ id
        rw [pushedOn_emit (hkept.wm.trans hwm) (hkept.registered.trans hreg)
          ((registerWindow_queue ..).trans hqueue) (by decide : WindowChange.focused ≠ .opened),
          reportsCreated_windowEvent]
        exact fun h => absurd h.2 (by decide)

-- ----------------------------------------------------------------------------
-- Polls
-- ----------------------------------------------------------------------------

/-- A firing visit reports the window that it shows if that has no entry. -/
theorem visit_created {st : Input keyMax × List Identity} (hwm : st.1.wm = true)
    (hreg : st.1.registered = true) (v : Visit) :
    ∃ ys : List Identity, (windowVisit true st v).1.queue =
        st.1.queue ++ ys.map (windowEvent · .created) ∧
      ∀ y, y ∈ ys ↔ v.identity = some y ∧ findWindow st.1.watch.list y = none := by
  cases hid : v.identity with
  | none => exact ⟨[], by simp [windowVisit, hid], by simp⟩
  | some z =>
    cases hfind : findWindow st.1.watch.list z with
    | some w =>
      refine ⟨[], by simp [windowVisit, hid, hfind], ?_⟩
      intro y
      refine iff_of_false List.not_mem_nil ?_
      rintro ⟨hyz, hnone⟩
      cases hyz
      rw [hfind] at hnone
      cases hnone
    | none =>
      have hkept := flagsKept (flags_framed.registerRef st.1 z v.window true v.listGrown)
      have hqueue : (registerWindowRef st.1 z v.window true v.listGrown).queue = st.1.queue := by
        unfold registerWindowRef
        split <;> rfl
      refine ⟨[z], ?_, ?_⟩
      · simp only [windowVisit, hid, hfind, if_true]
        rw [emitWindowEvent_eq (hkept.wm.trans hwm) (hkept.registered.trans hreg)
          (by decide : WindowChange.created ≠ .opened), hqueue]
        rfl
      · intro y
        rw [List.mem_singleton, Option.some.injEq]
        constructor
        · rintro rfl
          exact ⟨rfl, hfind⟩
        · exact fun h => h.1.symm

/-- The visits of a firing poll report the windows shown that had no entry. -/
theorem visits_created (visits : List Visit) {st : Input keyMax × List Identity}
    (hwm : st.1.wm = true) (hreg : st.1.registered = true) :
    ∃ ys : List Identity, (visits.foldl (windowVisit true) st).1.queue =
        st.1.queue ++ ys.map (windowEvent · .created) ∧
      (∀ y ∈ ys, findWindow st.1.watch.list y = none) ∧
      ∀ v ∈ visits, ∀ y, v.identity = some y → findWindow st.1.watch.list y = none →
        y ∈ ys := by
  induction visits generalizing st with
  | nil => exact ⟨[], by simp, by simp, by simp⟩
  | cons v visits ih =>
    obtain ⟨ys, hys, hvisit⟩ := visit_created hwm hreg v
    have hkept := flagsKept (flags_framed.visit true st v)
    obtain ⟨zs, hzs, hfresh, hshown⟩ := ih (hkept.wm.trans hwm) (hkept.registered.trans hreg)
    refine ⟨ys ++ zs, by rw [List.foldl_cons, hzs, hys]; simp, ?_, ?_⟩
    · intro y hy
      rcases List.mem_append.mp hy with hy | hy
      · exact ((hvisit y).mp hy).2
      · have hnone := hfresh y hy
        rw [visit_findWindow, Option.or_eq_none_iff] at hnone
        exact hnone.1
    · intro u hu y hid hnone
      rw [List.mem_append]
      rcases List.mem_cons.mp hu with rfl | hu
      · exact Or.inl ((hvisit y).mpr ⟨hid, hnone⟩)
      · by_cases hv : v.identity = some y
        · exact Or.inl ((hvisit y).mpr ⟨hv, hnone⟩)
        -- not shown before, so it still has no entry when `u` shows it
        · refine Or.inr (hshown u hu y hid ?_)
          rw [visit_findWindow, hnone, Option.none_or, if_neg (by simp [Visit.stores, hv])]

theorem reportsCreated_append {as bs : List WMEvent} :
    ReportsCreated x (as ++ bs) ↔ ReportsCreated x as ∨ ReportsCreated x bs := by
  simp only [ReportsCreated, List.mem_append, or_and_right, exists_or]

theorem reportsCreated_created {ys : List Identity} :
    ReportsCreated x (ys.map (windowEvent · .created)) ↔ x ∈ ys := by
  induction ys with
  | nil => simp
  | cons y ys ih =>
    rw [List.map_cons, ← List.singleton_append, reportsCreated_append, ih,
      reportsCreated_windowEvent, List.mem_cons]
    simp [eq_comm]

theorem not_reportsCreated_destroyed {ys : List Identity} :
    ¬ ReportsCreated x (ys.map (windowEvent · .destroyed)) := by
  induction ys with
  | nil => simp
  | cons y ys ih =>
    rw [List.map_cons, ← List.singleton_append, reportsCreated_append,
      reportsCreated_windowEvent]
    rintro (⟨-, h⟩ | h)
    · cases h
    · exact ih h

/-- **Polls that report.** -/
theorem firingPoll_entry (hreg : s.registered = true) (visits : List Visit) :
    EntryStep x False mentions s (pollWindows true visits s) := by
  cases hwm : s.wm with
  | false =>
    rw [pollWindows_unset hwm]
    exact .same rfl rfl
  | true =>
    have hpoll := pollWindows_firing hwm visits
    have hkept := flagsKept (visits_flags true visits (s, []))
    obtain ⟨hwatch, hswept⟩ := sweepDestroyed_spec (hkept.wm.trans hwm)
      (hkept.registered.trans hreg) (visits.foldl (windowVisit true) (s, [])).2
    obtain ⟨ys, hys, hfresh, hshown⟩ := @visits_created keyMax visits (s, []) hwm hreg
    -- the visits report creations, the sweep destructions
    have hpushed : ReportsCreated x (pushedOn s (pollWindows true visits s)) ↔ x ∈ ys := by
      rw [hpoll, pushedOn_of_queue (by rw [hswept, hys, List.append_assoc]),
        reportsCreated_append, reportsCreated_created]
      exact or_iff_left not_reportsCreated_destroyed
    refine .or (by rw [hpoll, hwatch, visits_findWindow]) ?_ ?_
    · intro hsome
      rw [hpushed]
      intro hx
      rw [hfresh x hx] at hsome
      cases hsome
    · intro w' hw' hnone
      obtain ⟨v, hv, rfl⟩ := Option.map_eq_some_iff.mp hw'
      have hstores := List.find?_some hv
      simp only [Visit.stores, Bool.and_eq_true, decide_eq_true_eq] at hstores
      rw [hpushed]
      have hx := hshown v (List.mem_of_find?_eq_some hv) x hstores.1 hnone
      exact ⟨iff_of_true rfl (Or.inr hx), fun h => Bool.noConfusion h⟩

/-- **Silent polls.** -/
theorem silentPoll_entry (hseeds : seeds) (visits : List Visit) :
    EntryStep x seeds mentions s (pollWindows false visits s) := by
  have hpushed : ¬ ReportsCreated x (pushedOn s (pollWindows false visits s)) := by
    rw [pushedOn_of_eq (pollWindows_silent visits s)]
    exact not_reportsCreated_nil
  cases hwm : s.wm with
  | false =>
    rw [pollWindows_unset hwm]
    exact .same rfl rfl
  | true =>
    have hlist : findWindow (pollWindows false visits s).watch.list x =
        (findWindow s.watch.list x).or
          ((visits.find? (·.stores x)).map fun v => ⟨x, v.window, true⟩) := by
      rw [pollWindows_seeding hwm, visits_findWindow]
    refine .or hlist (fun _ => hpushed) ?_
    intro w' hw' _
    obtain ⟨v, -, rfl⟩ := Option.map_eq_some_iff.mp hw'
    exact ⟨iff_of_true rfl (Or.inl hseeds), fun h => Bool.noConfusion h⟩

-- ----------------------------------------------------------------------------
-- Every step
-- ----------------------------------------------------------------------------

/-- What happens between two states with the same list and queue. -/
theorem EntryStep.congr {t t' : Input keyMax} (h : EntryStep x seeds mentions s s')
    (hlist : t.watch.list = s.watch.list) (hqueue : t.queue = s.queue)
    (hlist' : t'.watch.list = s'.watch.list) (hqueue' : t'.queue = s'.queue) :
    EntryStep x seeds mentions t t' := by
  have hpushed : pushedOn t t' = pushedOn s s' := by rw [pushedOn, pushedOn, hqueue, hqueue']
  constructor
  · rw [hpushed, hlist, hlist']
    exact h.kept
  · rw [hpushed, hlist, hlist']
    exact h.added

/-- Handling an event emits nothing, and an entry that stays is the one that was there. -/
theorem handle_entry (hinv : WatchInv (fun _ => True) s) (cbs : Callbacks) :
    EntryStep x seeds mentions s (handleEvent cbs s) := by
  refine .idle ?_ ?_
  · intro w' hw'
    rcases handleEvent_list cbs s with hlist | ⟨event, -, -, hlist⟩
    · rwa [hlist] at hw'
    · rw [hlist] at hw'
      exact findWindow_of_erase hinv hw'
  · rw [pushedOn, handleEvent_queue, List.drop_eq_nil_of_le (by simp)]
    exact not_reportsCreated_nil

theorem ensure_entry (s : System keyMax) (o : EnsureOutcome) (hseeds : seeds) :
    EntryStep x seeds mentions s.input (wmWindowWatchEnsure s o).2.input := by
  have hensures := ensures s o
  generalize (wmWindowWatchEnsure s o).2.input = s' at hensures ⊢
  cases hensures with
  | watching hactive => exact .same rfl rfl
  | failed hfailed => exact .same (by rw [inputEnsure_watch]) (inputEnsure_queue ..)
  | seeded hok reactive =>
    refine (silentPoll_entry hseeds o.visits).congr
      (s := (wmInputEnsure s.input o.wmInit o.groupOk).2.activate) ?_ ?_
      (pollUnless_list _) (pollUnless_queue _)
    · exact (congrArg Watch.list (inputEnsure_watch s.input o.wmInit o.groupOk)).symm
    · exact (inputEnsure_queue s.input o.wmInit o.groupOk).symm

end Operations

section Steps

variable {s : System keyMax}

/-- **Step lemma.** -/
theorem watchStep_entry (hinv : WatchInv (fun _ => True) s.input) (st : WatchStep)
    (hreg : s.input.registered = true ∨ st.Seeds) :
    EntryStep x st.Seeds (st.Mentions x) s.input (st.step s).1.input := by
  rcases st with st | ⟨fire, visits⟩
  · cases st with
    | setDefault ti wmInit groupOk o =>
      refine (ensure_entry { s with
        process := { s.process with defaultTi := ti }
        input := (wmInputEnsure s.input wmInit groupOk).2 } o trivial).congr ?_ ?_ rfl rfl
      · exact (congrArg Watch.list (inputEnsure_watch s.input wmInit groupOk)).symm
      · exact (inputEnsure_queue s.input wmInit groupOk).symm
    | ensure o => exact ensure_entry s o trivial
    | process targetInit => exact .same rfl rfl
    | processFini =>
      have hinput : (wmProcessFini s).input = s.input := by
        unfold wmProcessFini
        split <;> rfl
      exact .same (congrArg (·.watch.list) hinput) (congrArg (·.queue) hinput)
    | notify hwnd change resolved grown =>
      exact sink_entry hinv (hreg.resolve_right id) hwnd change resolved grown
    | tick visits =>
      show EntryStep x False False s.input (wmTick visits s.input)
      unfold wmTick
      dsimp only
      split
      · exact (firingPoll_entry (hreg.resolve_right id) visits).congr rfl rfl rfl rfl
      · exact .same rfl rfl
    | handle cbs => exact handle_entry hinv cbs
    | key k down =>
      refine .idle (fun w' hw' => hw') ?_
      -- a key is no window
      show ¬ ReportsCreated x (pushedOn s.input (keyHook s.input k down))
      rw [pushedOn_of_queue rfl]
      rintro ⟨event, hevent, hreports⟩
      rw [List.mem_singleton.mp hevent] at hreports
      cases down <;> cases hreports
  · cases fire with
    | false => exact silentPoll_entry rfl visits
    | true =>
      have hnot : ¬ (WatchStep.poll true visits).Seeds := fun h => Bool.noConfusion h
      have hpoll : EntryStep x False False s.input (pollWindows true visits s.input) :=
        firingPoll_entry (hreg.resolve_right hnot) visits
      refine ⟨hpoll.kept, fun w' hw hw' => ?_⟩
      have hadded := hpoll.added w' hw hw'
      rwa [iff_false_intro hnot]

end Steps

end Uniwm
