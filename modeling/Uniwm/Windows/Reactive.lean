import Uniwm.Windows.Mute

/-!
# uniwm — windows that come and go, in reactive mode

Seen from outside, a handle `h` is absent or present: `presence h` is that automaton,
started by the seed enumeration and moved by the notifications for `h`. The watcher
has its own idea, `knownTo h`: whether `h` has an entry that is `known`. It reports a
creation or destruction by that idea (`step_reports`), so it follows the automaton as
long as the two ideas are one.

They part in two places. A destruction leaves the entry in place, since nothing
releases it (`Uniwm.Windows.Release`) and even a release would come only with the
queued event; and a creation that cannot be stored is reported without being
remembered. From there on any further notification for `h` is answered wrongly:
`presence_followed_iff` is the exact condition, `presence_not_followed` a handle
reused after its destruction.

Without the event group (`Uniwm.Windows.Mute`) the watcher reports nothing, which is right as
long as nothing is due (`Mute.follows_iff`).
-/

namespace Uniwm

open Base

variable {keyMax : Nat} {h : Identity}

/-! ## The two sides -/

/-- What a step tells about the coming and going of `h`. -/
def Step.tells (h : Identity) : Step → Option WindowChange
  | .notify hwnd .created _ _ => if hwnd = h then some .created else none
  | .notify hwnd .destroyed _ _ => if hwnd = h then some .destroyed else none
  | _ => none

/-- The automaton absent/present of a handle, with the events it asks for. -/
def presence (h : Identity) (present : Bool) (st : Step) : Bool × List WindowChange :=
  match st.tells h with
  | some .created => (true, if present then [] else [.created])
  | some .destroyed => (false, if present then [.destroyed] else [])
  | _ => (present, [])

/-- The creation or destruction of `h` that an event reports. -/
def WMEvent.reports (h : Identity) : WMEvent → Option WindowChange
  | .uniwm .windowCreated raw => if raw.objectAsU64 "window_id" = h then some .created else none
  | .uniwm .windowDestroyed raw =>
    if raw.objectAsU64 "window_id" = h then some .destroyed else none
  | _ => none

/-- The creations and destructions of `h` that a step reports. -/
def Answer.reports (h : Identity) (a : Answer) : List WindowChange :=
  a.emitted.filterMap (WMEvent.reports h)

/-- Step by step the events emitted for `h` are those of its automaton. -/
def FollowsPresence (h : Identity) (s : System keyMax) (present : Bool) (steps : List Step) :
    Prop :=
  (outputs System.step s steps).map (Answer.reports h) = outputs (presence h) present steps

/-- `h` has an entry that is known. -/
def knownTo (h : Identity) (s : System keyMax) : Bool :=
  (findWindow s.input.watch.list h).any (·.known)

/-! ## What a step reports -/

/-- The watcher runs in reactive mode and can push events. -/
structure Reactive (s : System keyMax) : Prop where
  flags : s.input.flags = (true, true, true, false)
  watchInv : WatchInv (fun _ => True) s.input

section Step

variable {s : System keyMax}

theorem Reactive.fields (hs : Reactive s) : s.input.wm = true ∧ s.input.registered = true ∧
    s.input.watch.active = true ∧ s.input.watch.poll = false := by
  simpa [Input.flags] using hs.flags

theorem Reactive.administer (hs : Reactive s) {st : Step} (hst : st.Administers) :
    (s.step st).1.input = s.input :=
  administer_input hs.fields.1 hs.fields.2.2.1 hst

/-- Without `poll`, a tick counts and does nothing else. -/
theorem Reactive.tick (hs : Reactive s) (visits : List Visit) :
    wmTick visits s.input =
      { s.input with windowPollTick := s.input.windowPollTick + 1 } := by
  simp [wmTick, hs.fields.2.2.2]

theorem Reactive.step (hs : Reactive s) (st : Step) : Reactive (s.step st).1 := by
  have hadmits : st.Admits (fun _ => True) := by
    cases st <;> simp [Step.Admits]
  exact ⟨(watching_flags hs.fields.1 hs.fields.2.2.1 st).trans hs.flags,
    hs.watchInv.step hadmits⟩

/-- A notification whose window can be resolved and stored. -/
def Step.storable : Step → Bool
  | .notify _ _ resolved grown => resolved.isSome && grown
  | _ => false

theorem windowEvent_reports (x : Identity) (change : WindowChange) :
    (windowEvent x change).reports h =
      if x = h ∧ (change = .created ∨ change = .destroyed) then some change else none := by
  have hid := windowEvent_id x change
  cases change <;> simp_all [windowEvent, WMEvent.reports, uniwmEventOf, WMEvent.raw]

/-- What an emitted event reports about `h`. -/
theorem Reactive.emit_reports (hs : Reactive s) {s' : Input keyMax}
    (hflags : s'.flags = s.input.flags) (hqueue : s'.queue = s.input.queue)
    {change : WindowChange} (hchange : change ≠ .opened) (x : Identity) :
    ((emitWindowEvent s' x change).queue.drop s.input.queue.length).filterMap
        (WMEvent.reports h) =
      if x = h ∧ (change = .created ∨ change = .destroyed) then [change] else [] := by
  have hkept := flagsKept hflags
  have hwm := hkept.wm.trans hs.fields.1
  have hreg := hkept.registered.trans hs.fields.2.1
  rw [emitWindowEvent_eq hwm hreg hchange, hqueue, List.drop_left, List.filterMap_cons,
    windowEvent_reports]
  by_cases h' : x = h ∧ (change = .created ∨ change = .destroyed)
  · rw [if_pos h', if_pos h']
    rfl
  · rw [if_neg h', if_neg h']
    rfl

/-- What the watcher makes of a step: what it reports about `h`, and whether it takes
`h` for known afterwards. -/
def watcherAnswer (h : Identity) (s : System keyMax) (st : Step) : List WindowChange × Bool :=
  match st.tells h with
  | some .created => (if knownTo h s then [] else [.created],
      knownTo h s || (findWindow s.input.watch.list h).isSome || st.storable)
  | some .destroyed => (if knownTo h s then [.destroyed] else [], knownTo h s)
  | _ => ([], knownTo h s)

/-- What the sink has reported about `h` on the way from `s` to `s'`, and whether it takes
`h` for known in `s'`. -/
def sinkAnswer (h : Identity) (s s' : Input keyMax) : List WindowChange × Bool :=
  ((s'.queue.drop s.queue.length).filterMap (WMEvent.reports h),
    (findWindow s'.watch.list h).any (·.known))

/-- An entry that is not known does not make `h` known. -/
theorem register_unknown {s' : Input keyMax} (hlist : s'.watch.list = s.input.watch.list)
    (hwnd : Identity) (resolved : Option WindowRef) (grown : Bool) :
    (findWindow (registerWindow s' hwnd false resolved grown).watch.list h).any (·.known) =
      knownTo h s := by
  rw [registerWindow_findWindow, hlist, knownTo]
  cases findWindow s.input.watch.list h with
  | some w => rfl
  | none =>
    rw [Option.none_or]
    split
    · cases resolved <;> rfl
    · rfl

theorem Reactive.opened_reports (hs : Reactive s) (hwnd : Identity)
    (resolved : Option WindowRef) (grown : Bool) :
    sinkAnswer h s.input (targetWindowSink s.input hwnd .opened resolved grown) =
      watcherAnswer h s (.notify hwnd .opened resolved grown) := by
  rw [targetWindowSink.eq_def, if_neg (by simp [hs.fields.1])]
  dsimp only
  rw [sinkAnswer, registerWindow_queue, List.drop_length, register_unknown rfl]
  rfl

theorem Reactive.focused_reports (hs : Reactive s) (hwnd : Identity)
    (resolved : Option WindowRef) (grown : Bool) :
    sinkAnswer h s.input (targetWindowSink s.input hwnd .focused resolved grown) =
      watcherAnswer h s (.notify hwnd .focused resolved grown) := by
  rw [targetWindowSink.eq_def, if_neg (by simp [hs.fields.1])]
  dsimp only
  split
  -- the focus has not moved
  · rw [sinkAnswer, List.drop_length]
    rfl
  · generalize hs' : ({ s.input with
      watch := { s.input.watch with focused := hwnd } } : Input keyMax) = s'
    have hlist : s'.watch.list = s.input.watch.list := by rw [← hs']
    have hflags : s'.flags = s.input.flags := by rw [← hs']; rfl
    have hqueue : s'.queue = s.input.queue := by rw [← hs']
    rw [sinkAnswer, hs.emit_reports ((registerWindow_flags ..).trans hflags)
      ((registerWindow_queue ..).trans hqueue) (by decide : WindowChange.focused ≠ .opened),
      emitWindowEvent_watch, register_unknown hlist]
    simp [watcherAnswer, Step.tells]

theorem Reactive.created_reports (hs : Reactive s) (hwnd : Identity)
    (resolved : Option WindowRef) (grown : Bool) :
    sinkAnswer h s.input (targetWindowSink s.input hwnd .created resolved grown) =
      watcherAnswer h s (.notify hwnd .created resolved grown) := by
  have hcreated : WindowChange.created ≠ .opened := by decide
  rw [targetWindowSink.eq_def, if_neg (by simp [hs.fields.1])]
  cases hfind : findWindow s.input.watch.list hwnd with
  -- no entry: the window is reported, and known from now on if it can be stored
  | none =>
    dsimp only
    rw [sinkAnswer, hs.emit_reports (registerWindow_flags ..) (registerWindow_queue ..) hcreated,
      emitWindowEvent_watch, registerWindow_findWindow]
    by_cases hhwnd : hwnd = h
    · subst hhwnd
      cases grown <;> cases resolved <;>
        simp [watcherAnswer, Step.tells, Step.storable, knownTo, hfind]
    · simp [watcherAnswer, Step.tells, knownTo, hhwnd]
  -- an entry: the window is reported and marked unless it is known
  | some w =>
    dsimp only
    by_cases hhwnd : hwnd = h
    · subst hhwnd
      cases hknown : w.known with
      | true => simp [sinkAnswer, watcherAnswer, Step.tells, knownTo, hfind, hknown]
      | false =>
        simp only [Bool.false_eq_true, if_false]
        rw [sinkAnswer, hs.emit_reports (setList_flags _) (setList_queue _) hcreated,
          emitWindowEvent_watch, setList_list, findWindow_markKnown]
        simp [watcherAnswer, Step.tells, knownTo, hfind, hknown]
    · split
      · simp [sinkAnswer, watcherAnswer, Step.tells, knownTo, hhwnd]
      · rw [sinkAnswer, hs.emit_reports (setList_flags _) (setList_queue _) hcreated,
          emitWindowEvent_watch, setList_list, findWindow_markKnown, if_neg (Ne.symm hhwnd)]
        simp [watcherAnswer, Step.tells, knownTo, hhwnd]

theorem Reactive.destroyed_reports (hs : Reactive s) (hwnd : Identity)
    (resolved : Option WindowRef) (grown : Bool) :
    sinkAnswer h s.input (targetWindowSink s.input hwnd .destroyed resolved grown) =
      watcherAnswer h s (.notify hwnd .destroyed resolved grown) := by
  have hdestroyed : WindowChange.destroyed ≠ .opened := by decide
  rw [targetWindowSink.eq_def, if_neg (by simp [hs.fields.1])]
  cases hfind : findWindow s.input.watch.list hwnd with
  | none =>
    by_cases hhwnd : hwnd = h
    · subst hhwnd
      simp [sinkAnswer, watcherAnswer, Step.tells, knownTo, hfind]
    · simp [sinkAnswer, watcherAnswer, Step.tells, knownTo, hhwnd]
  | some w =>
    dsimp only
    cases hknown : w.known with
    -- a known window is reported and stays known, as its entry stays
    | true =>
      rw [if_pos rfl, sinkAnswer, hs.emit_reports rfl rfl hdestroyed, emitWindowEvent_watch]
      by_cases hhwnd : hwnd = h
      · subst hhwnd
        simp [watcherAnswer, Step.tells, knownTo, hfind, hknown]
      · simp [watcherAnswer, Step.tells, knownTo, hhwnd]
    -- another one loses its entry, and nothing is reported
    | false =>
      simp only [Bool.false_eq_true, if_false]
      rw [sinkAnswer, unregisterWindow_queue, List.drop_length, unregisterWindow_list]
      by_cases hhwnd : hwnd = h
      · subst hhwnd
        rw [findWindow_erase_self hs.watchInv.nodup]
        simp [watcherAnswer, Step.tells, knownTo, hfind, hknown]
      · rw [findWindow_erase_ne (Ne.symm hhwnd)]
        simp [watcherAnswer, Step.tells, knownTo, hhwnd]

theorem Reactive.notify_reports (hs : Reactive s) (hwnd : Identity) (change : WindowChange)
    (resolved : Option WindowRef) (grown : Bool) :
    ((s.step (.notify hwnd change resolved grown)).2.reports h,
        knownTo h (s.step (.notify hwnd change resolved grown)).1) =
      watcherAnswer h s (.notify hwnd change resolved grown) := by
  show sinkAnswer h s.input (targetWindowSink s.input hwnd change resolved grown) = _
  cases change with
  | opened => exact hs.opened_reports hwnd resolved grown
  | created => exact hs.created_reports hwnd resolved grown
  | destroyed => exact hs.destroyed_reports hwnd resolved grown
  | focused => exact hs.focused_reports hwnd resolved grown

/-- What a step reports about `h`, and what the watcher then takes `h` for, depends on
what the step tells about `h` and on what the watcher took it for. -/
theorem Reactive.step_reports (hs : Reactive s) (hh : h ≠ 0) (st : Step) :
    ((s.step st).2.reports h, knownTo h (s.step st).1) = watcherAnswer h s st := by
  -- a step that leaves list and queue reports nothing
  have hidle : ∀ st : Step, st.tells h = none →
      (s.step st).1.input.watch.list = s.input.watch.list →
      (s.step st).1.input.queue = s.input.queue →
      ((s.step st).2.reports h, knownTo h (s.step st).1) = watcherAnswer h s st := by
    intro st htells hlist hqueue
    have hemitted : (s.step st).2.emitted = [] := by
      show (s.step st).1.input.queue.drop s.input.queue.length = []
      rw [hqueue, List.drop_length]
    rw [watcherAnswer, htells, knownTo, hlist, Answer.reports, hemitted]
    rfl
  have hadminister : ∀ st : Step, st.Administers → st.tells h = none →
      ((s.step st).2.reports h, knownTo h (s.step st).1) = watcherAnswer h s st :=
    fun st hst htells => hidle st htells (by rw [hs.administer hst]) (by rw [hs.administer hst])
  cases st with
  | setDefault => exact hadminister _ trivial rfl
  | process => exact hadminister _ trivial rfl
  | processFini => exact hadminister _ trivial rfl
  | ensure => exact hadminister _ trivial rfl
  | tick visits =>
    have hinput : (s.step (.tick visits)).1.input = _ := hs.tick visits
    exact hidle _ rfl (by rw [hinput]) (by rw [hinput])
  | key k down =>
    -- a keyboard event is queued, and reports no window
    have hreports : (s.step (.key k down)).2.reports h = [] := by
      show ((s.input.queue ++ [if down then WMEvent.globalKeyDown k else .globalKeyUp k]).drop
        s.input.queue.length).filterMap (WMEvent.reports h) = []
      rw [List.drop_left]
      cases down <;> rfl
    rw [hreports]
    rfl
  | handle cbs =>
    -- handling pushes nothing, and leaves the entry of `h`, which is not identity `0`
    have hreports : (s.step (.handle cbs)).2.reports h = [] := by
      show ((handleEvent cbs s.input).queue.drop s.input.queue.length).filterMap _ = []
      rw [handleEvent_queue, List.drop_eq_nil_of_le (by simp)]
      rfl
    have hlist : findWindow (s.step (.handle cbs)).1.input.watch.list h =
        findWindow s.input.watch.list h := handleEvent_findWindow hs.watchInv hh cbs
    rw [hreports, knownTo, hlist]
    rfl
  | notify hwnd change resolved grown => exact hs.notify_reports hwnd change resolved grown

end Step

/-! ## Whole runs -/

theorem Step.tells_cases (h : Identity) (st : Step) :
    st.tells h = none ∨ st.tells h = some .created ∨ st.tells h = some .destroyed := by
  cases st with
  | notify hwnd change resolved grown =>
    cases change <;> simp only [Step.tells] <;> by_cases hwnd = h <;> simp [*]
  | _ => exact Or.inl rfl

/-- After the step `st` the watcher takes `h` for what it is not: a destruction of a
present `h`, or a creation of an absent one that has no entry and gets none. -/
def Step.Strands (h : Identity) (s : System keyMax × Bool) (st : Step) : Prop :=
  match st.tells h with
  | some .created => s.2 = false ∧ findWindow s.1.input.watch.list h = none ∧ st.storable = false
  | some .destroyed => s.2 = true
  | _ => False

/-- No step tells of `h` once a step has stranded it. -/
def QuietOnceStranded (h : Identity) (s : System keyMax) (present : Bool) (steps : List Step) :
    Prop :=
  AtEachStep (both System.step (presence h))
    (fun s st rest => st.Strands h s → ∀ st' ∈ rest, st'.tells h = none) (s, present) steps

theorem QuietOnceStranded.of_quiet {s : System keyMax} {present : Bool} {steps : List Step}
    (hQuiet : ∀ st ∈ steps, st.tells h = none) : QuietOnceStranded h s present steps := by
  intro past st rest hsplit _ st' hst'
  exact hQuiet st' (by rw [hsplit]; simp [hst'])

theorem followsPresence_cons {s : System keyMax} {present : Bool} {st : Step} {steps : List Step} :
    FollowsPresence h s present (st :: steps) ↔
      (s.step st).2.reports h = (presence h present st).2 ∧
        FollowsPresence h (s.step st).1 (presence h present st).1 steps := by
  rw [FollowsPresence, outputs_cons, outputs_cons, List.map_cons, List.cons.injEq]
  rfl

/-- A stranded handle is followed as long as nothing is told about it. -/
theorem Reactive.follows_stranded {s : System keyMax} (hs : Reactive s) (hh : h ≠ 0)
    {present : Bool} (hknown : knownTo h s = !present) (steps : List Step) :
    FollowsPresence h s present steps ↔ ∀ st ∈ steps, st.tells h = none := by
  induction steps generalizing s with
  | nil => simp [FollowsPresence]
  | cons st steps ih =>
    have hanswer := hs.step_reports hh st
    rw [followsPresence_cons, List.forall_mem_cons]
    rcases st.tells_cases h with htells | htells | htells
    · simp only [watcherAnswer, htells, Prod.mk.injEq] at hanswer
      -- nothing is told, so both ideas stay
      have hrest := ih (hs.step st) (hanswer.2.trans hknown)
      simp only [presence, htells, hanswer.1, true_and]
      exact hrest
    -- the two ideas of `h` are opposite, so exactly one side has something to report
    · simp only [watcherAnswer, htells, Prod.mk.injEq] at hanswer
      simp only [presence, htells, hanswer.1, hknown]
      cases present <;> simp
    · simp only [watcherAnswer, htells, Prod.mk.injEq] at hanswer
      simp only [presence, htells, hanswer.1, hknown]
      cases present <;> simp

/-- A step that strands `h` is reported right, and the two ideas of `h` part. -/
theorem Reactive.step_strands {s : System keyMax} (hs : Reactive s) (hh : h ≠ 0)
    {present : Bool} (hknown : knownTo h s = present) {st : Step}
    (hstrands : st.Strands h (s, present)) :
    (s.step st).2.reports h = (presence h present st).2 ∧
      knownTo h (s.step st).1 = !(presence h present st).1 := by
  have hanswer := hs.step_reports hh st
  rcases st.tells_cases h with htells | htells | htells
  · simp [Step.Strands, htells] at hstrands
  · simp only [watcherAnswer, htells, Prod.mk.injEq] at hanswer
    simp only [Step.Strands, htells] at hstrands
    obtain ⟨rfl, hfind, hstorable⟩ := hstrands
    simp [presence, htells, hanswer, hknown, hfind, hstorable]
  · simp only [watcherAnswer, htells, Prod.mk.injEq] at hanswer
    simp only [Step.Strands, htells] at hstrands
    subst hstrands
    simp [presence, htells, hanswer, hknown]

/-- Any other step is reported right, and the two ideas of `h` stay the same. -/
theorem Reactive.step_follows {s : System keyMax} (hs : Reactive s) (hh : h ≠ 0)
    {present : Bool} (hknown : knownTo h s = present) {st : Step}
    (hstrands : ¬ st.Strands h (s, present)) :
    (s.step st).2.reports h = (presence h present st).2 ∧
      knownTo h (s.step st).1 = (presence h present st).1 := by
  have hanswer := hs.step_reports hh st
  rcases st.tells_cases h with htells | htells | htells
  · simp only [watcherAnswer, htells, Prod.mk.injEq] at hanswer
    simp [presence, htells, hanswer, hknown]
  · simp only [watcherAnswer, htells, Prod.mk.injEq] at hanswer
    simp only [Step.Strands, htells] at hstrands
    cases present with
    | true => simp [presence, htells, hanswer, hknown]
    | false =>
      -- absent, and not stranded: it had an entry, or gets one
      have hkept : (findWindow s.input.watch.list h).isSome = true ∨ st.storable = true := by
        cases hfind : findWindow s.input.watch.list h with
        | some w => exact Or.inl rfl
        | none => simp_all
      rcases hkept with hkept | hkept <;> simp [presence, htells, hanswer, hknown, hkept]
  · simp only [watcherAnswer, htells, Prod.mk.injEq] at hanswer
    simp only [Step.Strands, htells] at hstrands
    cases present with
    | true => simp at hstrands
    | false => simp [presence, htells, hanswer, hknown]

/-- A handle that the watcher takes for what it is, is followed exactly if nothing is
told about it once a step strands it. -/
theorem Reactive.follows_iff {s : System keyMax} (hs : Reactive s) (hh : h ≠ 0)
    {present : Bool} (hknown : knownTo h s = present) (steps : List Step) :
    FollowsPresence h s present steps ↔ QuietOnceStranded h s present steps := by
  induction steps generalizing s present with
  | nil => simp [FollowsPresence, QuietOnceStranded]
  | cons st steps ih =>
    rw [followsPresence_cons, QuietOnceStranded, atEachStep_cons]
    change _ ↔ _ ∧ QuietOnceStranded h (s.step st).1 (presence h present st).1 steps
    -- if the step strands `h`, both sides ask for silence; else the induction goes on
    by_cases hstrands : st.Strands h (s, present)
    · obtain ⟨hreports, hparted⟩ := hs.step_strands hh hknown hstrands
      rw [(hs.step st).follows_stranded hh hparted]
      constructor
      · exact fun hquiet => ⟨fun _ => hquiet.2, QuietOnceStranded.of_quiet hquiet.2⟩
      · exact fun hquiet => ⟨hreports, hquiet.1 hstrands⟩
    · obtain ⟨hreports, hsame⟩ := hs.step_follows hh hknown hstrands
      rw [ih (hs.step st) hsame]
      simp [hstrands, hreports]

/-- The automaton of `h` asks for no event. -/
def NothingDue (h : Identity) (present : Bool) (steps : List Step) : Prop :=
  ∀ due ∈ outputs (presence h) present steps, due = []

/-- Without the event group a handle is followed exactly if nothing is due. -/
theorem Mute.follows_iff {s : System keyMax} (hs : Mute s) (present : Bool) (steps : List Step) :
    FollowsPresence h s present steps ↔ NothingDue h present steps := by
  induction steps generalizing s present with
  | nil => simp [FollowsPresence, NothingDue]
  | cons st steps ih =>
    -- what the step pushes is no window event
    have hreports : (s.step st).2.reports h = [] := by
      rw [Answer.reports, hs.emitted st]
      cases st with
      | key k down => cases down <;> rfl
      | _ => rfl
    rw [followsPresence_cons, hreports, ih (hs.step st), NothingDue, NothingDue, outputs_cons,
      List.forall_mem_cons, eq_comm]

/-! ## From the seed on -/

/-- The watcher has started in reactive mode. -/
structure StartsReactive (o : EnsureOutcome) (s : System keyMax) : Prop where
  starts : Starts o s
  reactive : s.input.watch.poll = false

/-- With the event group: `h` is followed exactly if the seed stored it in case it showed it, or
nothing is told about it, and nothing is told about it once a step has stranded it. -/
theorem StartsReactive.follows_iff {o : EnsureOutcome} {s : System keyMax}
    (hs : StartsReactive o s) (hpushes : s.input.registered = true) (hh : h ≠ 0)
    (steps : List Step) :
    FollowsPresence h s (decide (h ∈ visited o.visits)) steps ↔
      ((h ∈ visited o.visits → ∃ v ∈ o.visits, v.stores h = true) ∨
          ∀ st ∈ steps, st.tells h = none) ∧
        QuietOnceStranded h s (decide (h ∈ visited o.visits)) steps := by
  obtain ⟨hfind, hwm, hactive⟩ := hs.starts.spec h
  have hreactive : Reactive s :=
    ⟨by simp [Input.flags, hwm, hactive, hs.reactive, hpushes], hs.starts.watchInv⟩
  have hknown : knownTo h s = true ↔ ∃ v ∈ o.visits, v.stores h = true := by
    rw [knownTo, hfind, ← List.find?_isSome]
    cases o.visits.find? (·.stores h) <;> simp
  have hvisited : (∃ v ∈ o.visits, v.stores h = true) → h ∈ visited o.visits := by
    rintro ⟨v, hv, hstores⟩
    simp only [Visit.stores, Bool.and_eq_true, decide_eq_true_eq] at hstores
    exact List.mem_filterMap.mpr ⟨v, hv, hstores.1⟩
  by_cases hlost : h ∈ visited o.visits ∧ ¬ ∃ v ∈ o.visits, v.stores h = true
  -- shown by the seed but not stored: stranded from the start
  · have hstranded : knownTo h s = !decide (h ∈ visited o.visits) := by
      rw [decide_eq_true hlost.1, Bool.not_true, ← Bool.not_eq_true, hknown]
      exact hlost.2
    rw [hreactive.follows_stranded hh hstranded]
    constructor
    · exact fun hquiet => ⟨Or.inr hquiet, QuietOnceStranded.of_quiet hquiet⟩
    · rintro ⟨hstored | hquiet, -⟩
      · exact absurd (hstored hlost.1) hlost.2
      · exact hquiet
  -- otherwise the watcher starts with the automaton's idea of `h`
  · have hstored : h ∈ visited o.visits → ∃ v ∈ o.visits, v.stores h = true := by
      intro hv
      by_contra hnone
      exact hlost ⟨hv, hnone⟩
    have hsame : knownTo h s = decide (h ∈ visited o.visits) := by
      rw [Bool.eq_iff_iff, hknown, decide_eq_true_eq]
      exact ⟨hvisited, hstored⟩
    rw [hreactive.follows_iff hh hsame]
    exact (and_iff_right (Or.inl hstored)).symm

/-- **Presence followed.** After a start in reactive mode the events emitted for `h`
follow its automaton exactly when the event group is registered, the seed stored `h` if it
showed it, or nothing is told about `h` ever after, and nothing is told about `h` once a step
has stranded it; or the group is not registered and nothing is due for `h`. -/
theorem presence_followed_iff {o : EnsureOutcome} {s : System keyMax} (hs : StartsReactive o s)
    (hh : h ≠ 0) (steps : List Step) :
    FollowsPresence h s (decide (h ∈ visited o.visits)) steps ↔
      (s.input.registered = true ∧
        ((h ∈ visited o.visits → ∃ v ∈ o.visits, v.stores h = true) ∨
          ∀ st ∈ steps, st.tells h = none) ∧
        QuietOnceStranded h s (decide (h ∈ visited o.visits)) steps) ∨
      (s.input.registered = false ∧ NothingDue h (decide (h ∈ visited o.visits)) steps) := by
  cases hpushes : s.input.registered with
  | true => simpa using hs.follows_iff hpushes hh steps
  | false =>
    obtain ⟨-, hwm, hactive⟩ := hs.starts.spec h
    have hmute : Mute s := ⟨hwm, hactive, hpushes⟩
    simpa using hmute.follows_iff (decide (h ∈ visited o.visits)) steps

/-! ### A handle that is reused -/

/-- The watcher starts with no window and gets its hooks. -/
def emptyStart : EnsureOutcome := ⟨true, true, [], true, true, true⟩

/-- What the start leaves. -/
def emptyStarted : System 128 :=
  ((System.init 128).step (.setDefault (some .windows) true true emptyStart)).1

theorem emptyStarted_startsReactive : StartsReactive emptyStart emptyStarted :=
  ⟨⟨[], .setDefault (some .windows) true true emptyStart, by simp, rfl, rfl, rfl, rfl⟩, rfl⟩

/-- A window with handle 5 comes and goes, the events are handled, and then the handle
is used for a new window. -/
def reusedHandle : List Step :=
  [.notify 5 .created (some 1) true, .notify 5 .destroyed none true, .handle Callbacks.idle,
    .handle Callbacks.idle, .notify 5 .created (some 2) true]

theorem presence_followed_iff_reused :
    FollowsPresence 5 emptyStarted (decide (5 ∈ visited emptyStart.visits)) reusedHandle ↔
      (emptyStarted.input.registered = true ∧
        ((5 ∈ visited emptyStart.visits → ∃ v ∈ emptyStart.visits, v.stores 5 = true) ∨
          ∀ st ∈ reusedHandle, st.tells 5 = none) ∧
        QuietOnceStranded 5 emptyStarted (decide (5 ∈ visited emptyStart.visits)) reusedHandle) ∨
      (emptyStarted.input.registered = false ∧
        NothingDue 5 (decide (5 ∈ visited emptyStart.visits)) reusedHandle) :=
  presence_followed_iff emptyStarted_startsReactive (by decide) reusedHandle

/-- The new window is not reported, though events can be pushed. -/
theorem presence_not_followed :
    StartsReactive emptyStart emptyStarted ∧ emptyStarted.input.registered = true ∧
      ¬ FollowsPresence 5 emptyStarted (decide (5 ∈ visited emptyStart.visits)) reusedHandle := by
  have hcode : (outputs System.step emptyStarted reusedHandle).map (Answer.reports 5) =
      [[.created], [.destroyed], [], [], []] := by decide +kernel
  have hautomaton : outputs (presence 5) false reusedHandle =
      [[.created], [.destroyed], [], [], [.created]] := by decide +kernel
  refine ⟨emptyStarted_startsReactive, rfl, ?_⟩
  intro hfollows
  have := hcode.symm.trans (hfollows.trans hautomaton)
  simp at this

end Uniwm
