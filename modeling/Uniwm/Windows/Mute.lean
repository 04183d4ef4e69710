import Uniwm.Windows.Seeding

/-!
# uniwm — without the event group

`wm_input_ensure` does not look at whether the group of events could be registered, and
`emit_window_event` pushes nothing without it. The watcher then goes on as it would with it,
but no one is told.

* `poll_mute`, `sink_mute` — neither a poll nor a notification pushes an event.
* `Mute.step` — a watcher without the group never gets one.
* `Mute.emitted` — so its steps push events of the keyboard only.
-/

namespace Uniwm

open Base

variable {keyMax : Nat}

/-! ## Single operations -/

section Operations

variable {s : Input keyMax}

/-- Without the event group nothing is pushed. -/
theorem emitWindowEvent_mute (hreg : s.registered = false) (x : Identity)
    (change : WindowChange) : emitWindowEvent s x change = s := by
  have hnone : wmUniwmEventType s (uniwmEventOf change) = .none := by
    simp [wmUniwmEventType, hreg]
  rw [emitWindowEvent, hnone, if_pos (by simp)]

theorem registered_framed : Framed (fun s : Input keyMax => s.registered) :=
  ⟨fun _ _ => rfl, fun _ _ => rfl, fun _ _ _ => rfl⟩

theorem visits_mute (fire : Bool) (visits : List Visit) {st : Input keyMax × List Identity}
    (hreg : st.1.registered = false) :
    (visits.foldl (windowVisit fire) st).1.queue = st.1.queue := by
  induction visits generalizing st with
  | nil => rfl
  | cons v visits ih =>
    have hvisit : (windowVisit fire st v).1.queue = st.1.queue := by
      cases hid : v.identity with
      | none => simp [windowVisit, hid]
      | some x =>
        cases hfind : findWindow st.1.watch.list x with
        | some w => simp [windowVisit, hid, hfind]
        | none =>
          have hreg' := (registered_framed.registerRef st.1 x v.window true v.listGrown).trans hreg
          simp only [windowVisit, hid, hfind, emitWindowEvent_mute hreg', ite_self]
          unfold registerWindowRef
          split <;> rfl
    rw [List.foldl_cons, ih ((registered_framed.visit fire st v).trans hreg), hvisit]

theorem sweepDestroyed_mute (seen : List Identity) (hreg : s.registered = false) :
    sweepDestroyed seen s = s := by
  unfold sweepDestroyed
  generalize s.watch.list = l
  induction l with
  | nil => rfl
  | cons w l ih => rw [List.foldl_cons, emitWindowEvent_mute hreg, ite_self, ih]

theorem poll_mute (hreg : s.registered = false) (fire : Bool) (visits : List Visit) :
    (pollWindows fire visits s).queue = s.queue := by
  cases hwm : s.wm with
  | false => rw [pollWindows_unset hwm]
  | true =>
    have hvisits : (visits.foldl (windowVisit fire) (s, [])).1.queue = s.queue :=
      visits_mute fire visits hreg
    have hreg' := (registered_framed.visits fire visits (s, [])).trans hreg
    cases fire with
    | false => rw [pollWindows_seeding hwm, hvisits]
    | true => rw [pollWindows_firing hwm, sweepDestroyed_mute _ hreg', hvisits]

theorem sink_mute (hreg : s.registered = false) (x : Identity) (change : WindowChange)
    (resolved : Option WindowRef) (grown : Bool) :
    (targetWindowSink s x change resolved grown).queue = s.queue := by
  have hmute : ∀ s' : Input keyMax, s'.registered = s.registered →
      (emitWindowEvent s' x change).queue = s'.queue := by
    intro s' h
    rw [emitWindowEvent_mute (h.trans hreg)]
  rw [targetWindowSink.eq_def]
  split
  · rfl
  cases change with
  | opened => exact registerWindow_queue ..
  | created =>
    dsimp only
    split
    · exact (hmute _ (registered_framed.register ..)).trans (registerWindow_queue ..)
    · split
      · rfl
      · exact hmute (s.setList _) rfl
  | destroyed =>
    dsimp only
    split
    · rfl
    · split
      · exact hmute s rfl
      · exact unregisterWindow_queue ..
  | focused =>
    dsimp only
    split
    · rfl
    -- the focus moves first
    · generalize hs' : ({ s with watch := { s.watch with focused := x } } : Input keyMax) = s'
      have hreg' : s'.registered = s.registered := by rw [← hs']
      have hqueue : s'.queue = s.queue := by rw [← hs']
      rw [hmute _ ((registered_framed.register ..).trans hreg'), registerWindow_queue, hqueue]

end Operations

/-! ## Once watching -/

/-- The watcher runs, and the event group could not be registered. -/
structure Mute (s : System keyMax) : Prop where
  wm : s.input.wm = true
  active : s.input.watch.active = true
  registered : s.input.registered = false

/-- The events of the keyboard that a step pushes. -/
def Step.keyEvents : Step → List WMEvent
  | .key k down => [if down then .globalKeyDown k else .globalKeyUp k]
  | _ => []

section Watching

variable {s : System keyMax}

theorem Mute.step (hs : Mute s) (st : Step) : Mute (s.step st).1 := by
  have hkept := flagsKept (watching_flags hs.wm hs.active st)
  exact ⟨hkept.wm.trans hs.wm, hkept.active.trans hs.active, hkept.registered.trans hs.registered⟩

/-- **Nothing is told.** Whatever a step does to the registry, the events that it pushes are
those of the keyboard. -/
theorem Mute.emitted (hs : Mute s) (st : Step) : (s.step st).2.emitted = st.keyEvents := by
  -- what a step leaves in the queue, behind what was there
  have hsame : (s.step st).1.input.queue = s.input.queue → (s.step st).2.emitted = [] := by
    intro hqueue
    show (s.step st).1.input.queue.drop s.input.queue.length = []
    rw [hqueue, List.drop_length]
  have hadminister : st.Administers → (s.step st).2.emitted = [] := by
    intro hst
    exact hsame (congrArg Input.queue (administer_input hs.wm hs.active hst))
  cases st with
  | setDefault => exact hadminister trivial
  | process => exact hadminister trivial
  | processFini => exact hadminister trivial
  | ensure => exact hadminister trivial
  | notify hwnd change resolved grown =>
    exact hsame (sink_mute hs.registered hwnd change resolved grown)
  | tick visits =>
    refine hsame ?_
    show (wmTick visits s.input).queue = s.input.queue
    unfold wmTick
    dsimp only
    split
    · exact poll_mute hs.registered true visits
    · rfl
  | handle cbs =>
    -- handling takes an event out and pushes none
    show (handleEvent cbs s.input).queue.drop s.input.queue.length = []
    rw [handleEvent_queue, List.drop_eq_nil_of_le (by simp)]
  | key k down =>
    show (s.input.queue ++ [if down then WMEvent.globalKeyDown k else .globalKeyUp k]).drop
      s.input.queue.length = _
    rw [List.drop_left]
    rfl

end Watching

end Uniwm
