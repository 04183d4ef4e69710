import Uniwm.Windows.Registry

/-!
# uniwm — the start of watching

`wm_window_watch_ensure` starts the watcher once: it takes the windows that one
enumeration shows into the registry without reporting them. `Starts o s` says that `s`
is what such a call leaves, `o` being what the calls inside it gave; the registry of
`s` is then the enumeration (`Starts.findWindow`).

Until then nothing is registered (`unwatched_run`): the sink is handed out only by that
call, so no notification can have arrived.
-/

namespace Uniwm

open Base

variable {keyMax : Nat}

/-! ## Polls keep the flags -/

theorem pollWindows_flags (fire : Bool) (visits : List Visit) (s : Input keyMax) :
    (pollWindows fire visits s).flags = s.flags :=
  flags_framed.poll ..

/-- Without the input there are no polls. -/
theorem pollWindows_unset {s : Input keyMax} (hwm : s.wm = false) (fire : Bool)
    (visits : List Visit) : pollWindows fire visits s = s := by
  simp [pollWindows, hwm]

theorem pollWindows_firing {s : Input keyMax} (hwm : s.wm = true) (visits : List Visit) :
    pollWindows true visits s = sweepDestroyed (visits.foldl (windowVisit true) (s, [])).2
      (visits.foldl (windowVisit true) (s, [])).1 := by
  simp [pollWindows, hwm]

theorem pollWindows_seeding {s : Input keyMax} (hwm : s.wm = true) (visits : List Visit) :
    pollWindows false visits s = (visits.foldl (windowVisit false) (s, [])).1 := by
  simp [pollWindows, hwm]

theorem wmTick_flags (visits : List Visit) (s : Input keyMax) :
    (wmTick visits s).flags = s.flags :=
  flags_framed.tick (fun _ _ => rfl) ..

theorem Input.active_eq (s : Input keyMax) : s.watch.active = s.flags.2.2.1 := rfl

/-- An enumeration that does not fire pushes no event. -/
theorem pollWindows_silent (visits : List Visit) (s : Input keyMax) :
    (pollWindows false visits s).queue = s.queue := by
  have hvisits : ∀ st : Input keyMax × List Identity,
      (visits.foldl (windowVisit false) st).1.queue = st.1.queue := by
    induction visits with
    | nil => exact fun st => rfl
    | cons v visits ih =>
      intro st
      rw [List.foldl_cons, ih]
      simp only [windowVisit, registerWindowRef, Bool.false_eq_true, if_false]
      repeat' split
      all_goals rfl
  unfold pollWindows
  dsimp only
  split
  · rfl
  · exact hvisits (s, [])

/-- The outcomes of the call of `wm_window_watch_ensure` that a step makes. -/
def Step.outcome : Step → Option EnsureOutcome
  | .setDefault _ _ _ o => some o
  | .ensure o => some o
  | _ => none

/-- Only a call of `wm_window_watch_ensure` changes how the watcher learns about windows. -/
theorem step_flags {s : System keyMax} {st : Step} (hst : st.outcome = none) :
    (s.step st).1.input.flags = s.input.flags := by
  cases st with
  | setDefault => cases hst
  | ensure => cases hst
  | process targetInit => rfl
  | processFini =>
    show (wmProcessFini s).input.flags = s.input.flags
    unfold wmProcessFini
    split <;> rfl
  | notify hwnd change resolved grown => exact targetWindowSink_flags ..
  | tick visits => exact wmTick_flags ..
  | handle cbs => exact handleEvent_flags ..
  | key k down => rfl

/-! ## Once watching -/

/-- The step concerns the target and the process, not windows, keys or the queue. -/
def Step.Administers : Step → Prop
  | .setDefault .. => True
  | .process .. => True
  | .processFini => True
  | .ensure .. => True
  | _ => False

/-- Once watching, such a step leaves the watcher alone. -/
theorem administer_input {s : System keyMax} (hwm : s.input.wm = true)
    (hactive : s.input.watch.active = true) {st : Step} (hst : st.Administers) :
    (s.step st).1.input = s.input := by
  cases st with
  | setDefault ti wmInit groupOk o =>
    show (wmSetDefault s ti wmInit groupOk o).2.input = s.input
    rw [wmSetDefault, wmInputEnsure, if_pos hwm, wmWindowWatchEnsure, if_pos hactive]
  | process targetInit => rfl
  | processFini =>
    show (wmProcessFini s).input = s.input
    unfold wmProcessFini
    split <;> rfl
  | ensure o =>
    show (wmWindowWatchEnsure s o).2.input = s.input
    rw [wmWindowWatchEnsure_active hactive]
  | _ => exact absurd hst id

/-- Once watching, no step changes how the watcher learns about windows. -/
theorem watching_flags {s : System keyMax} (hwm : s.input.wm = true)
    (hactive : s.input.watch.active = true) (st : Step) :
    (s.step st).1.input.flags = s.input.flags := by
  cases st with
  | setDefault => exact congrArg Input.flags (administer_input hwm hactive trivial)
  | ensure => exact congrArg Input.flags (administer_input hwm hactive trivial)
  | _ => exact step_flags rfl

/-! ## The frame of the start -/

/-- `g` is also in the frame of `wm_input_ensure`, `wm_window_watch_ensure` and `wm_tick`. -/
structure FramedStart {β : Type} (g : Input keyMax → β) : Prop extends Framed g where
  input : ∀ (s : Input keyMax) wm registered,
    g { s with wm := wm, registered := registered } = g s
  watch : ∀ (s : Input keyMax) active poll,
    g { s with watch := { s.watch with active := active, poll := poll } } = g s
  count : ∀ (s : Input keyMax) n, g { s with windowPollTick := n } = g s

section FrameOfStart

variable {β : Type} {g : Input keyMax → β}

theorem FramedStart.inputEnsure (h : FramedStart g) (s : Input keyMax) (wmInit groupOk : Bool) :
    g (wmInputEnsure s wmInit groupOk).2 = g s := by
  unfold wmInputEnsure
  split
  · rfl
  · split
    · exact h.input s true groupOk
    · rfl

theorem FramedStart.ensure (h : FramedStart g) (s : System keyMax) (o : EnsureOutcome) :
    g (wmWindowWatchEnsure s o).2.input = g s.input := by
  have hensures := ensures s o
  generalize (wmWindowWatchEnsure s o).2.input = s' at hensures ⊢
  cases hensures with
  | watching hactive => rfl
  | failed hfailed => exact h.inputEnsure ..
  | seeded hok reactive =>
    have hpoll : ∀ s : Input keyMax, g (s.pollUnless reactive) = g s := by
      intro s
      cases reactive with
      | true => rfl
      | false => exact h.watch s s.watch.active true
    exact (hpoll _).trans ((h.poll ..).trans
      ((h.watch _ true _).trans (h.inputEnsure s.input o.wmInit o.groupOk)))

/-- Steps other than notifications, handled events and keys. -/
def Step.Quiet : Step → Prop
  | .notify .. => False
  | .handle .. => False
  | .key .. => False
  | _ => True

theorem FramedStart.step (h : FramedStart g) (s : System keyMax) {st : Step} (hst : st.Quiet) :
    g (s.step st).1.input = g s.input := by
  cases st with
  | setDefault ti wmInit groupOk o =>
    exact (h.ensure _ o).trans (h.inputEnsure s.input wmInit groupOk)
  | process targetInit => rfl
  | processFini =>
    show g (wmProcessFini s).input = g s.input
    unfold wmProcessFini
    split <;> rfl
  | ensure o => exact h.ensure s o
  | tick visits => exact h.tick h.count ..
  | _ => exact hst.elim

end FrameOfStart

/-! ## Before the start -/

/-- Watching has not started: nothing is registered, nothing polls, and no destruction
is queued. -/
structure Unwatched (s : System keyMax) : Prop where
  inactive : s.input.watch.active = false
  idle : s.input.watch.poll = false
  empty : s.input.watch.list = []
  quiet : ∀ event ∈ s.input.queue, event.type ≠ .uniwm .windowDestroyed

/-- The step is a notification of the target. -/
def Step.Notifies : Step → Prop
  | .notify .. => True
  | _ => False

theorem handleEvent_empty {s : Input keyMax} (h : s.watch.list = []) (cbs : Callbacks) :
    (handleEvent cbs s).watch.list = [] := by
  rcases handleEvent_list cbs s with hlist | ⟨event, -, -, hlist⟩
  · rw [hlist, h]
  · rw [hlist, h]
    rfl

theorem inputEnsure_watch (s : Input keyMax) (wmInit groupOk : Bool) :
    (wmInputEnsure s wmInit groupOk).2.watch = s.watch := by
  unfold wmInputEnsure
  repeat' split
  all_goals rfl

/-- The seed enumeration and what follows it leave the watcher active. -/
theorem seeded_active (visits : List Visit) (s : Input keyMax) (reactive : Bool) :
    ((pollWindows false visits s.activate).pollUnless reactive).watch.active = true := by
  rw [pollUnless_active, Input.active_eq, pollWindows_flags]
  rfl

/-- A call of `wm_window_watch_ensure` returns OK exactly if it leaves the watcher active. -/
theorem ensure_ok_iff (s : System keyMax) (o : EnsureOutcome) :
    (wmWindowWatchEnsure s o).1 = .ok ↔
      (wmWindowWatchEnsure s o).2.input.watch.active = true := by
  cases hactive : s.input.watch.active with
  | true =>
    rw [wmWindowWatchEnsure_active hactive]
    exact iff_of_true rfl hactive
  | false =>
    by_cases hok : (wmInputEnsure s.input o.wmInit o.groupOk).1 = .ok
    · rw [wmWindowWatchEnsure_fresh hactive hok]
      exact iff_of_true rfl (seeded_active ..)
    · rw [wmWindowWatchEnsure_failed hactive hok]
      exact iff_of_false hok (by rw [inputEnsure_watch, hactive]; decide)

/-- A call of `wm_window_watch_ensure` starts watching or leaves it as it was. -/
theorem ensure_watch (s : System keyMax) (o : EnsureOutcome) :
    (wmWindowWatchEnsure s o).2.input.watch.active = true ∨
      (wmWindowWatchEnsure s o).2.input.watch = s.input.watch := by
  have hensures := ensures s o
  generalize (wmWindowWatchEnsure s o).2.input = s' at hensures ⊢
  cases hensures with
  | watching hactive => exact Or.inr rfl
  -- the input could not be set up, so nothing of the watcher was touched
  | failed hfailed => exact Or.inr (inputEnsure_watch ..)
  | seeded hok reactive => exact Or.inl (seeded_active ..)

theorem inputEnsure_queue (s : Input keyMax) (wmInit groupOk : Bool) :
    (wmInputEnsure s wmInit groupOk).2.queue = s.queue := by
  unfold wmInputEnsure
  repeat' split
  all_goals rfl

/-- A call of `wm_window_watch_ensure` pushes no event. -/
theorem ensure_queue (s : System keyMax) (o : EnsureOutcome) :
    (wmWindowWatchEnsure s o).2.input.queue = s.input.queue := by
  have hinput := inputEnsure_queue s.input o.wmInit o.groupOk
  have hensures := ensures s o
  generalize (wmWindowWatchEnsure s o).2.input = s' at hensures ⊢
  cases hensures with
  | watching hactive => rfl
  | failed hfailed => exact hinput
  | seeded hok reactive =>
    rw [pollUnless_queue, pollWindows_silent]
    exact hinput

/-- Watching does not end. -/
theorem step_inactive {s : System keyMax} {st : Step}
    (h : (s.step st).1.input.watch.active = false) : s.input.watch.active = false := by
  cases st with
  | setDefault ti wmInit groupOk o =>
    rcases ensure_watch { s with
        process := { s.process with defaultTi := ti }
        input := (wmInputEnsure s.input wmInit groupOk).2 } o with hactive | hwatch
    · exact absurd (h.symm.trans hactive) (by decide)
    · rw [← inputEnsure_watch s.input wmInit groupOk, ← hwatch]
      exact h
  | ensure o =>
    rcases ensure_watch s o with hactive | hwatch
    · exact absurd (h.symm.trans hactive) (by decide)
    · rw [← hwatch]
      exact h
  | _ => exact (congrArg (·.2.2.1) (step_flags rfl)).symm.trans h

/-- Every step but a notification keeps it that watching has not started, or starts it. -/
theorem unwatched_step {s : System keyMax} {st : Step} (hst : ¬ st.Notifies)
    (hs : s.input.watch.active = false → Unwatched s) :
    (s.step st).1.input.watch.active = false → Unwatched (s.step st).1 := by
  -- most steps leave the watcher alone and push no destruction
  have hkept : (s.step st).1.input.watch = s.input.watch →
      (∀ event ∈ (s.step st).1.input.queue, event ∈ s.input.queue ∨
        event.type ≠ .uniwm .windowDestroyed) →
      (s.step st).1.input.watch.active = false → Unwatched (s.step st).1 := by
    intro hwatch hqueue hactive
    obtain ⟨h₁, h₂, h₃, h₄⟩ := hs (hwatch ▸ hactive)
    refine ⟨hwatch ▸ h₁, hwatch ▸ h₂, hwatch ▸ h₃, ?_⟩
    intro event he
    exact (hqueue event he).elim (h₄ event) id
  intro hactive
  cases st with
  | setDefault ti wmInit groupOk o =>
    rcases ensure_watch { s with
        process := { s.process with defaultTi := ti }
        input := (wmInputEnsure s.input wmInit groupOk).2 } o with h | h
    · exact absurd (hactive.symm.trans h) (by decide)
    · have hqueue : (s.step (.setDefault ti wmInit groupOk o)).1.input.queue = s.input.queue :=
        (ensure_queue ..).trans (inputEnsure_queue ..)
      exact hkept (h.trans (inputEnsure_watch ..)) (fun event he => Or.inl (hqueue ▸ he)) hactive
  | process targetInit => exact hkept rfl (fun event he => Or.inl he) hactive
  | processFini =>
    have hinput : (s.step .processFini).1.input = s.input := by
      show (wmProcessFini s).input = s.input
      unfold wmProcessFini
      split <;> rfl
    exact hkept (by rw [hinput]) (fun event he => Or.inl (hinput ▸ he)) hactive
  | ensure o =>
    rcases ensure_watch s o with h | h
    · exact absurd (hactive.symm.trans h) (by decide)
    · have hqueue : (s.step (.ensure o)).1.input.queue = s.input.queue := ensure_queue s o
      exact hkept h (fun event he => Or.inl (hqueue ▸ he)) hactive
  | notify hwnd change resolved grown => exact absurd trivial hst
  | tick visits =>
    have hinactive := step_inactive hactive
    -- nothing polls before watching starts
    have hinput : (s.step (.tick visits)).1.input =
        { s.input with windowPollTick := s.input.windowPollTick + 1 } := by
      show wmTick visits s.input = _
      simp [wmTick, (hs hinactive).idle]
    exact hkept (by rw [hinput]) (fun event he => Or.inl (by rwa [hinput] at he)) hactive
  | handle cbs =>
    -- with no entry there is nothing to release
    obtain ⟨h₁, h₂, h₃, h₄⟩ := hs (step_inactive hactive)
    have hpoll : (handleEvent cbs s.input).watch.poll = s.input.watch.poll :=
      congrArg (·.2.2.2) (handleEvent_flags cbs s.input)
    refine ⟨hactive, hpoll.trans h₂, handleEvent_empty h₃ cbs, ?_⟩
    intro event he
    have he' : event ∈ s.input.queue.tail := handleEvent_queue cbs s.input ▸ he
    exact h₄ event (List.mem_of_mem_tail he')
  | key k down =>
    refine hkept rfl (fun event he => ?_) hactive
    have he' : event ∈ s.input.queue ++ [if down then .globalKeyDown k else .globalKeyUp k] := he
    rw [List.mem_append, List.mem_singleton] at he'
    rcases he' with he' | rfl
    · exact Or.inl he'
    · cases down <;> exact Or.inr (by simp [WMEvent.type])

/-- Before watching starts nothing is registered. -/
theorem unwatched_run {before : List Step} (hBefore : ∀ st ∈ before, ¬ st.Notifies)
    (hFresh : (final System.step (System.init keyMax) before).input.watch.active = false) :
    Unwatched (final System.step (System.init keyMax) before) := by
  refine final_induction System.step (fun s => s.input.watch.active = false → Unwatched s)
    (¬ ·.Notifies) (fun s st hst hs => unwatched_step hst hs) (fun _ => ?_) hBefore hFresh
  exact ⟨rfl, rfl, rfl, by simp [System.init, Input.init]⟩

/-! ## The start -/

/-- `s` is what the call of `wm_window_watch_ensure` that starts watching leaves, in a
process to which no notification came before; `o` are the outcomes in that call. -/
def Starts (o : EnsureOutcome) (s : System keyMax) : Prop :=
  ∃ (before : List Step) (seed : Step), (∀ st ∈ before, ¬ st.Notifies) ∧ seed.outcome = some o ∧
    (final System.step (System.init keyMax) before).input.watch.active = false ∧
    ((final System.step (System.init keyMax) before).step seed).2.ensured = some .ok ∧
    s = ((final System.step (System.init keyMax) before).step seed).1

theorem pollWindows_seed_findWindow {s : Input keyMax} (hwm : s.wm = true)
    (hempty : s.watch.list = []) (visits : List Visit) (x : Identity) :
    findWindow (pollWindows false visits s).watch.list x =
      (visits.find? (·.stores x)).map fun v => ⟨x, v.window, true⟩ := by
  rw [pollWindows_seeding hwm, visits_findWindow]
  show (findWindow s.watch.list x).or _ = _
  rw [hempty]
  rfl

/-- An input that is there stays as it is. -/
theorem inputEnsure_set {s : Input keyMax} (hwm : s.wm = true) (wmInit groupOk : Bool) :
    wmInputEnsure s wmInit groupOk = (.ok, s) := by
  rw [wmInputEnsure, if_pos hwm]

theorem inputEnsure_wm {s : Input keyMax} {wmInit groupOk : Bool}
    (hok : (wmInputEnsure s wmInit groupOk).1 = .ok) :
    (wmInputEnsure s wmInit groupOk).2.wm = true := by
  unfold wmInputEnsure at hok ⊢
  split
  · next hwm => exact hwm
  · split
    · rfl
    · next hwm hinit => simp [hwm, hinit] at hok

/-- After the start the registry is the enumeration, each entry known, and the watcher
is active. -/
theorem ensure_starts {s : System keyMax} {o : EnsureOutcome} (hs : Unwatched s)
    (hok : (wmWindowWatchEnsure s o).1 = .ok) (x : Identity) :
    findWindow (wmWindowWatchEnsure s o).2.input.watch.list x =
        (o.visits.find? (·.stores x)).map (fun v => ⟨x, v.window, true⟩) ∧
      (wmWindowWatchEnsure s o).2.input.wm = true ∧
      (wmWindowWatchEnsure s o).2.input.watch.active = true := by
  by_cases hinput : (wmInputEnsure s.input o.wmInit o.groupOk).1 = .ok
  · rw [wmWindowWatchEnsure_fresh hs.inactive hinput]
    have hwm := inputEnsure_wm hinput
    have hempty : (wmInputEnsure s.input o.wmInit o.groupOk).2.activate.watch.list = [] :=
      (congrArg Watch.list (inputEnsure_watch ..)).trans hs.empty
    have hkept := flagsKept (pollWindows_flags false o.visits
      (wmInputEnsure s.input o.wmInit o.groupOk).2.activate)
    refine ⟨?_, ?_, seeded_active ..⟩
    · rw [pollUnless_list]
      exact pollWindows_seed_findWindow
        (s := (wmInputEnsure s.input o.wmInit o.groupOk).2.activate) hwm hempty o.visits x
    · rw [pollUnless_wm]
      exact hkept.wm.trans hwm
  · rw [wmWindowWatchEnsure_failed hs.inactive hinput] at hok
    exact absurd hok hinput

theorem Starts.watchInv {o : EnsureOutcome} {s : System keyMax} (hs : Starts o s) :
    WatchInv (fun _ => True) s.input := by
  obtain ⟨before, seed, -, -, -, -, rfl⟩ := hs
  have hadmits : ∀ st : Step, st.Admits (fun _ => True) := fun st => by
    cases st <;> simp [Step.Admits]
  exact (WatchInv.init.run fun st _ => hadmits st).step (hadmits seed)

theorem Starts.quiet {o : EnsureOutcome} {s : System keyMax} (hs : Starts o s) :
    ∀ event ∈ s.input.queue, event.type ≠ .uniwm .windowDestroyed := by
  obtain ⟨before, seed, hBefore, hseed, hFresh, -, rfl⟩ := hs
  have hunwatched := unwatched_run hBefore hFresh
  generalize final System.step (System.init keyMax) before = s₀ at *
  have hqueue : (s₀.step seed).1.input.queue = s₀.input.queue := by
    cases seed with
    | setDefault ti wmInit groupOk o' => exact (ensure_queue ..).trans (inputEnsure_queue ..)
    | ensure o' => exact ensure_queue s₀ o'
    | _ => cases hseed
  rw [hqueue]
  exact hunwatched.quiet

theorem Starts.spec {o : EnsureOutcome} {s : System keyMax} (hs : Starts o s) (x : Identity) :
    findWindow s.input.watch.list x =
        (o.visits.find? (·.stores x)).map (fun v => ⟨x, v.window, true⟩) ∧
      s.input.wm = true ∧ s.input.watch.active = true := by
  obtain ⟨before, seed, hBefore, hseed, hFresh, hok, rfl⟩ := hs
  have hunwatched := unwatched_run hBefore hFresh
  generalize final System.step (System.init keyMax) before = s₀ at *
  cases seed with
  | setDefault ti wmInit groupOk o' =>
    cases hseed
    have hwatch := inputEnsure_watch s₀.input wmInit groupOk
    -- `wm_set_default` sets the target and the input up before it ensures
    have hready : Unwatched { s₀ with
        process := { s₀.process with defaultTi := ti }
        input := (wmInputEnsure s₀.input wmInit groupOk).2 } :=
      ⟨hwatch ▸ hunwatched.inactive, hwatch ▸ hunwatched.idle, hwatch ▸ hunwatched.empty,
        inputEnsure_queue s₀.input wmInit groupOk ▸ hunwatched.quiet⟩
    exact ensure_starts hready (Option.some.inj hok) x
  | ensure o' =>
    cases hseed
    exact ensure_starts hunwatched (Option.some.inj hok) x
  | _ => cases hseed

end Uniwm
