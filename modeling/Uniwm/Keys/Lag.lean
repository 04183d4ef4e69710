import Uniwm.Base.Relay
import Uniwm.Keys.Trace
import Uniwm.Model.Script
import Uniwm.Windows.Seeding

/-!
# uniwm — the hook and the main loop judge alike

A keyboard event is judged twice: by `suppress_cb` when the hook sees it, and by
`process_keybinds` when the main loop takes the queued event, any time later. Each keeps
its own record of the keys held, so at no moment need the two records be equal.

But each is the trace of the events that this side has had so far (`hooked_tracks`,
`handled_tracks`), and the events handled are the first ones of those hooked
(`handled_prefix`). So on event `i` both records are the trace of the first `i + 1` events:
`judged_alike`, for all runs of the program with any calls of scripts in between. A press
that runs a keybind whose combo was suppressed when the key went down has therefore been
swallowed.
-/

namespace Uniwm

open Base

variable {keyMax : Nat}

/-! ## Both sides of a run -/

/-- The keyboard event in a queued event. -/
def WMEvent.keyEvent : WMEvent → Option KeyEvent
  | .globalKeyDown key => some (key, true)
  | .globalKeyUp key => some (key, false)
  | _ => none

/-- A call of `suppress_cb`: the table, the record of held keys that it judges with, and
what it returns. -/
structure HookCall (keyMax : Nat) where
  event : KeyEvent
  combos : List KeyCombo
  down : Vector Bool keyMax
  swallowed : Bool

/-- A run of `process_keybinds` on a keyboard event: the record of held keys that it judges
with, and the bindings it runs. -/
structure HandledKey (keyMax : Nat) where
  event : KeyEvent
  down : Vector Bool keyMax
  ran : List Keybind

def hookedBy (s : Input keyMax) (e : KeyEvent) : HookCall keyMax :=
  let asked := suppressCb s.suppress e.1 e.2
  ⟨e, s.suppress.combos.toList, asked.1.down, asked.2⟩

def handledBy (cbs : Callbacks) (s : Input keyMax) (event : WMEvent) :
    Option (HandledKey keyMax) :=
  event.keyEvent.map fun e =>
    let fired := processKeybinds cbs s.keybind event
    ⟨e, fired.1.down, fired.2.map (·.entry)⟩

/-- What a step of the program shows of either side. -/
structure Judged (keyMax : Nat) where
  hooked : Option (HookCall keyMax)
  handled : Option (HandledKey keyMax)

/-- The program as a machine that answers with the keyboard event it judged, if any. -/
def ScriptStep.step (s : System keyMax) (c : ScriptStep) : System keyMax × Judged keyMax :=
  (c.run s,
    match c with
    | .system (.key k down) => ⟨some (hookedBy s.input (k, down)), none⟩
    | .system (.handle cbs) => ⟨none, s.input.queue.head?.bind (handledBy cbs s.input)⟩
    | _ => ⟨none, none⟩)

/-- The calls of `suppress_cb` in a run from the start of the process. -/
def hooks (keyMax : Nat) (run : List ScriptStep) : List (HookCall keyMax) :=
  answers ScriptStep.step Judged.hooked (System.init keyMax) run

/-- The keyboard events handled in it. -/
def handles (keyMax : Nat) (run : List ScriptStep) : List (HandledKey keyMax) :=
  answers ScriptStep.step Judged.handled (System.init keyMax) run

/-! ## What a step does to the two records -/

section Step

variable {s : Input keyMax}

/-- The keyboard events that wait in the queue. -/
def Input.pendingKeys (s : Input keyMax) : List KeyEvent := s.queue.filterMap WMEvent.keyEvent

theorem pendingKeys_framed : FramedStart (fun s : Input keyMax => s.pendingKeys) where
  setList := by intros; rfl
  unref := by intros; rfl
  push := by intros; simp [Input.pendingKeys, windowEvent, WMEvent.keyEvent]
  input := by intros; rfl
  watch := by intros; rfl
  count := by intros; rfl

theorem suppressDown_framed : FramedStart (fun s : Input keyMax => s.suppress.down) where
  setList := by intros; rfl
  unref := by intros; rfl
  push := by intros; rfl
  input := by intros; rfl
  watch := by intros; rfl
  count := by intros; rfl

theorem keybindDown_framed : FramedStart (fun s : Input keyMax => s.keybind.down) where
  setList := by intros; rfl
  unref := by intros; rfl
  push := by intros; rfl
  input := by intros; rfl
  watch := by intros; rfl
  count := by intros; rfl

theorem processKeybinds_down (cbs : Callbacks) (kb : Keybinds keyMax) (event : WMEvent) :
    (processKeybinds cbs kb event).1.down =
      match event.keyEvent with
      | none => kb.down
      | some e => setFlag kb.down e.1 e.2 := by
  have hkey : ∀ key down, (processKey cbs kb key down).1.down = setFlag kb.down key down := by
    intro key down
    simp only [processKey]
    split <;> rfl
  cases event with
  | globalKeyDown key => exact hkey key true
  | globalKeyUp key => exact hkey key false
  | uniwm which raw => rfl
  | other => rfl

/-- A binding that is run is triggered by the event in hand. -/
theorem processKeybinds_triggered {cbs : Callbacks} {kb : Keybinds keyMax} {event : WMEvent}
    {e : KeyEvent} (hkey : event.keyEvent = some e) {f : Firing}
    (hf : f ∈ (processKeybinds cbs kb event).2) :
    comboTriggered e.1 f.entry.combo (processKeybinds cbs kb event).1.down = true := by
  have hrun : ∀ {key down} {f : Firing}, f ∈ (processKey cbs kb key down).2 →
      comboTriggered key f.entry.combo (setFlag kb.down key down) = true := by
    intro key down f hf
    simp only [processKey] at hf
    split at hf
    · cases hf
    · have hfires := (fireFrom_firing hf).2.1
      rw [firesFor, Bool.and_eq_true] at hfires
      exact hfires.2
  rw [processKeybinds_down, hkey]
  cases event with
  | globalKeyDown key =>
    obtain rfl : (key, true) = e := Option.some.inj hkey
    exact hrun hf
  | globalKeyUp key =>
    obtain rfl : (key, false) = e := Option.some.inj hkey
    exact hrun hf
  | uniwm which raw => cases hkey
  | other => cases hkey

/-- Only the keys of a combo decide whether it is triggered. -/
theorem comboTriggered_congr {key : MCKey} {c c' : KeyCombo} (h : comboEq c c' = true)
    (down : Vector Bool keyMax) : comboTriggered key c down = comboTriggered key c' down := by
  rw [comboTriggered, comboTriggered, comboEq_iff.mp h]

/-- The keyboard events waiting after a step: those before it and the one hooked, but for
the one handled. -/
theorem step_pendingKeys (s : System keyMax) (c : ScriptStep) :
    s.input.pendingKeys ++ ((c.step s).2.hooked.map (·.event)).toList =
      ((c.step s).2.handled.map (·.event)).toList ++ (c.step s).1.input.pendingKeys := by
  -- most steps neither hook nor handle a key
  have hquiet : ∀ {s' : Input keyMax}, s'.pendingKeys = s.input.pendingKeys →
      s.input.pendingKeys ++ [] = [] ++ s'.pendingKeys := by
    intro s' h
    rw [h, List.append_nil, List.nil_append]
  cases c with
  | system st =>
    cases st with
    | notify hwnd change resolved grown =>
      exact hquiet (pendingKeys_framed.sink (by intros; rfl) ..)
    | handle cbs =>
      show s.input.pendingKeys ++ [] =
        ((s.input.queue.head?.bind (handledBy cbs s.input)).map (·.event)).toList ++
          (handleEvent cbs s.input).pendingKeys
      -- the head of the queue is handled, whatever else is done with it
      rw [Input.pendingKeys, Input.pendingKeys, handleEvent_queue, List.append_nil]
      cases s.input.queue with
      | nil => rfl
      | cons event queue =>
        cases hkey : event.keyEvent <;> simp [handledBy, hkey]
    | key k down =>
      show s.input.pendingKeys ++ [(k, down)] = [] ++ (keyHook s.input k down).pendingKeys
      cases down <;> simp [Input.pendingKeys, keyHook, WMEvent.keyEvent]
    | _ => exact hquiet (pendingKeys_framed.step s trivial)
  | suppressKey combo wmInit groupOk =>
    exact hquiet (pendingKeys_framed.inputEnsure s.input wmInit groupOk)
  | unsuppressKey combo => exact hquiet rfl
  | bindKey combo cb ctx wmInit groupOk =>
    exact hquiet (pendingKeys_framed.inputEnsure s.input wmInit groupOk)
  | unbindKey combo => exact hquiet rfl

/-- The hook's record changes by the event hooked. -/
theorem step_suppressDown (s : System keyMax) (c : ScriptStep) :
    (c.step s).1.input.suppress.down =
      match (c.step s).2.hooked with
      | none => s.input.suppress.down
      | some h => setFlag s.input.suppress.down h.event.1 h.event.2 := by
  cases c with
  | system st =>
    cases st with
    | notify hwnd change resolved grown => exact suppressDown_framed.sink (by intros; rfl) ..
    | handle cbs => exact suppressDown_framed.handle (by intros; rfl) ..
    | key k down => rfl
    | _ => exact suppressDown_framed.step s trivial
  | suppressKey combo wmInit groupOk =>
    -- the list of combos changes, not the record
    have hkept : ∀ (p : Suppress keyMax) keyboard,
        (wmSuppressKey p combo keyboard).2.down = p.down := by
      intro p keyboard
      unfold wmSuppressKey
      split
      · rfl
      · split <;> rfl
    exact (hkept ..).trans (suppressDown_framed.inputEnsure s.input wmInit groupOk)
  | unsuppressKey combo => rfl
  | bindKey combo cb ctx wmInit groupOk =>
    exact suppressDown_framed.inputEnsure s.input wmInit groupOk
  | unbindKey combo => rfl

/-- The record of the main loop changes by the event handled. -/
theorem step_keybindDown (s : System keyMax) (c : ScriptStep) :
    (c.step s).1.input.keybind.down =
      match (c.step s).2.handled with
      | none => s.input.keybind.down
      | some h => setFlag s.input.keybind.down h.event.1 h.event.2 := by
  cases c with
  | system st =>
    cases st with
    | notify hwnd change resolved grown => exact keybindDown_framed.sink (by intros; rfl) ..
    | handle cbs =>
      show (handleEvent cbs s.input).keybind.down =
        match s.input.queue.head?.bind (handledBy cbs s.input) with
        | none => s.input.keybind.down
        | some h => setFlag s.input.keybind.down h.event.1 h.event.2
      cases hq : s.input.queue with
      | nil => simp only [handleEvent, hq, List.head?_nil, Option.bind_none]
      | cons event queue =>
        simp only [handleEvent, hq, wmProcessEvent, List.head?_cons, Option.bind_some]
        -- releasing a window comes after the keybinds and leaves their record
        rw [keybindDown_framed.release]
        show (processKeybinds cbs s.input.keybind event).1.down = _
        rw [processKeybinds_down]
        cases hkey : event.keyEvent <;> simp [handledBy, hkey]
    | key k down => rfl
    | _ => exact keybindDown_framed.step s trivial
  | suppressKey combo wmInit groupOk =>
    exact keybindDown_framed.inputEnsure s.input wmInit groupOk
  | unsuppressKey combo => rfl
  | bindKey combo cb ctx wmInit groupOk =>
    exact keybindDown_framed.inputEnsure s.input wmInit groupOk
  | unbindKey combo => rfl

end Step

/-! ## Whole runs -/

section Runs

variable {run : List ScriptStep}

/-- The events hooked in a run. -/
def hookedEvents (keyMax : Nat) (run : List ScriptStep) : List KeyEvent :=
  (hooks keyMax run).map (·.event)

/-- The events handled in it. -/
def handledEvents (keyMax : Nat) (run : List ScriptStep) : List KeyEvent :=
  (handles keyMax run).map (·.event)

/-- Events are handled in the order in which they were hooked, none left out. -/
theorem handled_prefix (keyMax : Nat) (run : List ScriptStep) :
    handledEvents keyMax run <+: hookedEvents keyMax run := by
  have hrelay := relay_prefix (fun j : Judged keyMax => j.hooked.map (·.event))
    (fun j => j.handled.map (·.event)) (fun s : System keyMax => s.input.pendingKeys)
    step_pendingKeys (s := System.init keyMax) rfl run
  rwa [answers_map, answers_map] at hrelay

/-- The hook's record is the trace of the events hooked. -/
theorem hooked_tracks (keyMax : Nat) (run : List ScriptStep) :
    Tracks (final ScriptStep.step (System.init keyMax) run).input.suppress.down
      (hookedEvents keyMax run) := by
  refine final_answers (s := System.init keyMax)
    (fun (s : System keyMax) (past : List (HookCall keyMax)) =>
      Tracks s.input.suppress.down (past.map (·.event)))
    (fun s past c hs => ?_) (tracks_cleared keyMax) run
  rw [step_suppressDown]
  cases (c.step s).2.hooked with
  | none => simpa using hs
  | some h => simpa using hs.setFlag h.event.1 h.event.2

/-- The record of the main loop is the trace of the events handled. -/
theorem handled_tracks (keyMax : Nat) (run : List ScriptStep) :
    Tracks (final ScriptStep.step (System.init keyMax) run).input.keybind.down
      (handledEvents keyMax run) := by
  refine final_answers (s := System.init keyMax)
    (fun (s : System keyMax) (past : List (HandledKey keyMax)) =>
      Tracks s.input.keybind.down (past.map (·.event)))
    (fun s past c hs => ?_) (tracks_cleared keyMax) run
  rw [step_keybindDown]
  cases (c.step s).2.handled with
  | none => simpa using hs
  | some h => simpa using hs.setFlag h.event.1 h.event.2

/-- The events up to `i` are those before it and its own. -/
theorem take_map_succ {α β : Type*} {l : List α} {i : Nat} {a : α} (f : α → β)
    (hi : l[i]? = some a) : (l.map f).take (i + 1) = (l.take i).map f ++ [f a] := by
  rw [← List.map_take, List.take_add_one, hi, List.map_append]
  rfl

/-- The record that the hook judges event `i` with is the trace of the first `i + 1`. -/
theorem hooked_at {i : Nat} {h : HookCall keyMax} (hi : (hooks keyMax run)[i]? = some h) :
    Tracks h.down ((hookedEvents keyMax run).take (i + 1)) ∧
      h.swallowed = h.combos.any fun c => comboTriggered h.event.1 c h.down := by
  obtain ⟨past, c, rest, rfl, hc, hpast⟩ := answer_at hi
  have htracks := hooked_tracks keyMax past
  rw [hookedEvents, hooks, hpast] at htracks
  rw [hookedEvents, take_map_succ _ hi]
  -- the step before which `i` events were hooked is the one of this key
  generalize final ScriptStep.step (System.init keyMax) past = s at hc htracks
  obtain ⟨k, down, hkey⟩ : ∃ k down, c = .system (.key k down) := by
    unfold ScriptStep.step at hc
    split at hc
    · exact ⟨_, _, rfl⟩
    · cases hc
    · cases hc
  subst hkey
  have hh : hookedBy s.input (k, down) = h := Option.some.inj hc
  subst hh
  exact ⟨htracks.setFlag k down, rfl⟩

/-- The record that the main loop judges event `i` with is the trace of the first `i + 1`,
and every binding run is triggered by it. -/
theorem handled_at {i : Nat} {h : HandledKey keyMax} (hi : (handles keyMax run)[i]? = some h) :
    Tracks h.down ((handledEvents keyMax run).take (i + 1)) ∧
      ∀ e ∈ h.ran, comboTriggered h.event.1 e.combo h.down = true := by
  obtain ⟨past, c, rest, rfl, hc, hpast⟩ := answer_at hi
  have htracks := handled_tracks keyMax past
  rw [handledEvents, handles, hpast] at htracks
  rw [handledEvents, take_map_succ _ hi]
  -- the step before which `i` events were handled handles this one
  generalize final ScriptStep.step (System.init keyMax) past = s at hc htracks
  obtain ⟨cbs, event, e, hkey, rfl⟩ : ∃ cbs event e, event.keyEvent = some e ∧
      (⟨e, (processKeybinds cbs s.input.keybind event).1.down,
        (processKeybinds cbs s.input.keybind event).2.map (·.entry)⟩ : HandledKey keyMax) = h := by
    unfold ScriptStep.step at hc
    split at hc
    · cases hc
    · next cbs =>
      obtain ⟨event, -, hhandled⟩ := Option.bind_eq_some_iff.mp hc
      obtain ⟨e, hkey, heq⟩ := Option.map_eq_some_iff.mp hhandled
      exact ⟨cbs, event, e, hkey, heq⟩
    · cases hc
  constructor
  · rw [processKeybinds_down, hkey]
    exact htracks.setFlag e.1 e.2
  · intro b hb
    obtain ⟨f, hf, rfl⟩ := List.mem_map.mp hb
    exact processKeybinds_triggered hkey hf

/-- **Both sides judge alike.** In every run of the program from its start, whatever the lag
between the hook and the main loop: if event `i` has been handled, the hook has had the
same event as its event `i`, and each combo was triggered for both sides or for neither.
If the event ran a keybind whose combo was suppressed when the hook had it, the hook
swallowed it. -/
theorem judged_alike {i : Nat} {h : HandledKey keyMax} (hi : (handles keyMax run)[i]? = some h) :
    ∃ k : HookCall keyMax, (hooks keyMax run)[i]? = some k ∧ k.event = h.event ∧
      (∀ c, comboTriggered k.event.1 c k.down = comboTriggered h.event.1 c h.down) ∧
      ∀ e ∈ h.ran, (∃ c ∈ k.combos, comboEq c e.combo = true) → k.swallowed = true := by
  have hprefix := handled_prefix keyMax run
  -- the hook has had event `i`, and it was the same
  have hevent : (handledEvents keyMax run)[i]? = some h.event := by
    rw [handledEvents, List.getElem?_map, hi]
    rfl
  obtain ⟨hevent', htake⟩ := prefix_at hprefix hevent
  rw [hookedEvents, List.getElem?_map, Option.map_eq_some_iff] at hevent'
  obtain ⟨k, hk, hsame⟩ := hevent'
  obtain ⟨hktracks, hswallowed⟩ := hooked_at hk
  obtain ⟨htracks, htriggered⟩ := handled_at hi
  -- so both records are the trace of the same events
  rw [htake] at hktracks
  have hjudge : ∀ c, comboTriggered k.event.1 c k.down = comboTriggered h.event.1 c h.down := by
    intro c
    rw [hktracks.unique htracks, hsame]
  refine ⟨k, hk, hsame, hjudge, fun e he ⟨c, hc, hce⟩ => ?_⟩
  rw [hswallowed, List.any_eq_true]
  exact ⟨c, hc, by rw [comboTriggered_congr hce, hjudge]; exact htriggered e he⟩

end Runs

/-! ### A press handled late -/

/-- The combo 1 + 2 is suppressed and bound; 1 and 2 are pressed, and 1 is let go, before
the main loop handles the two presses. -/
def lateRun : List ScriptStep :=
  [.suppressKey comboOneTwo true true, .bindKey comboOneTwo 7 0 true true,
    .system (.key 1 true), .system (.key 2 true), .system (.key 1 false),
    .system (.handle Callbacks.idle), .system (.handle Callbacks.idle)]

/-- What the main loop makes of the second press: 1 is held, and the keybind runs. -/
def latePress : HandledKey 128 :=
  ⟨(2, true), setFlag (setFlag (Vector.replicate 128 false) 1 true) 2 true,
    [⟨comboOneTwo, 7, 0, 0⟩]⟩

theorem judged_alike_late :
    ∃ k : HookCall 128, (hooks 128 lateRun)[1]? = some k ∧ k.event = latePress.event ∧
      (∀ c, comboTriggered k.event.1 c k.down =
        comboTriggered latePress.event.1 c latePress.down) ∧
      ∀ e ∈ latePress.ran, (∃ c ∈ k.combos, comboEq c e.combo = true) → k.swallowed = true :=
  judged_alike (by rfl : (handles 128 lateRun)[1]? = some latePress)

end Uniwm
