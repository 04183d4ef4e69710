import Uniwm.Model.World
import Uniwm.Windows.Seeding

/-!
# uniwm — windows opened while watching starts

`wm_window_watch_ensure` first enumerates the windows and subscribes to changes
afterwards. `World.step` lets other programs create, show and destroy windows between
any two of its steps.

What the watcher can learn of a window is then settled by when the window changed: it is
in the registry exactly if the enumeration saw it, and has a notification pending exactly
if it was created or shown after the window hook was installed (`WorldInv.run`). So
`none_unknown_iff`: no live and shown root window is unknown exactly if each was there at
the enumeration or was created or shown once the hook was in place. `window_lost` opens a
window in between.
-/

namespace Uniwm

open Base

variable {keyMax : Nat}

/-! ## What is known of a window -/

/-- The window is in `watch.list`. -/
def World.Known (w : World keyMax) (v : OSWindow) : Prop :=
  v.hwnd ∈ w.system.input.watch.list.map (·.identity)

/-- A queued notification will tell `target_window_sink` of the window. -/
def World.Pending (w : World keyMax) (v : OSWindow) : Prop :=
  ∃ event, (event, v.hwnd) ∈ w.pending ∧ ∃ change ∈ [WindowChange.opened, .created],
    winEventProc w.system.hooks event v.hwnd true v.root = some (v.hwnd, change)

/-- Every live and shown root window is known or pending. -/
def World.NoneUnknown (w : World keyMax) : Prop :=
  ∀ v ∈ w.windows, v.root = true → v.shown = true → w.Known v ∨ w.Pending v

/-! ## When a window changed -/

/-- The step is the seed enumeration, and it shows, identifies and stores the live window
`hwnd`. -/
def SeedStores (visit : Identity → Visit) (o : EnsureOutcome) (hwnd : Identity)
    (w : World keyMax) (a : Act) : Prop :=
  a = .advance ∧ w.stage = .called ∧
    (wmInputEnsure w.system.input o.wmInit o.groupOk).1 = .ok ∧
    w.Live hwnd ∧ (visit hwnd).identity = some hwnd ∧ (visit hwnd).listGrown = true

/-- An identity that `mc_wm_window_get_identity` gives for a window is its handle. -/
def TellsHandles (visit : Identity → Visit) : Prop := ∀ x y, (visit x).identity = some y → y = x

/-- The step creates or shows `hwnd` while the window hook is installed. -/
def ChangesHooked (hwnd : Identity) (w : World keyMax) (a : Act) : Prop :=
  w.system.hooks.windowEventHook = true ∧
    ((∃ v, a = .createWindow v ∧ v.hwnd = hwnd ∧ ¬ w.Live hwnd) ∨
      (a = .showWindow hwnd ∧ w.Live hwnd))

/-- A call of `wm_window_watch_ensure` that will start watching; nothing is hooked or
queued. -/
structure Calls (w : World keyMax) : Prop where
  stage : w.stage = .called
  unwatched : Unwatched w.system
  unhooked : w.system.hooks.windowEventHook = false
  quiet : w.pending = []

/-! ## The invariant of a call -/

/-- A creation or showing of `x` is queued. -/
def World.Queued (w : World keyMax) (x : Identity) : Prop :=
  ∃ event ∈ [WinEvent.objectCreate, .objectShow], (event, x) ∈ w.pending

/-- The world as the steps `past` of the call and of other programs have left it. -/
structure WorldInv (visit : Identity → Visit) (o : EnsureOutcome) (w₀ w : World keyMax)
    (past : List Act) : Prop where
  reached : w = final (World.step visit o) w₀ past
  called : w.stage = .called → w.system.input.watch.active = false ∧ w.system.input.watch.list = []
  known : ∀ x, x ∈ w.system.input.watch.list.map (·.identity) ↔
    AtSomeStep (World.step visit o) (SeedStores visit o x) w₀ past
  pending : ∀ x, w.Queued x ↔
    AtSomeStep (World.step visit o) (ChangesHooked x) w₀ past
  sink : w.system.hooks.windowEventHook = true → w.system.hooks.windowSink ≠ none
  posted : w.pending ≠ [] → w.system.hooks.windowEventHook = true

section Invariant

variable {visit : Identity → Visit} {o : EnsureOutcome} {w₀ w : World keyMax} {past : List Act}

/-- What the seed enumeration leaves in the registry. -/
theorem seed_identities (hvisit : TellsHandles visit) {s : Input keyMax}
    (hwm : s.wm = true) (hempty : s.watch.list = []) (w : World keyMax) (x : Identity) :
    x ∈ (pollWindows false (w.windows.map (visit ·.hwnd)) s).watch.list.map (·.identity) ↔
      w.Live x ∧ (visit x).identity = some x ∧ (visit x).listGrown = true := by
  rw [← not_iff_not, ← findWindow_eq_none_iff, pollWindows_seed_findWindow hwm hempty,
    Option.map_eq_none_iff, List.find?_eq_none]
  simp only [World.Live, List.mem_map, forall_exists_index, and_imp, forall_apply_eq_imp_iff₂,
    Visit.stores]
  -- the visit that stores `x` is the one of the live window `x`
  constructor
  · rintro hnone ⟨⟨v, hv, rfl⟩, hidentity, hgrown⟩
    exact hnone v hv (by simp [hidentity, hgrown])
  · rintro hnone v hv hstores
    simp only [Bool.and_eq_true, decide_eq_true_eq] at hstores
    obtain ⟨hidentity, hgrown⟩ := hstores
    obtain rfl := hvisit v.hwnd x hidentity
    exact hnone ⟨⟨v, hv, rfl⟩, hidentity, hgrown⟩

theorem post_system (w : World keyMax) (event : WinEvent) (x : Identity) :
    (w.post event x).system = w.system ∧ (w.post event x).stage = w.stage := by
  unfold World.post
  split <;> exact ⟨rfl, rfl⟩

theorem queued_post (w : World keyMax) (event : WinEvent) (x y : Identity) :
    (w.post event y).Queued x ↔ w.Queued x ∨ (w.system.hooks.windowEventHook = true ∧
      event ∈ [WinEvent.objectCreate, .objectShow] ∧ x = y) := by
  unfold World.post World.Queued
  split
  · next hhook =>
    simp only [List.mem_append, List.mem_singleton, Prod.mk.injEq, hhook, true_and]
    constructor
    · rintro ⟨event', hevent', hpending | ⟨rfl, rfl⟩⟩
      · exact Or.inl ⟨event', hevent', hpending⟩
      · exact Or.inr ⟨hevent', rfl⟩
    · rintro (⟨event', hevent', hpending⟩ | ⟨hevent, rfl⟩)
      · exact ⟨event', hevent', Or.inl hpending⟩
      · exact ⟨event, hevent, Or.inr ⟨rfl, rfl⟩⟩
  · next hhook => simp [hhook]

@[simp] theorem not_changesHooked_advance {x : Identity} : ¬ ChangesHooked x w .advance := by
  rintro ⟨-, ⟨v, hv, -⟩ | ⟨hv, -⟩⟩ <;> cases hv

@[simp] theorem changesHooked_createWindow {x : Identity} {v : OSWindow} :
    ChangesHooked x w (.createWindow v) ↔
      w.system.hooks.windowEventHook = true ∧ x = v.hwnd ∧ ¬ w.Live v.hwnd := by
  refine and_congr Iff.rfl ?_
  constructor
  · rintro (⟨v', hv', rfl, hnew⟩ | ⟨hv', -⟩)
    · cases hv'
      exact ⟨rfl, hnew⟩
    · cases hv'
  · rintro ⟨rfl, hnew⟩
    exact Or.inl ⟨v, rfl, rfl, hnew⟩

@[simp] theorem changesHooked_showWindow {x y : Identity} :
    ChangesHooked x w (.showWindow y) ↔
      w.system.hooks.windowEventHook = true ∧ x = y ∧ w.Live y := by
  refine and_congr Iff.rfl ?_
  constructor
  · rintro (⟨v', hv', -⟩ | ⟨hv', hlive⟩)
    · cases hv'
    · cases hv'
      exact ⟨rfl, hlive⟩
  · rintro ⟨rfl, hlive⟩
    exact Or.inr ⟨rfl, hlive⟩

@[simp] theorem not_changesHooked_destroyWindow {x y : Identity} :
    ¬ ChangesHooked x w (.destroyWindow y) := by
  rintro ⟨-, ⟨v, hv, -⟩ | ⟨hv, -⟩⟩ <;> cases hv

/-- Another program's step changes only the windows and what is queued. -/
theorem WorldInv.other (h : WorldInv visit o w₀ w past) {a : Act} {w' : World keyMax}
    (hact : w.act visit o a = w') (hadvance : a ≠ .advance) (hsystem : w'.system = w.system)
    (hstage : w'.stage = w.stage)
    (hpending : ∀ x, w'.Queued x ↔ w.Queued x ∨ ChangesHooked x w a)
    (hposted : w'.pending ≠ [] → w.pending ≠ [] ∨ w.system.hooks.windowEventHook = true) :
    WorldInv visit o w₀ (w.act visit o a) (past ++ [a]) := by
  rw [hact]
  refine ⟨?_, ?_, ?_, ?_, ?_, ?_⟩
  · rw [final_append, ← h.reached, ← hact]
    rfl
  · rw [hsystem, hstage]
    exact h.called
  · intro x
    rw [hsystem, h.known x, atSomeStep_concat]
    exact (or_iff_left fun hseed => hadvance hseed.1).symm
  · intro x
    rw [hpending, h.pending x, atSomeStep_concat, ← h.reached]
  · rw [hsystem]
    exact h.sink
  · rw [hsystem]
    exact fun hne => (hposted hne).elim h.posted id

/-- A step that does nothing. -/
theorem WorldInv.idle (h : WorldInv visit o w₀ w past) {a : Act} (hact : w.act visit o a = w)
    (hadvance : a ≠ .advance) (hunchanged : ∀ x, ¬ ChangesHooked x w a) :
    WorldInv visit o w₀ (w.act visit o a) (past ++ [a]) := by
  refine h.other hact hadvance rfl rfl ?_ Or.inl
  intro x
  exact (or_iff_left (hunchanged x)).symm

/-- A step that changes the window `y`, which is queued if the hook is in place. -/
theorem WorldInv.posts (h : WorldInv visit o w₀ w past) {a : Act} {windows : List OSWindow}
    {event : WinEvent} {y : Identity}
    (hact : w.act visit o a = { w with windows := windows }.post event y)
    (hadvance : a ≠ .advance)
    (hchanges : ∀ x, ChangesHooked x w a ↔ w.system.hooks.windowEventHook = true ∧
      event ∈ [WinEvent.objectCreate, .objectShow] ∧ x = y) :
    WorldInv visit o w₀ (w.act visit o a) (past ++ [a]) := by
  refine h.other hact hadvance (post_system ..).1 (post_system ..).2 (fun x => ?_) ?_
  · rw [queued_post, hchanges]
    rfl
  · intro hne
    by_cases hhook : w.system.hooks.windowEventHook = true
    · exact Or.inr hhook
    · rw [World.post, if_neg hhook] at hne
      exact Or.inl hne

/-! ## The steps of the call -/

/-- After the enumeration the call touches the hooks only: it sets the sink before the
window hook, and takes nothing away. -/
structure OnlyHooks (w w' : World keyMax) : Prop where
  stage : w'.stage ≠ .called
  list : w'.system.input.watch.list = w.system.input.watch.list
  pending : w'.pending = w.pending
  keeps : w.system.hooks.windowEventHook = true → w'.system.hooks.windowEventHook = true
  sink : (w.system.hooks.windowEventHook = true → w.system.hooks.windowSink ≠ none) →
    w'.system.hooks.windowEventHook = true → w'.system.hooks.windowSink ≠ none

theorem onlyHooks_finish (w : World keyMax) (reactive : Bool) {hooks : WinHooks}
    (hkeeps : w.system.hooks.windowEventHook = true → hooks.windowEventHook = true)
    (hsink : (w.system.hooks.windowEventHook = true → w.system.hooks.windowSink ≠ none) →
      hooks.windowEventHook = true → hooks.windowSink ≠ none) :
    OnlyHooks w (w.finish reactive hooks) where
  stage := Stage.noConfusion
  list := pollUnless_list reactive
  pending := rfl
  keeps := hkeeps
  sink := hsink

/-- An installed hook stays, and the sink is set before the hook. -/
theorem winHookWindows_keeps (hooks : WinHooks) (sink : WindowChangeSink) (windowHook : Bool) :
    (hooks.windowEventHook = true →
        (winHookWindows hooks sink windowHook).2.windowEventHook = true) ∧
      (winHookWindows hooks sink windowHook).2.windowSink ≠ none := by
  unfold winHookWindows
  cases hinstalled : hooks.windowEventHook with
  | true => simp
  | false => cases windowHook <;> simp

/-- The second hook leaves the first and the sink alone. -/
theorem winHookForeground_keeps (hooks : WinHooks) (foregroundHook : Bool) :
    (winHookForeground hooks foregroundHook).2.windowEventHook = hooks.windowEventHook ∧
      (winHookForeground hooks foregroundHook).2.windowSink = hooks.windowSink := by
  unfold winHookForeground
  split <;> exact ⟨rfl, rfl⟩

theorem advance_rest (visit : Identity → Visit) (o : EnsureOutcome) (hstage : w.stage ≠ .called) :
    OnlyHooks w (w.advance visit o) := by
  have hfinish : OnlyHooks w (w.finish false w.system.hooks) := onlyHooks_finish w false id id
  cases h : w.stage with
  | called => exact absurd h hstage
  | seeded =>
    rw [advance_seeded visit o h]
    exact ⟨Stage.noConfusion, rfl, rfl, id, id⟩
  | asked wm =>
    simp only [World.advance, h]
    cases wm with
    | none => exact hfinish
    | some ti =>
      obtain ⟨hkeeps, hsink⟩ :=
        winHookWindows_keeps w.system.hooks .targetWindowSink o.windowHook
      dsimp only
      split
      · exact hfinish
      · split
        · exact hfinish
        · split
          · exact onlyHooks_finish w false hkeeps fun _ _ => hsink
          · exact ⟨Stage.noConfusion, rfl, rfl, hkeeps, fun _ _ => hsink⟩
  | hooked =>
    obtain ⟨hhook, hsink⟩ := winHookForeground_keeps w.system.hooks o.foregroundHook
    simp only [World.advance, h]
    refine onlyHooks_finish w _ (fun hinstalled => hhook.trans hinstalled) ?_
    rw [hhook, hsink]
    exact id
  | returned e =>
    rw [advance_returned visit o h]
    exact ⟨hstage, rfl, rfl, id, id⟩

/-- A step of the call queues nothing. -/
theorem WorldInv.pending_advance (h : WorldInv visit o w₀ w past) (x : Identity) :
    w.Queued x ↔
      AtSomeStep (World.step visit o) (ChangesHooked x) w₀ (past ++ [.advance]) := by
  rw [h.pending x, atSomeStep_concat, ← h.reached]
  exact (or_iff_left not_changesHooked_advance).symm

/-- The first step of the call: nothing is registered before it, so no earlier step was an
enumeration. -/
theorem WorldInv.advance_called (h : WorldInv visit o w₀ w past)
    (hvisit : TellsHandles visit) (hstage : w.stage = .called) :
    (w.advance visit o).stage ≠ .called ∧
      (w.advance visit o).system.hooks = w.system.hooks ∧
      (w.advance visit o).pending = w.pending ∧
      ∀ x, x ∈ (w.advance visit o).system.input.watch.list.map (·.identity) ↔
        AtSomeStep (World.step visit o) (SeedStores visit o x) w₀ (past ++ [.advance]) := by
  obtain ⟨hinactive, hempty⟩ := h.called hstage
  have hnone : ∀ x, ¬ AtSomeStep (World.step visit o) (SeedStores visit o x) w₀ past := by
    intro x hseed
    rw [← h.known, hempty] at hseed
    cases hseed
  by_cases hok : (wmInputEnsure w.system.input o.wmInit o.groupOk).1 = .ok
  · rw [Uniwm.advance_called visit o hstage hinactive hok]
    refine ⟨Stage.noConfusion, rfl, rfl, ?_⟩
    intro x
    have hwm : (wmInputEnsure w.system.input o.wmInit o.groupOk).2.activate.wm = true :=
      inputEnsure_wm hok
    have hlist : (wmInputEnsure w.system.input o.wmInit o.groupOk).2.activate.watch.list = [] :=
      (congrArg Watch.list (inputEnsure_watch ..)).trans hempty
    rw [atSomeStep_concat, ← h.reached]
    refine (seed_identities hvisit hwm hlist w x).trans ?_
    simp only [hnone, false_or, SeedStores, hstage, hok, true_and]
  -- the call fails before the enumeration
  · rw [advance_failed visit o hstage hinactive hok]
    refine ⟨Stage.noConfusion, rfl, rfl, ?_⟩
    intro x
    rw [inputEnsure_watch, hempty, atSomeStep_concat, ← h.reached]
    simp [hnone, SeedStores, hok]

theorem WorldInv.advance (h : WorldInv visit o w₀ w past)
    (hvisit : TellsHandles visit) :
    WorldInv visit o w₀ (w.advance visit o) (past ++ [.advance]) := by
  have hreached : w.advance visit o = final (World.step visit o) w₀ (past ++ [.advance]) := by
    rw [final_append, ← h.reached]
    rfl
  by_cases hstage : w.stage = .called
  · obtain ⟨hstage', hhooks, hpending, hknown⟩ := h.advance_called hvisit hstage
    refine ⟨hreached, fun hcalled => absurd hcalled hstage', hknown, ?_, ?_, ?_⟩
    · intro x
      rw [World.Queued, hpending]
      exact h.pending_advance x
    · rw [hhooks]
      exact h.sink
    · rw [hhooks, hpending]
      exact h.posted
  -- after the enumeration the registry and the notifications stay as they are
  · have hrest := advance_rest visit o hstage
    refine ⟨hreached, fun hcalled => absurd hcalled hrest.stage, ?_, ?_, hrest.sink h.sink, ?_⟩
    · intro x
      rw [hrest.list, h.known x, atSomeStep_concat, ← h.reached]
      exact (or_iff_left fun hseed => hstage hseed.2.1).symm
    · intro x
      rw [World.Queued, hrest.pending]
      exact h.pending_advance x
    · rw [hrest.pending]
      exact fun hne => hrest.keeps (h.posted hne)

/-! ## Runs -/

/-- **Step lemma.** -/
theorem WorldInv.step (h : WorldInv visit o w₀ w past)
    (hvisit : TellsHandles visit) (a : Act) :
    WorldInv visit o w₀ (w.act visit o a) (past ++ [a]) := by
  cases a with
  | advance => exact h.advance hvisit
  | createWindow v =>
    by_cases hlive : w.Live v.hwnd
    -- a handle in use is not given to a new window
    · exact h.idle (by simp [World.act, hlive]) Act.noConfusion (by simp [hlive])
    · have hact : w.act visit o (.createWindow v) =
          { w with windows := w.windows ++ [v.hidden] }.post .objectCreate v.hwnd := by
        simp [World.act, hlive]
      exact h.posts hact Act.noConfusion (by simp [hlive])
  | showWindow y =>
    by_cases hlive : w.Live y
    · have hact : w.act visit o (.showWindow y) =
          { w with windows := w.windows.map (OSWindow.showIf y) }.post .objectShow y := by
        simp [World.act, hlive]
      exact h.posts hact Act.noConfusion (by simp [hlive])
    · exact h.idle (by simp [World.act, hlive]) Act.noConfusion (by simp [hlive])
  | destroyWindow y =>
    by_cases hlive : w.Live y
    · have hact : w.act visit o (.destroyWindow y) =
          { w with windows := w.windows.filter (·.hwnd ≠ y) }.post .objectDestroy y := by
        simp [World.act, hlive]
      exact h.posts hact Act.noConfusion (by simp)
    · exact h.idle (by simp [World.act, hlive]) Act.noConfusion (by simp)

/-- **Run lemma.** -/
theorem WorldInv.run (hw₀ : Calls w₀) (hvisit : TellsHandles visit)
    (acts : List Act) : WorldInv visit o w₀ (final (World.step visit o) w₀ acts) acts := by
  refine final_history (World.step visit o) (WorldInv visit o w₀)
    (fun w past a h => h.step hvisit a) ⟨rfl, fun _ => ?_, fun x => ?_, fun x => ?_, ?_, ?_⟩ acts
  · exact ⟨hw₀.unwatched.inactive, hw₀.unwatched.empty⟩
  · simp [hw₀.unwatched.empty]
  · simp [World.Queued, hw₀.quiet]
  · simp [hw₀.unhooked]
  · simp [hw₀.quiet]

end Invariant

/-- A root window is pending if a creation or showing of it is queued. -/
theorem pending_iff {w : World keyMax} {v : OSWindow} (hroot : v.root = true)
    (hsink : w.Queued v.hwnd → w.system.hooks.windowSink ≠ none) :
    w.Pending v ↔ w.Queued v.hwnd := by
  constructor
  · rintro ⟨event, hpending, change, hchange, hproc⟩
    refine ⟨event, ?_, hpending⟩
    -- the other two events tell the sink something else
    unfold winEventProc at hproc
    cases event <;> simp_all
    · rcases hchange with rfl | rfl <;> simp at hproc
    · rcases hchange with rfl | rfl <;> simp at hproc
  · intro hqueued
    obtain ⟨event, hevent, hpending⟩ := hqueued
    have hsink' := hsink ⟨event, hevent, hpending⟩
    simp only [List.mem_cons, List.not_mem_nil, or_false] at hevent
    rcases hevent with rfl | rfl
    · exact ⟨.objectCreate, hpending, .opened, by simp,
        by simp [winEventProc, hsink', v.hwnd_ne_zero, hroot]⟩
    · exact ⟨.objectShow, hpending, .created, by simp,
        by simp [winEventProc, hsink', v.hwnd_ne_zero, hroot]⟩

/-- **No window unknown.** Whatever other programs do between the steps of the call, every
live and shown root window is in the registry or has a notification pending exactly if each
of them was stored by the seed enumeration, or was created or shown once the window hook was
installed. -/
theorem none_unknown_iff {visit : Identity → Visit} (o : EnsureOutcome) {w₀ : World keyMax}
    (hw₀ : Calls w₀) (hvisit : TellsHandles visit) (acts : List Act) :
    (final (World.step visit o) w₀ acts).NoneUnknown ↔
      ∀ v ∈ (final (World.step visit o) w₀ acts).windows, v.root = true → v.shown = true →
        AtSomeStep (World.step visit o) (SeedStores visit o v.hwnd) w₀ acts ∨
          AtSomeStep (World.step visit o) (ChangesHooked v.hwnd) w₀ acts := by
  have hinv := WorldInv.run (o := o) hw₀ hvisit acts
  refine forall₂_congr fun v _ => forall_congr' fun hroot => forall_congr' fun _ => ?_
  rw [← hinv.known, ← hinv.pending]
  refine or_congr Iff.rfl (pending_iff hroot fun hqueued => hinv.sink (hinv.posted ?_))
  obtain ⟨event, -, hpending⟩ := hqueued
  exact List.ne_nil_of_mem hpending

/-! ### A window opened between enumeration and hook -/

/-- Start-up with no window, before `wm_window_watch_ensure` is called by
`wm_set_default`. -/
def startUp : World 128 where
  system := { System.init 128 with process := ⟨some .windows, none⟩ }
  windows := []
  pending := []
  stage := .called

theorem startUp_calls : Calls startUp :=
  ⟨rfl, ⟨rfl, rfl, rfl, by simp [startUp, System.init, Input.init]⟩, rfl, rfl⟩

/-- Both hooks are granted. -/
def allGranted : EnsureOutcome := ⟨true, true, [], true, true, true⟩

/-- After the enumeration another program opens the window 5; then the call goes on. -/
def opensInBetween : List Act :=
  [.advance, .createWindow ⟨5, by decide, true, false⟩, .showWindow 5, .advance, .advance,
    .advance]

theorem none_unknown_iff_between :
    (final (World.step (fun x => Visit.clean 1 x) allGranted) startUp
        opensInBetween).NoneUnknown ↔
      ∀ v ∈ (final (World.step (fun x => Visit.clean 1 x) allGranted) startUp
          opensInBetween).windows, v.root = true → v.shown = true →
        AtSomeStep (World.step (fun x => Visit.clean 1 x) allGranted)
            (SeedStores (fun x => Visit.clean 1 x) allGranted v.hwnd) startUp opensInBetween ∨
          AtSomeStep (World.step (fun x => Visit.clean 1 x) allGranted) (ChangesHooked v.hwnd)
            startUp opensInBetween :=
  none_unknown_iff allGranted startUp_calls (fun _ _ h => (Option.some.inj h).symm) opensInBetween

/-- The call returns in reactive mode, and the live and shown window 5 is neither in the
registry nor told by a notification. -/
theorem window_lost :
    Calls startUp ∧
      (final (World.step (fun x => Visit.clean 1 x) allGranted) startUp opensInBetween).stage =
        .returned .ok ∧
      (final (World.step (fun x => Visit.clean 1 x) allGranted) startUp
        opensInBetween).system.input.watch.poll = false ∧
      ¬ (final (World.step (fun x => Visit.clean 1 x) allGranted) startUp
        opensInBetween).NoneUnknown := by
  refine ⟨startUp_calls, rfl, rfl, ?_⟩
  intro hknown
  have hlive : (⟨5, by decide, true, true⟩ : OSWindow) ∈
      (final (World.step (fun x => Visit.clean 1 x) allGranted) startUp opensInBetween).windows :=
    List.mem_singleton.mpr rfl
  rcases hknown _ hlive rfl rfl with hin | ⟨event, hpending, -⟩
  · cases hin
  · cases hpending

end Uniwm
