import Uniwm.Base.Account
import Uniwm.Windows.Registry

/-!
# uniwm — who gives back a window reference

The mc library hands out an `MC_WindowRef` for every window that an enumeration visits and
for every window that `register_window` resolves. Either an entry of `watch.list` keeps it,
or it is given back: at once if there is no identity, no need or no memory for an entry,
and otherwise when the entry goes.

`References handed s` says that this is the account of `s`, `handed` being what has been
handed out. Each operation keeps it (`References.register`, `References.visit`,
`References.unregister`), so every run does (`references_run`): `references_kept` is the
account after any run, together with the uniqueness of identities.
-/

namespace Uniwm

open Base

variable {keyMax : Nat}

/-! ## What is handed out -/

/-- The reference that `register_window` asks `wm_resolve_window` for, if it does. -/
def registerHands (s : Input keyMax) (identity : Identity) (resolved : Option WindowRef) :
    List WindowRef :=
  match findWindow s.watch.list identity with
  | some _ => []
  | none => resolved.toList

/-- The references handed to `target_window_sink`. -/
def sinkHands (s : Input keyMax) (handle : Identity) (change : WindowChange)
    (resolved : Option WindowRef) : List WindowRef :=
  if !s.wm then []
  else
    match change with
    | .opened => registerHands s handle resolved
    | .created => registerHands s handle resolved
    | .destroyed => []
    | .focused => if handle = s.watch.focused then [] else registerHands s handle resolved

/-- The references handed to the visits of `poll_windows`. -/
def pollHands (s : Input keyMax) (visits : List Visit) : List WindowRef :=
  if !s.wm then [] else visits.map (·.window)

/-- The references handed to the seed of `wm_window_watch_ensure`. -/
def ensureHands (s : Input keyMax) (o : EnsureOutcome) : List WindowRef :=
  if s.watch.active then []
  else if (wmInputEnsure s o.wmInit o.groupOk).1 ≠ .ok then []
  else pollHands (wmInputEnsure s o.wmInit o.groupOk).2 o.visits

/-- The references handed to a step. -/
def Step.hands (s : Input keyMax) : Step → List WindowRef
  | setDefault _ wmInit groupOk o => ensureHands (wmInputEnsure s wmInit groupOk).2 o
  | ensure o => ensureHands s o
  | notify hwnd change resolved _ => sinkHands s hwnd change resolved
  | tick visits =>
    if s.watch.poll && s.windowPollTick % windowPollTicks = 0 then pollHands s visits else []
  | process _ | processFini | handle _ | key _ _ => []

/-- The references held by the entries. -/
def Input.windowRefs (s : Input keyMax) : List WindowRef := s.watch.list.map (·.window)

/-- Each reference handed out has been released, or an entry holds it. -/
def References (handed : List WindowRef) (s : Input keyMax) : Prop :=
  (Account.mk handed s.released).Balanced s.windowRefs

@[simp] theorem pollUnless_released (s : Input keyMax) (reactive : Bool) :
    (s.pollUnless reactive).released = s.released := by
  cases reactive <;> rfl

/-! ## Operations -/

section Operations

variable {handed : List WindowRef} {s s' : Input keyMax}

theorem References.congr (h : References handed s) (hlist : s'.windowRefs = s.windowRefs)
    (hreleased : s'.released = s.released) : References handed s' := by
  unfold References
  rw [hlist, hreleased]
  exact h

/-- A reference handed over together with its identity is kept or released. -/
theorem References.register (h : References handed s) (x : Identity) (r : WindowRef)
    (known grown : Bool) :
    References (handed ++ [r]) (registerWindowRef s x r known grown) := by
  cases grown with
  | true =>
    have hrefs : (registerWindowRef s x r known true).windowRefs = s.windowRefs ++ [r] := by
      simp [registerWindowRef, Input.windowRefs]
    unfold References
    rw [hrefs]
    exact Account.Balanced.take h r
  -- the list could not grow
  | false => exact Account.Balanced.pass h r

/-- A reference that is not kept is released. -/
theorem References.unref (h : References handed s) (r : WindowRef) :
    References (handed ++ [r]) (s.unref r) :=
  Account.Balanced.pass h r

theorem References.resolve (h : References handed s) (x : Identity) (known : Bool)
    (resolved : Option WindowRef) (grown : Bool) :
    References (handed ++ registerHands s x resolved)
      (registerWindow s x known resolved grown) := by
  unfold registerHands registerWindow
  cases findWindow s.watch.list x with
  | some w => simpa using h
  | none =>
    cases resolved with
    -- the target knows no such window, and hands out nothing
    | none => simpa using h
    | some r => exact h.register x r known grown

/-- The entry that goes gives back the reference that it held. -/
theorem References.unregister (h : References handed s) (x : Identity) :
    References handed (unregisterWindow s x) := by
  unfold unregisterWindow
  cases hfind : findWindow s.watch.list x with
  | none => exact h
  | some w =>
    obtain ⟨front, back, hlist, herase⟩ := findWindow_split hfind
    have hheld : ((front ++ back).map (·.window) ++ [w.window]).Perm s.windowRefs := by
      rw [Input.windowRefs, hlist]
      simp only [List.map_append, List.map_cons, List.append_assoc]
      exact (List.perm_append_singleton ..).append_left _
    unfold References Input.windowRefs
    rw [setList_list, herase]
    exact (Account.Balanced.congr h hheld).giveBack

theorem References.emit (h : References handed s) (x : Identity) (change : WindowChange) :
    References handed (emitWindowEvent s x change) := by
  unfold emitWindowEvent
  split
  · exact h
  · exact h

theorem References.visit (fire : Bool) {st : Input keyMax × List Identity}
    (h : References handed st.1) (v : Visit) :
    References (handed ++ [v.window]) (windowVisit fire st v).1 := by
  cases hid : v.identity with
  | none =>
    simp only [windowVisit, hid]
    exact h.unref v.window
  | some x =>
    cases hfind : findWindow st.1.watch.list x with
    -- it is registered already, with a reference of its own
    | some w =>
      simp only [windowVisit, hid, hfind]
      exact h.unref v.window
    | none =>
      have hreg := h.register x v.window true v.listGrown
      simp only [windowVisit, hid, hfind]
      split
      · exact hreg.emit x .created
      · exact hreg

theorem References.visits (fire : Bool) (visits : List Visit) :
    ∀ {handed : List WindowRef} {st : Input keyMax × List Identity}, References handed st.1 →
      References (handed ++ visits.map (·.window)) (visits.foldl (windowVisit fire) st).1 := by
  induction visits with
  | nil =>
    intro handed st h
    simpa using h
  | cons v visits ih =>
    intro handed st h
    have hrest := ih (h.visit fire v)
    rwa [List.append_assoc] at hrest

theorem References.sweep (seen : List Identity) (h : References handed s) :
    References handed (sweepDestroyed seen s) := by
  unfold sweepDestroyed
  -- the sweep reads the list and pushes events only
  generalize s.watch.list = l
  induction l generalizing s with
  | nil => exact h
  | cons w l ih =>
    rw [List.foldl_cons]
    split
    · exact ih h
    · exact ih (h.emit w.identity .destroyed)

theorem References.poll (fire : Bool) (visits : List Visit) (h : References handed s) :
    References (handed ++ pollHands s visits) (pollWindows fire visits s) := by
  unfold pollHands pollWindows
  split
  · simpa using h
  · have hvisits : References (handed ++ visits.map (·.window))
        (visits.foldl (windowVisit fire) (s, [])).1 := References.visits fire visits h
    split
    · exact hvisits.sweep _
    · exact hvisits

theorem References.sink (h : References handed s) (x : Identity) (change : WindowChange)
    (resolved : Option WindowRef) (grown : Bool) :
    References (handed ++ sinkHands s x change resolved)
      (targetWindowSink s x change resolved grown) := by
  unfold sinkHands targetWindowSink
  split
  · simpa using h
  · cases change with
    | opened => exact h.resolve ..
    | created =>
      cases hfind : findWindow s.watch.list x with
      | none => exact (h.resolve ..).emit ..
      | some w =>
        -- the window is there, so nothing is resolved
        have hhands : registerHands s x resolved = [] := by simp only [registerHands, hfind]
        simp only [hhands, List.append_nil]
        split
        · exact h
        · have hmark : References handed (s.setList (markKnown x s.watch.list)) :=
            h.congr (map_markKnown (·.window) (fun _ => rfl) ..) rfl
          exact hmark.emit ..
    | destroyed =>
      simp only [List.append_nil]
      split
      · exact h
      · split
        · exact h.emit ..
        · exact h.unregister x
    | focused =>
      dsimp only
      split
      · simpa using h
      · have hfocus : References handed { s with watch := { s.watch with focused := x } } :=
          h.congr rfl rfl
        exact (hfocus.resolve ..).emit ..

theorem References.release (h : References handed s) (event : WMEvent) :
    References handed (releaseDestroyedWindow s event) := by
  rcases releaseDestroyedWindow_cases s event with heq | ⟨-, heq⟩
  · rwa [heq]
  · rw [heq]
    exact h.unregister _

theorem References.handle (h : References handed s) (cbs : Callbacks) :
    References handed (handleEvent cbs s) := by
  rcases handleEvent_cases cbs s with ⟨heq, -⟩ | ⟨event, queue, kb, -, heq⟩
  · rwa [heq]
  · have hpopped : References handed { s with keybind := kb, queue := queue } := h.congr rfl rfl
    rw [heq]
    exact hpopped.release event

theorem References.inputEnsure (h : References handed s) (wmInit groupOk : Bool) :
    References handed (wmInputEnsure s wmInit groupOk).2 := by
  unfold wmInputEnsure
  split
  · exact h
  · split
    · exact h.congr rfl rfl
    · exact h

theorem References.ensure {s : System keyMax} (h : References handed s.input)
    (o : EnsureOutcome) :
    References (handed ++ ensureHands s.input o) (wmWindowWatchEnsure s o).2.input := by
  have hinput := h.inputEnsure o.wmInit o.groupOk
  unfold ensureHands
  cases hactive : s.input.watch.active with
  | true =>
    rw [wmWindowWatchEnsure_active hactive]
    simpa using h
  | false =>
    simp only [Bool.false_eq_true, if_false]
    by_cases hok : (wmInputEnsure s.input o.wmInit o.groupOk).1 = .ok
    · rw [wmWindowWatchEnsure_fresh hactive hok, if_neg (not_not.mpr hok)]
      have hactivated : References handed
          (wmInputEnsure s.input o.wmInit o.groupOk).2.activate := hinput.congr rfl rfl
      refine References.congr (s := pollWindows false o.visits
        (wmInputEnsure s.input o.wmInit o.groupOk).2.activate) ?_ ?_ ?_
      · exact hactivated.poll false o.visits
      · rw [Input.windowRefs, pollUnless_list]
        rfl
      · exact pollUnless_released _ _
    -- no enumeration, so no references
    · rw [wmWindowWatchEnsure_failed hactive hok, if_pos hok]
      simpa using hinput

/-- **Step lemma.** -/
theorem References.step {s : System keyMax} (h : References handed s.input) (st : Step) :
    References (handed ++ st.hands s.input) (s.step st).1.input := by
  -- the steps that hand out nothing
  have hnone : ∀ {s' : Input keyMax}, References handed s' → References (handed ++ []) s' :=
    fun h => by simpa using h
  cases st with
  | setDefault ti wmInit groupOk o =>
    exact References.ensure (s := { s with
      process := { s.process with defaultTi := ti }
      input := (wmInputEnsure s.input wmInit groupOk).2 }) (h.inputEnsure wmInit groupOk) o
  | ensure o => exact h.ensure o
  | notify hwnd change resolved grown => exact h.sink hwnd change resolved grown
  | tick visits =>
    show References (handed ++ if s.input.watch.poll && _ then _ else _) (wmTick visits s.input)
    unfold wmTick
    split
    · exact (h.poll true visits).congr rfl rfl
    · exact hnone (h.congr rfl rfl)
  | handle cbs => exact hnone (h.handle cbs)
  | key k down => exact hnone (h.congr rfl rfl)
  | process targetInit => exact hnone h
  | processFini =>
    refine hnone ?_
    show References handed (wmProcessFini s).input
    unfold wmProcessFini
    split <;> exact h

end Operations

/-! ## Runs -/

/-- One entry into the watcher: a step of the system, or a poll at any time. -/
inductive WatchStep where
  | system (st : Step)
  | poll (fire : Bool) (visits : List Visit)

/-- The watcher as a machine that answers with the references it was handed. -/
def WatchStep.step (s : System keyMax) : WatchStep → System keyMax × List WindowRef
  | system st => ((s.step st).1, st.hands s.input)
  | poll fire visits =>
    ({ s with input := pollWindows fire visits s.input }, pollHands s.input visits)

/-- The references handed out in a run. -/
def handedOut (s : System keyMax) (run : List WatchStep) : List WindowRef :=
  (outputs WatchStep.step s run).flatten

/-- **Run lemma.** -/
theorem references_run {s : System keyMax} {handed : List WindowRef}
    (h : References handed s.input) (run : List WatchStep) :
    References (handed ++ handedOut s run) (final WatchStep.step s run).input := by
  induction run generalizing s handed with
  | nil => simpa [handedOut] using h
  | cons w run ih =>
    have hstep : References (handed ++ (w.step s).2) (w.step s).1.input := by
      cases w with
      | system st => exact h.step st
      | poll fire visits => exact h.poll fire visits
    have hrest := ih hstep
    rwa [List.append_assoc] at hrest

theorem watchInv_run (run : List WatchStep) :
    WatchInv (fun _ => True) (final WatchStep.step (System.init keyMax) run).input := by
  refine final_induction WatchStep.step (fun s => WatchInv (fun _ => True) s.input)
    (fun _ => True) (fun s w _ hs => ?_) WatchInv.init (fun _ _ => trivial)
  cases w with
  | system st => exact hs.step (by cases st <;> simp [Step.Admits])
  | poll fire visits => exact hs.poll fire (fun _ _ => trivial)

/-- **References.** After any run of the watcher, with whatever failures: no two entries have
the same identity, and every reference has been handed out as often as the entries hold it
and it has been released together. So of a reference handed out once, either one entry
holds it and it has not been released, or none holds it and it has been released once. -/
theorem references_kept (run : List WatchStep) :
    let s := (final WatchStep.step (System.init keyMax) run).input
    let handed := handedOut (System.init keyMax) run
    (s.watch.list.map (·.identity)).Nodup ∧
      (∀ r, (s.watch.list.map (·.window)).count r + s.released.count r = handed.count r) ∧
      ∀ r, handed.count r = 1 →
        ((s.watch.list.map (·.window)).count r = 1 ∧ r ∉ s.released) ∨
          (r ∉ s.watch.list.map (·.window) ∧ s.released.count r = 1) := by
  have hstart : References [] (System.init keyMax).input := Account.balanced_empty
  have hrefs := references_run hstart run
  rw [List.nil_append] at hrefs
  exact ⟨(watchInv_run run).nodup, hrefs.count_eq, fun r hr => Account.Balanced.once hrefs hr⟩

end Uniwm
