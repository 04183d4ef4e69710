import Uniwm.Base.Keyed
import Uniwm.Windows.Entries

/-!
# uniwm — what `known` records

The flag of an entry over whole runs of the watcher, in reactive, polling or mixed operation.
`known_recorded`: an entry is known exactly if a silent poll added it or a `WINDOW_CREATED` has
been emitted since it was added. An entry that is there has been there since some step
(`exists_heldSince`); the induction is on the steps since then, each an `EntryStep`
(`recorded_since`).

The event group must have got registered: without it nothing is emitted, and `known` is set all
the same (`unreported_known`).
-/

namespace Uniwm

open Base

variable {keyMax : Nat} {x : Identity}

-- ----------------------------------------------------------------------------
-- The property
-- ----------------------------------------------------------------------------

/-- `x` has an entry. -/
def HasEntry (x : Identity) (s : System keyMax) : Prop :=
  (findWindow s.input.watch.list x).isSome

/-- The state after a run of the watcher. -/
abbrev watched (keyMax : Nat) (run : List WatchStep) : System keyMax :=
  final WatchStep.step (System.init keyMax) run

/-- A `WINDOW_CREATED` for `x` is emitted in one of the steps after `before`. -/
def CreatedAmong (keyMax : Nat) (x : Identity) (before steps : List WatchStep) : Prop :=
  AtSomeStep WatchStep.step
    (fun s st => ReportsCreated x (pushedOn s.input (st.step s).1.input))
    (watched keyMax before) steps

/-- What the flag of an entry records, `st` being the step that added it: it is set exactly if
that was a silent poll, or the window has been reported since; and it is clear only if that
was a notification of opening or focus, and the window has not been reported since. -/
def Recorded (keyMax : Nat) (run : List WatchStep) (w : RegisteredWindow) : Prop :=
  ∃ before st since, run = before ++ st :: since ∧
    HeldSince WatchStep.step (HasEntry w.identity) (System.init keyMax) before st since ∧
    (w.known = true ↔ st.Seeds ∨ CreatedAmong keyMax w.identity before (st :: since)) ∧
    (w.known = false →
      st.Mentions w.identity ∧ ¬ CreatedAmong keyMax w.identity before (st :: since))

-- ----------------------------------------------------------------------------
-- The event group
-- ----------------------------------------------------------------------------

section Steps

variable {s : System keyMax}

/-- Only a call of `wm_window_watch_ensure` can register the event group. -/
theorem registered_of_not_seeds {st : WatchStep} (hst : ¬ st.Seeds) :
    (st.step s).1.input.registered = s.input.registered := by
  have hflags : (st.step s).1.input.flags = s.input.flags := by
    rcases st with st | ⟨fire, visits⟩
    · refine step_flags ?_
      cases st with
      | setDefault => exact absurd trivial hst
      | ensure => exact absurd trivial hst
      | _ => rfl
    · exact pollWindows_flags fire visits s.input
  exact (flagsKept hflags).registered

/-- A window manager that is there stays, and so does its event group. -/
theorem ensure_group {s : System keyMax} (hwm : s.input.wm = true) (o : EnsureOutcome) :
    (wmWindowWatchEnsure s o).2.input.wm = true ∧
      (wmWindowWatchEnsure s o).2.input.registered = s.input.registered := by
  have hinput := inputEnsure_set hwm o.wmInit o.groupOk
  have hensures := ensures s o
  generalize (wmWindowWatchEnsure s o).2.input = s' at hensures ⊢
  cases hensures with
  | watching hactive => exact ⟨hwm, rfl⟩
  | failed hfailed =>
    rw [hinput]
    exact ⟨hwm, rfl⟩
  | seeded hok reactive =>
    have hkept := flagsKept (pollWindows_flags false o.visits s.input.activate)
    rw [hinput, pollUnless_wm, pollUnless_registered]
    exact ⟨hkept.wm.trans hwm, hkept.registered⟩

theorem group_kept (hwm : s.input.wm = true) (st : WatchStep) :
    (st.step s).1.input.wm = true ∧ (st.step s).1.input.registered = s.input.registered := by
  have hkept : (st.step s).1.input.flags = s.input.flags →
      (st.step s).1.input.wm = true ∧
        (st.step s).1.input.registered = s.input.registered := by
    intro hflags
    exact ⟨(flagsKept hflags).wm.trans hwm, (flagsKept hflags).registered⟩
  rcases st with st | ⟨fire, visits⟩
  · cases st with
    | setDefault ti wmInit groupOk o =>
      have hinput := inputEnsure_set hwm wmInit groupOk
      have hensure := ensure_group (s := { s with
        process := { s.process with defaultTi := ti }
        input := (wmInputEnsure s.input wmInit groupOk).2 }) (by rw [hinput]; exact hwm) o
      refine ⟨hensure.1, hensure.2.trans ?_⟩
      rw [hinput]
    | ensure o => exact ensure_group hwm o
    | _ => exact hkept (step_flags rfl)
  · exact hkept (pollWindows_flags fire visits s.input)

theorem ensure_unset {s : System keyMax} {o : EnsureOutcome}
    (hwm' : (wmWindowWatchEnsure s o).2.input.wm = false) :
    (wmWindowWatchEnsure s o).2.input.watch.list = s.input.watch.list := by
  have hensures := ensures s o
  generalize (wmWindowWatchEnsure s o).2.input = s' at hensures hwm' ⊢
  cases hensures with
  | watching hactive => rfl
  | failed hfailed =>
    exact congrArg Watch.list (inputEnsure_watch s.input o.wmInit o.groupOk)
  | seeded hok reactive =>
    -- the enumeration has run, so there is a window manager
    have hkept := flagsKept (pollWindows_flags false o.visits
      (wmInputEnsure s.input o.wmInit o.groupOk).2.activate)
    have hpolled := hkept.wm.trans (inputEnsure_wm hok)
    rw [pollUnless_wm, hpolled] at hwm'
    cases hwm'

/-- A step that leaves no window manager registers nothing. -/
theorem unset_empty (hwm : s.input.wm = false) (hlist : s.input.watch.list = [])
    {st : WatchStep} (hwm' : (st.step s).1.input.wm = false) :
    (st.step s).1.input.watch.list = [] := by
  rcases st with st | ⟨fire, visits⟩
  · cases st with
    | setDefault ti wmInit groupOk o =>
      refine (ensure_unset hwm').trans ?_
      exact (congrArg Watch.list (inputEnsure_watch s.input wmInit groupOk)).trans hlist
    | ensure o => exact (ensure_unset hwm').trans hlist
    | process targetInit => exact hlist
    | processFini =>
      show (wmProcessFini s).input.watch.list = []
      unfold wmProcessFini
      split <;> exact hlist
    | notify hwnd change resolved grown =>
      show (targetWindowSink s.input hwnd change resolved grown).watch.list = []
      rw [targetWindowSink.eq_def, if_pos (by simp [hwm])]
      exact hlist
    | tick visits =>
      show (wmTick visits s.input).watch.list = []
      unfold wmTick
      rw [pollWindows_unset hwm, ite_self]
      exact hlist
    | handle cbs => exact handleEvent_empty hlist cbs
    | key k down => exact hlist
  · show (pollWindows fire visits s.input).watch.list = []
    rw [pollWindows_unset hwm]
    exact hlist

/-- Without a window manager nothing is registered. -/
theorem wm_of_entry (run : List WatchStep) (h : HasEntry x (watched keyMax run)) :
    (watched keyMax run).input.wm = true := by
  have hempty : (watched keyMax run).input.wm = false →
      (watched keyMax run).input.watch.list = [] := by
    refine final_history WatchStep.step
      (fun s _ => s.input.wm = false → s.input.watch.list = []) ?_ (fun _ => rfl) run
    intro s past st hs hwm'
    cases hwm : s.input.wm with
    | true =>
      rw [(group_kept hwm st).1] at hwm'
      cases hwm'
    | false => exact unset_empty hwm (hs hwm) hwm'
  cases hwm : (watched keyMax run).input.wm with
  | true => rfl
  | false =>
    rw [HasEntry, hempty hwm] at h
    cases h

end Steps

-- ----------------------------------------------------------------------------
-- Runs
-- ----------------------------------------------------------------------------

theorem watched_concat (run : List WatchStep) (st : WatchStep) :
    watched keyMax (run ++ [st]) = (st.step (watched keyMax run)).1 := by
  rw [watched, final_append]
  rfl

theorem createdAmong_concat {before steps : List WatchStep} {st : WatchStep} :
    CreatedAmong keyMax x before (steps ++ [st]) ↔
      CreatedAmong keyMax x before steps ∨ ReportsCreated x
        (pushedOn (watched keyMax (before ++ steps)).input
          (st.step (watched keyMax (before ++ steps))).1.input) := by
  rw [CreatedAmong, atSomeStep_concat, ← final_append]
  rfl

theorem createdAmong_singleton {before : List WatchStep} {st : WatchStep} :
    CreatedAmong keyMax x before [st] ↔ ReportsCreated x
      (pushedOn (watched keyMax before).input (st.step (watched keyMax before)).1.input) := by
  rw [← List.nil_append [st], createdAmong_concat, List.append_nil]
  exact or_iff_right atSomeStep_nil

/-- The entry that has been there since the step `st` is known if that was a silent poll or
there has been a report since. -/
theorem recorded_since {before : List WatchStep} {st : WatchStep} {since : List WatchStep}
    (hheld : HeldSince WatchStep.step (HasEntry x) (System.init keyMax) before st since)
    (hgroup : (watched keyMax (before ++ st :: since)).input.registered = true)
    {w : RegisteredWindow}
    (hw : findWindow (watched keyMax (before ++ st :: since)).input.watch.list x = some w) :
    (w.known = true ↔ st.Seeds ∨ CreatedAmong keyMax x before (st :: since)) ∧
      (w.known = false → st.Mentions x) := by
  induction since using List.reverseRecOn generalizing w with
  | nil =>
    rw [watched_concat] at hgroup hw
    have habsent : findWindow (watched keyMax before).input.watch.list x = none := by
      have := hheld.absent
      rwa [HasEntry, Option.not_isSome_iff_eq_none] at this
    have hreg : (watched keyMax before).input.registered = true ∨ st.Seeds := by
      by_cases hseeds : st.Seeds
      · exact Or.inr hseeds
      · rw [registered_of_not_seeds hseeds] at hgroup
        exact Or.inl hgroup
    rw [createdAmong_singleton]
    exact (watchStep_entry (watchInv_run before) st hreg).added w habsent hw
  | append_singleton since j ih =>
    have hsplit : before ++ st :: (since ++ [j]) = (before ++ st :: since) ++ [j] := by simp
    rw [hsplit, watched_concat] at hgroup hw
    have hentry := hheld.held since (List.prefix_append since [j])
    obtain ⟨v, hv⟩ := Option.isSome_iff_exists.mp hentry
    rw [(group_kept (wm_of_entry _ hentry) j).2] at hgroup
    obtain ⟨hknown, hmentions⟩ := ih hheld.of_concat hgroup hv
    have hkept := (watchStep_entry (watchInv_run _) j (Or.inl hgroup)).kept v w hv hw
    rw [← List.cons_append, createdAmong_concat, ← or_assoc, ← hknown]
    refine ⟨hkept, fun hfalse => hmentions ?_⟩
    rw [Bool.eq_false_iff] at hfalse ⊢
    exact fun h => hfalse (hkept.mpr (Or.inl h))

/-- **What `known` records.** In every run of the watcher in which the event group got
registered: an entry is known exactly if a silent poll added it or a `WINDOW_CREATED` has been
emitted for it since it was added; one that is not known was added by a notification of opening
or focus, and no `WINDOW_CREATED` has been emitted since. -/
theorem known_recorded (keyMax : Nat) (run : List WatchStep)
    (hgroup : (watched keyMax run).input.registered = true) :
    ∀ w ∈ (watched keyMax run).input.watch.list, Recorded keyMax run w := by
  intro w hw
  have hfind : findWindow (watched keyMax run).input.watch.list w.identity = some w :=
    find?_keyed (watchInv_run run).nodup hw rfl
  have hstart : ¬ HasEntry w.identity (System.init keyMax) := Bool.false_ne_true
  have hend : HasEntry w.identity (watched keyMax run) := by rw [HasEntry, hfind]; rfl
  obtain ⟨before, st, since, rfl, hheld⟩ := exists_heldSince hstart hend
  obtain ⟨hknown, hmentions⟩ := recorded_since hheld hgroup hfind
  refine ⟨before, st, since, rfl, hheld, hknown, fun hfalse => ⟨hmentions hfalse, ?_⟩⟩
  intro hcreated
  rw [hknown.mpr (Or.inr hcreated)] at hfalse
  cases hfalse

/-- A seed with window 5; then window 6 is opened, and shown. -/
def seedAndOpen : List WatchStep :=
  [.system (.ensure ⟨true, true, [Visit.clean 7 5], true, true, true⟩),
    .system (.notify 6 .opened (some 8) true), .system (.notify 6 .created none true)]

theorem known_recorded_seedAndOpen :
    (watched 128 seedAndOpen).input.registered = true ∧
      ∀ w ∈ (watched 128 seedAndOpen).input.watch.list, Recorded 128 seedAndOpen w :=
  ⟨by decide +kernel, known_recorded 128 seedAndOpen (by decide +kernel)⟩

/-- The event group is refused at the start; then window 5 is shown. -/
def groupRefused : List WatchStep :=
  [.system (.ensure ⟨true, false, [], true, true, true⟩),
    .system (.notify 5 .created (some 1) true)]

/-- The window is known, and no event has been emitted for it. -/
theorem unreported_known :
    ¬ ∀ w ∈ (watched 128 groupRefused).input.watch.list, Recorded 128 groupRefused w := by
  intro h
  have hlist : (watched 128 groupRefused).input.watch.list = [⟨5, 1, true⟩] := by
    decide +kernel
  have hentry := h ⟨5, 1, true⟩ (by rw [hlist]; exact List.mem_singleton_self _)
  obtain ⟨before, st, since, hsplit, hheld, hknown, -⟩ := hentry
  rcases before with _ | ⟨a, _ | ⟨b, before⟩⟩
  -- the start adds no entry
  · cases hsplit
    have hadded := hheld.held [] (List.nil_prefix)
    exact absurd hadded (by unfold HasEntry; decide +kernel)
  · cases hsplit
    rcases hknown.mp rfl with hseeds | hcreated
    · exact hseeds
    · rw [createdAmong_singleton] at hcreated
      -- the queue is empty before and after
      exact not_reportsCreated_nil hcreated
  · simp [groupRefused] at hsplit

end Uniwm
