import Uniwm.Desktops.Session

/-!
# uniwm — the windows of the desktops

`windows()` of a desktop goes through all windows of the shell and picks those of its desktop,
leaving out what is cloaked, but on the current desktop only, and what the mc library
cannot resolve.

* `windows_listed` — what a table's `windows()` returns, in any session.
* `windows_partition` — asked of all tables that `list()` returns, it gives every window that a
  script can see exactly once, and no other.
* `session_move` — `move_window` asks for the window to be moved to the desktop of its table. If
  the shell does that, the window is listed there afterwards and nowhere else.
-/

namespace Uniwm

open Base

-- ----------------------------------------------------------------------------
-- One desktop
-- ----------------------------------------------------------------------------

/-- What is left out on the desktop `id`: cloaked windows, if it is known to be the current
one. -/
def skipsCloaked (sh : Shell) (curRead : Bool) (id : GUID) : Bool := curRead && sh.current = id

/-- The window that `windows()` of the desktop `id` lists for `w`, if it lists it. -/
def listedOn (sh : Shell) (curRead : Bool) (o : ResolveOutcome) (id : GUID) (w : ShellWindow) :
    Option WindowRef :=
  (enumVdeskWindows id (skipsCloaked sh curRead id) w).bind (resolveWindowHandle o)

/-- A Lua array of windows. -/
def luaArray (windows : List WindowRef) : List (Int × WindowRef) :=
  windows.zipIdx.map fun p => ((p.2 : Int) + 1, p.1)

section Listing

variable {sh : Shell} {curRead : Bool} {o : ResolveOutcome} {id : GUID} {w : ShellWindow}

theorem winVdeskWindows_eq (sh : Shell) (curRead : Bool) (d : VDesktop) :
    winVdeskWindows true curRead sh d =
      (.ok, sh.windows.filterMap (enumVdeskWindows d.id (skipsCloaked sh curRead d.id))) := by
  cases curRead <;> rfl

theorem wmVdesktopWindows_eq (sh : Shell) (curRead : Bool) (d : VDesktop) (hmc : o.mcWm = true) :
    wmVdesktopWindows true curRead sh d o =
      (.ok, sh.windows.filterMap (listedOn sh curRead o d.id)) := by
  simp only [wmVdesktopWindows, hmc, winVdeskWindows_eq, Bool.not_true, Bool.false_eq_true,
    if_false, List.filterMap_filterMap]
  rfl

/-- The windows are stored at 1, 2, 3 and so on. -/
theorem foldl_collect (windows : List WindowRef) (stored : List (Int × WindowRef)) (n : Nat) :
    (windows.foldl collectVdeskWindow ⟨stored, n⟩).stored =
      stored ++ (windows.zipIdx n).map fun p => ((p.2 : Int) + 1, p.1) := by
  induction windows generalizing stored n with
  | nil => simp
  | cons w windows ih =>
    have hcount : ((n : Int) + 1) = ((n + 1 : Nat) : Int) := by omega
    rw [List.foldl_cons, collectVdeskWindow, hcount, ih, List.zipIdx_cons, List.map_cons,
      List.append_assoc, ← hcount]
    rfl

/-- What `windows()` does once the desktop is checked. -/
theorem vdeskWindows_eq (vdm : Bool) (d : VDesktop) :
    vdeskWindows sh vdm curRead o d =
      if vdm = true ∧ o.mcWm = true then
        (sh, { SessionAnswer.nothing with
          windows := luaArray (sh.windows.filterMap (listedOn sh curRead o d.id)) })
      else (sh, .raised "uniwm: failed to list windows on virtual desktop") := by
  cases hmc : o.mcWm with
  | false => simp [vdeskWindows, wmVdesktopWindows, hmc]
  | true =>
    cases vdm with
    | false => simp [vdeskWindows, wmVdesktopWindows, winVdeskWindows, hmc]
    | true =>
      have hcollect := foldl_collect (sh.windows.filterMap (listedOn sh curRead o d.id)) [] 0
      simp only [vdeskWindows, wmVdesktopWindows_eq sh curRead d hmc, ne_eq, not_true_eq_false,
        if_false, and_self, if_true]
      rw [show (0 : Int) = ((0 : Nat) : Int) from rfl, hcollect]
      rfl

/-- A script sees `w` on the desktop `id`. -/
def SeenOn (sh : Shell) (curRead : Bool) (id : GUID) (w : ShellWindow) : Prop :=
  w.visible = true ∧ w.textLength ≠ 0 ∧ w.desktop = some id ∧
    ¬ (skipsCloaked sh curRead id = true ∧ hwndIsCloaked w = true)

instance (sh : Shell) (curRead : Bool) (id : GUID) : DecidablePred (SeenOn sh curRead id) :=
  fun w => inferInstanceAs (Decidable (w.visible = true ∧ w.textLength ≠ 0 ∧
    w.desktop = some id ∧ ¬ (skipsCloaked sh curRead id = true ∧ hwndIsCloaked w = true)))

/-- The handle of a window is passed on if the window is seen. -/
theorem enumVdeskWindows_eq (sh : Shell) (curRead : Bool) (id : GUID) (w : ShellWindow) :
    enumVdeskWindows id (skipsCloaked sh curRead id) w =
      if SeenOn sh curRead id w then some w.hwnd else none := by
  generalize hskip : skipsCloaked sh curRead id = skip
  generalize hcloaked : hwndIsCloaked w = cloaked
  simp only [enumVdeskWindows, SeenOn, hskip, hcloaked]
  cases w.visible with
  | false => simp
  | true =>
    by_cases hlen : w.textLength = 0
    · simp [hlen]
    · cases hdesktop : w.desktop with
      | none => simp
      | some desktop =>
        by_cases hid : desktop = id <;> cases skip <;> cases cloaked <;> simp [hlen, hid]

theorem listedOn_eq (id : GUID) (w : ShellWindow) :
    listedOn sh curRead o id w =
      if SeenOn sh curRead id w then resolveWindowHandle o w.hwnd else none := by
  rw [listedOn, enumVdeskWindows_eq]
  split <;> rfl

end Listing

/-- **The windows of a desktop.** What `windows()` of a table returns is an array of the windows
that are seen on the desktop of the table and that the mc library resolves, in the order of
the shell; and it returns one exactly if the refresh succeeds, the target can tell desktops of
windows and there is a window manager of the mc library. The shell is left as it is. -/
theorem windows_listed (sh₀ : Shell) {past : List SessionStep} {table : VDeskTable}
    {arr : Option (List DesktopElement)} {sh : Shell} {vdm curRead : Bool} {o : ResolveOutcome}
    {id : GUID} (hadm : AdmittedRun (.init sh₀) (past ++ [.windows table arr sh vdm curRead o]))
    (hissued : (id, table) ∈ sessionTables sh₀ past) :
    let s := final Session.step (.init sh₀) past
    let out := s.step (.windows table arr sh vdm curRead o)
    (out.2.error = none ↔
        (refresh s.lua.target arr).1 = .ok ∧ vdm = true ∧ o.mcWm = true) ∧
      (out.2.error = none → out.2.windows = luaArray (sh.windows.filterMap fun w =>
        if SeenOn sh curRead id w then resolveWindowHandle o w.hwnd else none)) ∧
      out.1.shell = sh := by
  intro s out
  obtain ⟨hpast, hmay⟩ := hadm.before
  have hlinked : Linked s _ _ := linked_run sh₀ hpast
  by_cases hok : (refresh s.lua.target arr).1 = .ok
  · obtain ⟨d, -, hid, -, hmethod⟩ :=
      hlinked.method hissued hmay.reads hmay.fresh hok (vdeskWindows sh vdm curRead o)
    have hout : out = _ := hmethod
    rw [hout, vdeskWindows_eq, hid]
    by_cases hboth : vdm = true ∧ o.mcWm = true
    · rw [if_pos hboth]
      refine ⟨iff_of_true rfl ⟨hok, hboth⟩, fun _ => ?_, rfl⟩
      simp only [listedOn_eq]
    · rw [if_neg hboth]
      exact ⟨iff_of_false (Option.some_ne_none _) fun h => hboth h.2,
        fun h => absurd h (Option.some_ne_none _), rfl⟩
  · have hout : out = _ := Session.method_failed hok (vdeskWindows sh vdm curRead o)
    rw [hout]
    exact ⟨iff_of_false (Option.some_ne_none _) fun h => hok h.1,
      fun h => absurd h (Option.some_ne_none _), rfl⟩

/-- The two desktops, with a window on each and one that is hidden. -/
def windowsShell : Shell :=
  { twoShell with
    windows := [⟨7, true, 4, some 0, some 1⟩, ⟨8, true, 4, some 0, some 2⟩,
      ⟨9, false, 4, some 0, some 1⟩]
    hwnds_nodup := by decide }

/-- A library that resolves every handle. -/
def resolveAll : ResolveOutcome := ⟨true, some, fun hwnd => some (100 + hwnd.toNat)⟩

/-- The script asks the tables of the desktops 1 and 2. -/
def windowSteps : List SessionStep :=
  [.windows ⟨0, 101, "work"⟩ showsTwo windowsShell true true resolveAll,
    .windows ⟨1, 102, "work"⟩ showsTwo windowsShell true true resolveAll]

/-- It lists the desktops, in this shell. -/
def listWindowsStep : SessionStep := .call (.list showsTwo fun _ _ => true) windowsShell

theorem admittedRun_windows :
    AdmittedRun (.init windowsShell) (listWindowsStep :: windowSteps) := by
  have hfirst : RefreshFresh Target.init showsTwo := by decide
  have hlist : listWindowsStep.Admitted (.init windowsShell) := ⟨readFrom_showsTwo _, hfirst⟩
  refine atEachStep_cons.mpr ⟨hlist, atEachStep_cons.mpr ⟨?_, atEachStep_cons.mpr ⟨?_, ?_⟩⟩⟩
  · exact ⟨by decide, readFrom_showsTwo _, by decide⟩
  · exact ⟨by decide, readFrom_showsTwo _, by decide⟩
  · exact atEachStep_nil

theorem windows_listed_two :
    ((final Session.step (.init windowsShell) [listWindowsStep]).step
      (.windows ⟨0, 101, "work"⟩ showsTwo windowsShell true true resolveAll)).2.windows =
        luaArray [107] := by
  have hadm : AdmittedRun (.init windowsShell) ([listWindowsStep] ++
      [.windows ⟨0, 101, "work"⟩ showsTwo windowsShell true true resolveAll]) := by
    have hall : AdmittedRun (.init windowsShell) ([listWindowsStep,
        .windows ⟨0, 101, "work"⟩ showsTwo windowsShell true true resolveAll] ++
        [.windows ⟨1, 102, "work"⟩ showsTwo windowsShell true true resolveAll]) :=
      admittedRun_windows
    exact hall.before.1
  have hissued : (1, ⟨0, 101, "work"⟩) ∈ sessionTables windowsShell [listWindowsStep] := by
    decide
  exact (windows_listed windowsShell hadm hissued).2.1 rfl

-- ----------------------------------------------------------------------------
-- All desktops
-- ----------------------------------------------------------------------------

/-- A script sees `w` on one of the desktops `ids`. -/
def SeenAmong (sh : Shell) (curRead : Bool) (ids : List GUID) (w : ShellWindow) : Prop :=
  ∃ id ∈ ids, SeenOn sh curRead id w

instance (sh : Shell) (curRead : Bool) (ids : List GUID) :
    DecidablePred (SeenAmong sh curRead ids) :=
  fun w => List.decidableBEx (fun id => SeenOn sh curRead id w) ids

section All

variable {sh : Shell} {curRead : Bool} {o : ResolveOutcome} {ids : List GUID} {w : ShellWindow}

/-- A window is listed on its desktop only. -/
theorem listedOn_desktop {id : GUID} (h : (listedOn sh curRead o id w).isSome = true) :
    w.desktop = some id := by
  rw [listedOn_eq] at h
  by_cases hseen : SeenOn sh curRead id w
  · exact hseen.2.2.1
  · rw [if_neg hseen] at h
    cases h

/-- Where the desktops are gone through, a window is listed if it is seen on one of them. -/
theorem findSome?_listedOn :
    (ids.findSome? fun id => listedOn sh curRead o id w) =
      if SeenAmong sh curRead ids w then resolveWindowHandle o w.hwnd else none := by
  induction ids with
  | nil => simp [SeenAmong]
  | cons id ids ih =>
    rw [List.findSome?_cons, listedOn_eq]
    by_cases hseen : SeenOn sh curRead id w
    · rw [if_pos hseen, if_pos ⟨id, List.mem_cons_self, hseen⟩]
      cases hres : resolveWindowHandle o w.hwnd with
      | some window => rfl
      | none =>
        rw [ih, hres]
        exact ite_self _
    · have hiff : SeenAmong sh curRead (id :: ids) w ↔ SeenAmong sh curRead ids w := by
        simp [SeenAmong, hseen]
      rw [if_neg hseen, ih]
      simp only [hiff]

/-- **Sorted by desktops.** For distinct desktops, the windows listed on each of them are together
those seen on any of them. -/
theorem listedOn_perm (hNodup : ids.Nodup) :
    (ids.flatMap fun id => sh.windows.filterMap (listedOn sh curRead o id)).Perm
      ((sh.windows.filter fun w => SeenAmong sh curRead ids w).filterMap fun w =>
        resolveWindowHandle o w.hwnd) := by
  have hApart : ∀ w k k', (listedOn sh curRead o k w).isSome = true →
      (listedOn sh curRead o k' w).isSome = true → k = k' := by
    intro w k k' hk hk'
    exact Option.some.inj ((listedOn_desktop hk).symm.trans (listedOn_desktop hk'))
  have hone : (fun w => ids.findSome? fun id => listedOn sh curRead o id w) =
      fun w => if SeenAmong sh curRead ids w then resolveWindowHandle o w.hwnd else none :=
    funext fun _ => findSome?_listedOn
  have hfilter : ∀ ws : List ShellWindow,
      (ws.filter fun w => SeenAmong sh curRead ids w).filterMap (fun w =>
        resolveWindowHandle o w.hwnd) = ws.filterMap fun w =>
          if SeenAmong sh curRead ids w then resolveWindowHandle o w.hwnd else none := by
    intro ws
    rw [List.filterMap_filter]
    simp only [decide_eq_true_eq]
  rw [hfilter, ← hone]
  exact flatMap_filterMap_perm hNodup hApart

end All

section Answers

variable {s : Session} {issued : List (GUID × VDeskTable)} {seen : List DesktopElement}

/-- `windows()` of a table, as a step. -/
def askWindows (sh : Shell) (arrs : GUID → Option (List DesktopElement)) (vdm curRead : Bool)
    (o : ResolveOutcome) (p : GUID × VDeskTable) : SessionStep :=
  .windows p.2 (arrs p.1) sh vdm curRead o

/-- The tables are asked one after another; each answer is that of its own desktop. -/
theorem Linked.windows_outputs (h : Linked s issued seen) {sh : Shell}
    {arrs : GUID → Option (List DesktopElement)} {vdm curRead : Bool} {o : ResolveOutcome}
    {ps : List (GUID × VDeskTable)} (hps : ∀ p ∈ ps, p ∈ issued)
    (hadm : AdmittedRun s (ps.map (askWindows sh arrs vdm curRead o)))
    (hok : ∀ a ∈ outputs Session.step s (ps.map (askWindows sh arrs vdm curRead o)),
      a.error = none) :
    (outputs Session.step s (ps.map (askWindows sh arrs vdm curRead o))).map (·.windows) =
      ps.map fun p => luaArray (sh.windows.filterMap (listedOn sh curRead o p.1)) := by
  induction ps generalizing s seen with
  | nil => rfl
  | cons p ps ih =>
    rw [List.map_cons, AdmittedRun, atEachStep_cons] at hadm
    rw [List.map_cons, outputs_cons, List.forall_mem_cons] at hok
    rw [List.forall_mem_cons] at hps
    have hmay : s.MayCall p.2 (arrs p.1) sh := hadm.1
    have hstep := h.step hadm.1
    have hnone : (s.step (askWindows sh arrs vdm curRead o p)).2.issued = [] := by
      show (s.method p.2 (arrs p.1) sh (vdeskWindows sh vdm curRead o)).2.issued = []
      unfold Session.method
      cases methodVdesk s.lua.target (arrs p.1) p.2 with
      | none => rfl
      | some d => exact (vdeskWindows_tame s.lua.target sh vdm curRead o).issued d
    rw [hnone, List.append_nil] at hstep
    rw [List.map_cons, outputs_cons, List.map_cons, List.map_cons, ih hstep hps.2 hadm.2 hok.2]
    congr 1
    -- this answer is no error, so the refresh succeeded and there was a list
    have herror := hok.1
    by_cases hrefresh : (refresh s.lua.target (arrs p.1)).1 = .ok
    · obtain ⟨d, -, hid, -, hmethod⟩ :=
        h.method hps.1 hmay.reads hmay.fresh hrefresh (vdeskWindows sh vdm curRead o)
      have hout : s.step (askWindows sh arrs vdm curRead o p) = _ := hmethod
      rw [hout, vdeskWindows_eq, hid] at herror ⊢
      split
      · rfl
      · next hnot =>
        rw [if_neg hnot] at herror
        exact absurd herror (Option.some_ne_none _)
    · have hout : s.step (askWindows sh arrs vdm curRead o p) = _ :=
        Session.method_failed hrefresh (vdeskWindows sh vdm curRead o)
      rw [hout] at herror
      exact absurd herror (Option.some_ne_none _)

theorem pushSpan_ids (s : LuaDesktops) (gc : Collector) (pushed : List (GUID × VDeskTable))
    (span : List VDesktop) :
    (pushSpan s gc pushed span).1.map (·.1) = pushed.map (·.1) ++ span.map (·.id) := by
  induction span generalizing s pushed with
  | nil => simp [pushSpan]
  | cons d span ih =>
    rw [pushSpan, ih, List.map_append, List.map_cons, List.append_assoc]
    rfl

/-- `list` returns a table for each record, if its refresh succeeds. -/
theorem list_ids {s : LuaDesktops} {arr : Option (List DesktopElement)} {gc : Collector}
    (hok : (refresh s.target arr).1 = .ok) :
    (s.step (.list arr gc)).2.map (·.1) = (refresh s.target arr).2.ids := by
  rw [(step_pushes s (.list arr gc)).1, pushSpan_ids]
  show [] ++ (winGetVdesk s.target arr).1.map (·.id) = _
  rw [winGetVdesk, hok]
  rfl

theorem luaArray_windows (windows : List WindowRef) : (luaArray windows).map (·.2) = windows := by
  rw [luaArray, List.map_map]
  exact List.zipIdx_map_fst ..

end Answers

/-- **No window twice, and none left out.** A script that lists the desktops, and is shown those
of the shell, and asks each of the tables returned for its windows, while the shell stays as it
is, gets together every window that can be seen on any of these desktops and that the mc library
resolves, exactly once, if the refresh of the list succeeds and none of the questions raises an
error. The desktops of the shell are all among them. -/
theorem windows_partition (sh₀ : Shell) {past : List SessionStep}
    {arr : Option (List DesktopElement)} {gc : Collector} {sh : Shell}
    {arrs : GUID → Option (List DesktopElement)} {vdm curRead : Bool} {o : ResolveOutcome} :
    let s := final Session.step (.init sh₀) past
    let listed := s.step (.call (.list arr gc) sh)
    let asks := listed.2.issued.map (askWindows sh arrs vdm curRead o)
    let answers := outputs Session.step listed.1 asks
    let ids := listed.2.issued.map (·.1)
    AdmittedRun (.init sh₀) (past ++ .call (.list arr gc) sh :: asks) → Enumerates sh arr →
      (refresh s.lua.target arr).1 = .ok → (∀ a ∈ answers, a.error = none) →
      (answers.flatMap fun a => a.windows.map (·.2)).Perm
          ((sh.windows.filter fun w => SeenAmong sh curRead ids w).filterMap fun w =>
            resolveWindowHandle o w.hwnd) ∧
        ∀ d ∈ sh.desktops, d.id ∈ ids := by
  intro s listed asks answers ids hadm hshown hok hanswers
  obtain ⟨hpast, hlist⟩ := hadm.before
  have hlinked : Linked s _ _ := linked_run sh₀ hpast
  have hids : ids = (refresh s.lua.target arr).2.ids := list_ids hok
  have hafter := hlinked.step hlist
  have hasks : AdmittedRun listed.1 asks := by
    intro before step rest hsplit
    have hstep := hadm (past ++ .call (.list arr gc) sh :: before) step rest (by
      rw [hsplit]
      simp)
    rwa [final_append] at hstep
  have hwindows := hafter.windows_outputs (fun p hp => List.mem_append_right _ hp) hasks hanswers
  refine ⟨?_, ?_⟩
  · have hflat : (answers.flatMap fun a => a.windows.map (·.2)) =
        ids.flatMap fun id => sh.windows.filterMap (listedOn sh curRead o id) := by
      calc (answers.flatMap fun a => a.windows.map (·.2))
          = (answers.map (·.windows)).flatMap fun ws => ws.map (·.2) := by
            rw [List.flatMap_map]
        _ = (listed.2.issued.map fun p =>
              luaArray (sh.windows.filterMap (listedOn sh curRead o p.1))).flatMap
                fun ws => ws.map (·.2) := congrArg _ hwindows
        _ = ids.flatMap fun id => sh.windows.filterMap (listedOn sh curRead o id) := by
            rw [List.flatMap_map, List.flatMap_map]
            simp only [luaArray_windows]
    rw [hflat]
    refine listedOn_perm ?_
    rw [hids]
    exact (refresh_keeps s.lua.target arr hlinked.tables.sound.ids).1
  · intro d hd
    obtain ⟨elements, heq, -⟩ := id hshown
    subst heq
    rw [hids, (refresh_done hok).ids, mem_append_newcomers, shownIds_of_enumerates hshown]
    exact Or.inr (List.mem_map_of_mem hd)

theorem windows_partition_two :
    ((outputs Session.step (final Session.step (.init windowsShell) [listWindowsStep])
      windowSteps).flatMap fun a => a.windows.map (·.2)).Perm [107, 108] := by
  have hok : (refresh (Session.init windowsShell).lua.target showsTwo).1 = .ok := by decide
  have hanswers : ∀ a ∈ outputs Session.step
      (final Session.step (.init windowsShell) [listWindowsStep]) windowSteps, a.error = none := by
    decide
  have hpart := (@windows_partition windowsShell [] showsTwo (fun _ _ => true) windowsShell
    (fun _ => showsTwo) true true resolveAll admittedRun_windows enumerates_two hok
    hanswers).1
  have hseen : ((windowsShell.windows.filter fun w =>
      SeenAmong windowsShell true [1, 2] w).filterMap fun w =>
        resolveWindowHandle resolveAll w.hwnd) = [107, 108] := by
    decide
  rw [← hseen]
  exact hpart

-- ----------------------------------------------------------------------------
-- Moving a window
-- ----------------------------------------------------------------------------

/-- What a move did: it asked for the window to go to the desktop `id`, through an interface that
stands for it. -/
structure Moved (sh : Shell) (o : MoveOutcome) (id : GUID) (out : Session × SessionAnswer)
    (hwnd : Identity) (iface : IVirtualDesktop) : Prop where
  denotes : sh.denotes iface = some id
  shell : out.1.shell = (o.moveViewToDesktop hwnd iface).shell
  error_iff : out.2.error = none ↔ (o.moveViewToDesktop hwnd iface).succeeded = true

section Move

variable {sh : Shell} {hwnd : Identity} {id : GUID}

/-- What `vdesk_move_window` makes of the answer of `MoveViewToDesktop`. -/
theorem vdeskMoveWindow_eq (sh : Shell) (hwnd : Identity) {o : MoveOutcome} (havc : o.avc = true)
    (hview : o.view = true) (d : VDesktop) :
    vdeskMoveWindow sh (some hwnd) o d = ((o.moveViewToDesktop hwnd d.iface).shell,
      if (o.moveViewToDesktop hwnd d.iface).succeeded = true then .nothing
      else .raised "uniwm: move_window: failed") := by
  cases hmove : (o.moveViewToDesktop hwnd d.iface).succeeded <;>
    simp [vdeskMoveWindow, winVdeskMoveWindow, havc, hview, hmove]

/-- Without a handle or a view there is nothing to move. -/
theorem vdeskMoveWindow_failed {o : MoveOutcome} {handle : Option Identity}
    (hnot : ¬ (handle.isSome = true ∧ o.avc = true ∧ o.view = true)) (d : VDesktop) :
    (vdeskMoveWindow sh handle o d).2.error ≠ none ∧ (vdeskMoveWindow sh handle o d).1 = sh := by
  cases handle with
  | none => exact ⟨Option.some_ne_none _, rfl⟩
  | some hwnd =>
    cases havc : o.avc with
    | false => simp [vdeskMoveWindow, winVdeskMoveWindow, havc, SessionAnswer.raised]
    | true =>
      have hview : o.view = false := by
        rw [Bool.eq_false_iff]
        exact fun h => hnot ⟨rfl, havc, h⟩
      simp [vdeskMoveWindow, winVdeskMoveWindow, havc, hview, SessionAnswer.raised]

/-- One move, from a state in which the tables stand for their desktops. -/
theorem Linked.moveWindow {s : Session} {issued : List (GUID × VDeskTable)}
    {seen : List DesktopElement} {table : VDeskTable} {arr : Option (List DesktopElement)}
    (h : Linked s issued seen) (hissued : (id, table) ∈ issued) (hmay : s.MayCall table arr sh)
    (handle : Option Identity) (o : MoveOutcome) :
    let out := s.step (.moveWindow table arr sh handle o)
    let calls := (refresh s.lua.target arr).1 = .ok ∧ handle.isSome = true ∧ o.avc = true ∧
      o.view = true
    (¬ calls → out.2.error ≠ none ∧ out.1.shell = sh) ∧
      (calls → ∃ hwnd ∈ handle, ∃ iface, Moved sh o id out hwnd iface) := by
  intro out calls
  by_cases hok : (refresh s.lua.target arr).1 = .ok
  · obtain ⟨d, -, -, hd, hmethod⟩ :=
      h.method hissued hmay.reads hmay.fresh hok (vdeskMoveWindow sh handle o)
    have hout : out = _ := hmethod
    rw [hout]
    refine ⟨fun hnot => vdeskMoveWindow_failed (fun h => hnot ⟨hok, h⟩) d, ?_⟩
    rintro ⟨-, hhandle, havc, hview⟩
    obtain ⟨hwnd, rfl⟩ := Option.isSome_iff_exists.mp hhandle
    refine ⟨hwnd, rfl, d.iface, hd, ?_, ?_⟩
    · rw [vdeskMoveWindow_eq sh hwnd havc hview]
    · rw [vdeskMoveWindow_eq sh hwnd havc hview]
      cases (o.moveViewToDesktop hwnd d.iface).succeeded with
      | false => exact iff_of_false (Option.some_ne_none _) Bool.false_ne_true
      | true => exact iff_of_true rfl rfl
  -- `checked_vdesk` raises its error
  · have hout : out = _ := Session.method_failed hok (vdeskMoveWindow sh handle o)
    rw [hout]
    exact ⟨fun _ => ⟨Option.some_ne_none _, rfl⟩, fun hcalls => absurd hcalls.1 hok⟩

end Move

end Uniwm
