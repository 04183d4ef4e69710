import Uniwm.Desktops.Current
import Uniwm.Desktops.TableNames
import Uniwm.Model.Session

/-!
# uniwm — a switch reaches the desktop of its table

A table has the address of a record, the record an interface, and the shell what the
interface stands for. The first two links are `Tables`. The last one is not obvious: a refresh
releases interfaces, and the shell may put a released one to another use at once, even while
the same refresh goes on. What makes it hold is that a record always holds a reference to the
interface in it (`Keeps`), so that the shell must leave this one alone.

* `refresh_stands` — the cached interfaces stand for the desktops of their records, through
  any refresh.
* `Linked.step`, `Linked.run` — so they do in every state of a session.
* `session_switch` — a switch asks the shell for the desktop of its table, or for none.
* `session_events` — the events of a session name the desktop that is current, and there is
  one for each switch that succeeds, if it can be made, and for nothing else.
* `session_switch_current` — after a switch `current()` is the table that was switched with.

What `SwitchDesktop` does is not the program's; the last three say what follows if it does what
it is called for (`OpensDesktops`).
-/

namespace Uniwm

open Base

-- ----------------------------------------------------------------------------
-- Interfaces that stand for their desktops
-- ----------------------------------------------------------------------------

/-- From `m` to `m'` the shell leaves alone the interfaces that the cache refers to. -/
def Keeps (t : Target) (m m' : Denotes) : Prop := ∀ d ∈ t.items, m' d.iface = m d.iface

/-- The interface of each record stands for the desktop of the record. -/
def StandsFor (m : Denotes) (t : Target) : Prop := ∀ d ∈ t.items, m d.iface = some d.id

/-- What the shell does from `m` to `m'` while the loop of `refresh` runs. Before it gives an
element it may have put interfaces to other uses, but none that the cache then refers to; and
an element stands for the desktop whose id it tells. -/
def ReadFrom : Denotes → Target → Nat → List DesktopElement → Denotes → Prop
  | m, t, _, [], m' => Keeps t m m'
  | m, t, ordinal, e :: elements, m' =>
    let one := refreshFrom t ordinal [e]
    ∃ m₁, Keeps t m m₁ ∧ (∀ vd ∈ e.vd, m₁ vd = some e.id) ∧
      if one.1 = .ok then ReadFrom m₁ one.2 (ordinal + 1) elements m' else Keeps one.2 m₁ m'

/-- The same for `refresh`. -/
def RefreshReads (m : Denotes) (t : Target) (arr : Option (List DesktopElement))
    (m' : Denotes) : Prop :=
  ReadFrom m (resetCache t) 0 (arr.getD []) m'

section StandsFor

variable {m m' : Denotes} {t : Target}

theorem StandsFor.keeps (h : StandsFor m t) (hkeeps : Keeps t m m') : StandsFor m' t := by
  intro d hd
  rw [hkeeps d hd]
  exact h d hd

/-- One element of the loop. -/
theorem StandsFor.element (h : StandsFor m t) {e : DesktopElement}
    (hread : ∀ vd ∈ e.vd, m vd = some e.id) (ordinal : Nat) :
    StandsFor m (refreshFrom t ordinal [e]).2 := by
  have hdone := refreshFrom_one t e ordinal
  intro d hd
  generalize (refreshFrom t ordinal [e]).1 = error at hdone
  generalize (refreshFrom t ordinal [e]).2.items = items at hdone hd
  cases hdone with
  | failed _ _ => exact h d hd
  | skipped _ => exact h d hd
  | existing vd hvd hmem =>
    rcases mem_updateDesktop hd with hd | ⟨d', hd', hid, rfl⟩
    · exact h d hd
    -- the record has the new interface, and the id that it had
    · show m vd = some d'.id
      rw [hid]
      exact hread vd hvd
  | new vd addr hvd hmem haddr =>
    rcases List.mem_append.mp hd with hd | hd
    · exact h d hd
    · rw [List.mem_singleton.mp hd]
      exact hread vd hvd

theorem StandsFor.refreshFrom {elements : List DesktopElement} {ordinal : Nat} (h : StandsFor m t)
    (hReads : ReadFrom m t ordinal elements m') :
    StandsFor m' (refreshFrom t ordinal elements).2 := by
  induction elements generalizing m t ordinal with
  | nil => exact h.keeps hReads
  | cons e elements ih =>
    obtain ⟨m₁, hkeeps, hread, hrest⟩ := hReads
    have hone := (h.keeps hkeeps).element hread ordinal
    rw [refreshFrom_cons]
    by_cases hok : (Uniwm.refreshFrom t ordinal [e]).1 = .ok
    · rw [if_pos hok] at hrest
      rw [if_neg (not_not.mpr hok)]
      exact ih hone hrest
    · rw [if_neg hok] at hrest
      rw [if_pos hok]
      exact hone.keeps hrest

/-- **A refresh.** However it ends, the interfaces in the cache stand for the desktops of their
records. -/
theorem refresh_stands {arr : Option (List DesktopElement)} (h : StandsFor m t)
    (hReads : RefreshReads m t arr m') : StandsFor m' (refresh t arr).2 := by
  have hreset : StandsFor m (resetCache t) := by
    intro d hd
    obtain ⟨d', hd', rfl⟩ := List.mem_map.mp hd
    exact h d' hd'
  cases arr with
  | none =>
    have hstands := @StandsFor.refreshFrom m m' (resetCache t) [] 0 hreset hReads
    intro d hd
    exact hstands { d with valid := false } (List.mem_map_of_mem hd)
  | some elements => exact hreset.refreshFrom hReads

/-- A shell that puts no interface to another use. -/
theorem readFrom_same {elements : List DesktopElement} {ordinal : Nat}
    (h : ∀ e ∈ elements, ∀ vd ∈ e.vd, m vd = some e.id) : ReadFrom m t ordinal elements m := by
  induction elements generalizing t ordinal with
  | nil => exact fun _ _ => rfl
  | cons e elements ih =>
    rw [List.forall_mem_cons] at h
    refine ⟨m, fun _ _ => rfl, h.1, ?_⟩
    split
    · exact ih h.2
    · exact fun _ _ => rfl

end StandsFor

-- ----------------------------------------------------------------------------
-- Calls
-- ----------------------------------------------------------------------------

/-- What the shell does while a call runs, whose refreshes are those of `DesktopCall.records`. -/
def DesktopCall.Reads (m : Denotes) (t : Target) (m' : Denotes) : DesktopCall → Prop
  | list arr _ => RefreshReads m t arr m'
  | current o _ =>
    ∃ m₁, (if t.items.length = 0 then RefreshReads m t o.arr m₁ else Keeps t m m₁) ∧
      RefreshReads m₁ (winVdeskCurrent t o.arr o.cur).2 o.span m'
  | create created arr span _ =>
    ∃ m₁, (if created.isSome then RefreshReads m t arr m₁ else Keeps t m m₁) ∧
      if (winVdeskCreate t created arr).1.isSome then
        RefreshReads m₁ (winVdeskCreate t created arr).2 span m'
      else Keeps (winVdeskCreate t created arr).2 m₁ m'
  | refresh arr => RefreshReads m t arr m'
  | forget _ => Keeps t m m'
  | collect _ => Keeps t m m'

section Calls

variable {m m' : Denotes} {t : Target}

theorem winVdeskCurrent_stands {arr : Option (List DesktopElement)} (cur : Option GUID)
    (h : StandsFor m t)
    (hReads : if t.items.length = 0 then RefreshReads m t arr m' else Keeps t m m') :
    StandsFor m' (winVdeskCurrent t arr cur).2 := by
  by_cases hempty : t.items.length = 0
  · rw [if_pos hempty] at hReads
    have hstands := refresh_stands h hReads
    simp only [winVdeskCurrent, if_pos hempty]
    split
    · exact hstands
    · cases cur <;> exact hstands
  · rw [if_neg hempty] at hReads
    have hstands := h.keeps hReads
    simp only [winVdeskCurrent, if_neg hempty]
    cases cur <;> exact hstands

theorem winVdeskCreate_stands {created : Option GUID} {arr : Option (List DesktopElement)}
    (h : StandsFor m t)
    (hReads : if created.isSome then RefreshReads m t arr m' else Keeps t m m') :
    StandsFor m' (winVdeskCreate t created arr).2 := by
  cases created with
  | none => exact h.keeps hReads
  | some id =>
    have hstands := refresh_stands h hReads
    simp only [winVdeskCreate]
    split <;> exact hstands

theorem DesktopCall.records_stand {call : DesktopCall} (h : StandsFor m t)
    (hReads : call.Reads m t m') : StandsFor m' (call.records t).2 := by
  cases call with
  | list arr gc => exact refresh_stands h hReads
  | current o gc =>
    obtain ⟨m₁, hcurrent, hspan⟩ := hReads
    exact refresh_stands (winVdeskCurrent_stands o.cur h hcurrent) hspan
  | create created arr span gc =>
    obtain ⟨m₁, hcreate, hspan⟩ := hReads
    have hstands := winVdeskCreate_stands h hcreate
    simp only [records]
    cases hout : (winVdeskCreate t created arr).1 with
    | none =>
      rw [hout] at hspan
      exact hstands.keeps hspan
    | some d =>
      rw [hout] at hspan
      exact refresh_stands hstands hspan
  | refresh arr => exact refresh_stands h hReads
  | forget dropped => exact h.keeps hReads
  | collect cleared => exact h.keeps hReads

end Calls

-- ----------------------------------------------------------------------------
-- Steps
-- ----------------------------------------------------------------------------

/-- The script calls methods of tables that it holds; the shell leaves alone what the cache
refers to, and `mc_alloc` what is in use. -/
structure Session.MayCall (s : Session) (table : VDeskTable) (arr : Option (List DesktopElement))
    (sh : Shell) : Prop where
  held : table ∈ s.lua.held
  reads : RefreshReads s.shell.denotes s.lua.target arr sh.denotes
  fresh : RefreshFresh s.lua.target arr

/-- The same for every step, also while `SwitchDesktop` and `MoveViewToDesktop` run. -/
def SessionStep.Admitted (s : Session) : SessionStep → Prop
  | shell sh => Keeps s.lua.target s.shell.denotes sh.denotes
  | call c sh => c.Reads s.shell.denotes s.lua.target sh.denotes ∧ c.Fresh s.lua.target
  | switch table arr sh o => s.MayCall table arr sh ∧ ∀ iface,
      Keeps (refresh s.lua.target arr).2 sh.denotes (o.switchDesktop iface).shell.denotes
  | windows table arr sh _ _ _ => s.MayCall table arr sh
  | moveWindow table arr sh _ o => s.MayCall table arr sh ∧ ∀ hwnd iface,
      Keeps (refresh s.lua.target arr).2 sh.denotes (o.moveViewToDesktop hwnd iface).shell.denotes
  | size table arr sh _ => s.MayCall table arr sh

/-- What the shell shows in a step. -/
def SessionStep.elements : SessionStep → List DesktopElement
  | shell _ => []
  | call c _ => c.elements
  | switch _ arr _ _ => arr.getD []
  | windows _ arr _ _ _ _ => arr.getD []
  | moveWindow _ arr _ _ _ => arr.getD []
  | size _ arr _ _ => arr.getD []

/-- From tables to desktops: `issued` are the tables given to the script so far, each with the
id of its desktop, and `seen` is what the shell has shown. -/
structure Linked (s : Session) (issued : List (GUID × VDeskTable))
    (seen : List DesktopElement) : Prop where
  tables : Tables s.lua s.lua.held issued seen
  held : ∀ table ∈ s.lua.held, ∃ id, (id, table) ∈ issued
  stands : StandsFor s.shell.denotes s.lua.target

section Bodies

variable (t : Target) (sh : Shell)

/-- What a method does leaves the interfaces alone that the cache refers to, and it gives no
tables. -/
structure Tame (body : VDesktop → Shell × SessionAnswer) : Prop where
  keeps : ∀ d, Keeps t sh.denotes (body d).1.denotes
  issued : ∀ d, (body d).2.issued = []

theorem vdeskSwitch_tame {o : SwitchOutcome}
    (hkeeps : ∀ iface, Keeps t sh.denotes (o.switchDesktop iface).shell.denotes) :
    Tame t sh (vdeskSwitch sh o) := by
  refine ⟨fun d => ?_, fun d => ?_⟩
  · have hshell : (vdeskSwitch sh o d).1 = (o.switchDesktop d.iface).shell := by
      cases hswitch : (o.switchDesktop d.iface).succeeded <;>
        simp [vdeskSwitch, wmVdesktopSwitch, winVdeskOpen, hswitch]
    rw [hshell]
    exact hkeeps d.iface
  · simp only [vdeskSwitch]
    split <;> rfl

theorem vdeskWindows_tame (vdm curRead : Bool) (o : ResolveOutcome) :
    Tame t sh (vdeskWindows sh vdm curRead o) := by
  refine ⟨fun d => ?_, fun d => ?_⟩
  · have hshell : (vdeskWindows sh vdm curRead o d).1 = sh := by
      simp only [vdeskWindows]
      split <;> rfl
    rw [hshell]
    exact fun _ _ => rfl
  · simp only [vdeskWindows]
    split <;> rfl

theorem vdeskMoveWindow_tame (handle : Option Identity) {o : MoveOutcome}
    (hkeeps : ∀ hwnd iface, Keeps t sh.denotes (o.moveViewToDesktop hwnd iface).shell.denotes) :
    Tame t sh (vdeskMoveWindow sh handle o) := by
  cases handle with
  | none => exact ⟨fun _ _ _ => rfl, fun _ => rfl⟩
  | some hwnd =>
    have hmove : ∀ d, Keeps t sh.denotes (winVdeskMoveWindow sh d hwnd o).2.denotes := by
      intro d
      unfold winVdeskMoveWindow
      split
      · exact fun _ _ => rfl
      · split
        · exact fun _ _ => rfl
        · exact hkeeps hwnd d.iface
    refine ⟨fun d => ?_, fun d => ?_⟩
    · simp only [vdeskMoveWindow]
      split <;> exact hmove d
    · simp only [vdeskMoveWindow]
      split <;> rfl

theorem vdeskSize_tame (work : Option Rect) : Tame t sh (vdeskSize sh work) := by
  cases work <;> exact ⟨fun _ _ _ => rfl, fun _ => rfl⟩

end Bodies

section Methods

variable {s : Session} {issued : List (GUID × VDeskTable)} {seen : List DesktopElement}
  {id : GUID} {table : VDeskTable} {arr : Option (List DesktopElement)} {sh : Shell}

/-- After the refresh of a method. -/
theorem Linked.refreshed (h : Linked s issued seen)
    (hReads : RefreshReads s.shell.denotes s.lua.target arr sh.denotes)
    (hFresh : RefreshFresh s.lua.target arr) :
    Linked (s.refreshed arr sh) issued (seen ++ arr.getD []) where
  tables := (h.tables.mono (arr.getD [])).grow
    (refresh_grows hFresh fun _ he => List.mem_append_right _ he)
  held := h.held
  stands := refresh_stands h.stands hReads

/-- A refresh that fails leaves a method nothing to act on. -/
theorem Session.method_failed (hfail : (refresh s.lua.target arr).1 ≠ .ok)
    (body : VDesktop → Shell × SessionAnswer) :
    s.method table arr sh body = (s.refreshed arr sh, .raised desktopGone) := by
  have hnone : methodVdesk s.lua.target arr table = none := by
    simp [methodVdesk, checkedVdesk, winGetVdesk, hfail]
  simp only [Session.method, hnone]

/-- **A method** of a table that was issued for the desktop `id` acts on the record of that
desktop, through an interface that stands for it. -/
theorem Linked.method (h : Linked s issued seen) (hp : (id, table) ∈ issued)
    (hReads : RefreshReads s.shell.denotes s.lua.target arr sh.denotes)
    (hFresh : RefreshFresh s.lua.target arr) (hok : (refresh s.lua.target arr).1 = .ok)
    (body : VDesktop → Shell × SessionAnswer) :
    ∃ d ∈ (refresh s.lua.target arr).2.items, d.id = id ∧ sh.denotes d.iface = some id ∧
      s.method table arr sh body = ({ s.refreshed arr sh with shell := (body d).1 },
        (body d).2) := by
  have hthen := h.refreshed hReads hFresh
  obtain ⟨d, hd, haddr, hid⟩ := hthen.tables.record hp
  have hdenotes : sh.denotes d.iface = some d.id := hthen.stands d hd
  have hfind : (refresh s.lua.target arr).2.items.find? (·.addr = table.vdesk) = some d :=
    find?_keyed hthen.tables.sound.addrs hd haddr
  have hany : (winGetVdesk s.lua.target arr).1.any (·.addr = table.vdesk) = true := by
    rw [winGetVdesk, hok, List.any_eq_true]
    exact ⟨d, hd, by simpa using haddr⟩
  have hmethod : methodVdesk s.lua.target arr table = some d := by
    simp only [methodVdesk, checkedVdesk, hany, if_true, Option.bind_some]
    exact hfind
  refine ⟨d, hd, hid, by rw [hdenotes, hid], ?_⟩
  simp only [Session.method, hmethod]

theorem Linked.of_method (h : Linked s issued seen) (hmay : s.MayCall table arr sh)
    {body : VDesktop → Shell × SessionAnswer}
    (hbody : Tame (refresh s.lua.target arr).2 sh body) :
    Linked (s.method table arr sh body).1 (issued ++ (s.method table arr sh body).2.issued)
      (seen ++ arr.getD []) := by
  have hthen := h.refreshed hmay.reads hmay.fresh
  cases hfound : methodVdesk s.lua.target arr table with
  | none =>
    simp only [Session.method, hfound]
    rw [show (SessionAnswer.raised desktopGone).issued = [] from rfl, List.append_nil]
    exact hthen
  | some d =>
    simp only [Session.method, hfound, hbody.issued d, List.append_nil]
    exact ⟨hthen.tables, hthen.held, hthen.stands.keeps (hbody.keeps d)⟩

end Methods

/-- What the script holds after a call was held before or is returned. -/
theorem held_after {s : LuaDesktops} {call : DesktopCall} {table : VDeskTable}
    (h : table ∈ (s.step call).1.held) :
    table ∈ s.held ∨ ∃ id, (id, table) ∈ (s.step call).2 := by
  have hpushed : ∀ t records gc,
      table ∈ (pushSpan { s with target := t } gc [] records).2.held ++
        (pushSpan { s with target := t } gc [] records).1.map (·.2) →
      table ∈ s.held ∨
        ∃ id, (id, table) ∈ (pushSpan { s with target := t } gc [] records).1 := by
    intro t records gc hmem
    rw [pushSpan_held, List.mem_append, List.mem_map] at hmem
    rcases hmem with hmem | ⟨p, hp, rfl⟩
    · exact Or.inl hmem
    · exact Or.inr ⟨p.1, hp⟩
  cases call with
  | forget dropped => exact Or.inl (List.mem_filter.mp h).1
  | collect cleared => exact Or.inl h
  | list arr gc => exact hpushed _ _ _ h
  | current o gc => exact hpushed _ _ _ h
  | create created arr span gc => exact hpushed _ _ _ h
  | refresh arr => exact hpushed _ _ _ h

section Runs

variable {s : Session} {issued : List (GUID × VDeskTable)} {seen : List DesktopElement}

/-- **One step** of a session. -/
theorem Linked.step (h : Linked s issued seen) {step : SessionStep} (hadm : step.Admitted s) :
    Linked (s.step step).1 (issued ++ (s.step step).2.issued) (seen ++ step.elements) := by
  cases step with
  | shell sh =>
    rw [show (s.step (.shell sh)).2.issued = [] from rfl, List.append_nil]
    exact ⟨h.tables.mono [], h.held, h.stands.keeps hadm⟩
  | call call sh =>
    refine ⟨h.tables.step hadm.2, ?_, ?_⟩
    · intro table hmem
      rcases held_after hmem with hmem | ⟨id, hmem⟩
      · obtain ⟨id, hid⟩ := h.held table hmem
        exact ⟨id, List.mem_append_left _ hid⟩
      · exact ⟨id, List.mem_append_right _ hmem⟩
    · show StandsFor sh.denotes (s.lua.step call).1.target
      rw [(step_pushes s.lua call).2]
      exact DesktopCall.records_stand h.stands hadm.1
  | switch table arr sh o => exact h.of_method hadm.1 (vdeskSwitch_tame _ sh hadm.2)
  | windows table arr sh vdm curRead o => exact h.of_method hadm (vdeskWindows_tame _ sh ..)
  | moveWindow table arr sh handle o =>
    exact h.of_method hadm.1 (vdeskMoveWindow_tame _ sh handle hadm.2)
  | size table arr sh work => exact h.of_method hadm (vdeskSize_tame _ sh work)

/-- A run whose steps are all admitted. -/
def AdmittedRun (s : Session) (steps : List SessionStep) : Prop :=
  AtEachStep Session.step (fun s step _ => step.Admitted s) s steps

/-- The tables that a session gives to the script, with the ids of their desktops. -/
def sessionTables (sh : Shell) (steps : List SessionStep) : List (GUID × VDeskTable) :=
  (outputs Session.step (.init sh) steps).flatMap (·.issued)

theorem Linked.run (h : Linked s issued seen) {steps : List SessionStep}
    (hadm : AdmittedRun s steps) :
    Linked (final Session.step s steps)
      (issued ++ (outputs Session.step s steps).flatMap (·.issued))
      (seen ++ steps.flatMap SessionStep.elements) := by
  induction steps generalizing s issued seen with
  | nil => simpa using h
  | cons step steps ih =>
    rw [AdmittedRun, atEachStep_cons] at hadm
    have hrest := ih (h.step hadm.1) hadm.2
    rw [List.append_assoc, List.append_assoc] at hrest
    exact hrest

theorem linked_run (sh : Shell) {steps : List SessionStep} (hadm : AdmittedRun (.init sh) steps) :
    Linked (final Session.step (.init sh) steps) (sessionTables sh steps)
      (steps.flatMap SessionStep.elements) := by
  have hstart : Linked (.init sh) [] [] :=
    ⟨tables_init, fun _ h => absurd h List.not_mem_nil, fun _ h => absurd h List.not_mem_nil⟩
  exact hstart.run hadm

theorem AdmittedRun.before {past : List SessionStep} {step : SessionStep}
    {rest : List SessionStep} (h : AdmittedRun s (past ++ step :: rest)) :
    AdmittedRun s past ∧ step.Admitted (final Session.step s past) := by
  refine ⟨?_, h past step rest rfl⟩
  intro past' step' rest' hsplit
  exact h past' step' (rest' ++ step :: rest) (by rw [hsplit]; simp)

theorem AdmittedRun.concat {past : List SessionStep} {step : SessionStep}
    (h : AdmittedRun s past) (hstep : step.Admitted (final Session.step s past)) :
    AdmittedRun s (past ++ [step]) := by
  intro past' step' rest hsplit
  rcases List.eq_nil_or_concat rest with rfl | ⟨rest, last, rfl⟩
  · obtain ⟨rfl, hlast⟩ := List.append_inj' hsplit rfl
    cases hlast
    exact hstep
  · rw [List.concat_eq_append, ← List.cons_append, ← List.append_assoc] at hsplit
    obtain ⟨hpast, -⟩ := List.append_inj' hsplit rfl
    exact h past' step' rest hpast

end Runs

-- ----------------------------------------------------------------------------
-- Switching
-- ----------------------------------------------------------------------------

section Switch

variable {sh : Shell} {d : VDesktop} {id : GUID}

/-- What `vdesk_switch` makes of the answer of `SwitchDesktop`. -/
theorem vdeskSwitch_eq (sh : Shell) (o : SwitchOutcome) (d : VDesktop) :
    vdeskSwitch sh o d = ((o.switchDesktop d.iface).shell,
      if (o.switchDesktop d.iface).succeeded = true then
        { SessionAnswer.nothing with
          event := notifyVdeskChanged o.registered o.made (some d) .managed }
      else .raised "uniwm: switch failed") := by
  cases hswitch : (o.switchDesktop d.iface).succeeded <;>
    simp [vdeskSwitch, wmVdesktopSwitch, winVdeskOpen, hswitch]

/-- A switch raises no error exactly if `SwitchDesktop` succeeds. -/
theorem vdeskSwitch_error_iff (sh : Shell) (o : SwitchOutcome) (d : VDesktop) :
    (vdeskSwitch sh o d).2.error = none ↔ (o.switchDesktop d.iface).succeeded = true := by
  rw [vdeskSwitch_eq]
  cases (o.switchDesktop d.iface).succeeded with
  | false => exact iff_of_false (Option.some_ne_none _) Bool.false_ne_true
  | true => exact iff_of_true rfl rfl

/-- What a switch did: it asked for the desktop `id` through an interface that stands for it. -/
structure Switched (sh : Shell) (o : SwitchOutcome) (id : GUID) (out : Session × SessionAnswer)
    (iface : IVirtualDesktop) : Prop where
  denotes : sh.denotes iface = some id
  shell : out.1.shell = (o.switchDesktop iface).shell
  error_iff : out.2.error = none ↔ (o.switchDesktop iface).succeeded = true
  silent : out.2.error ≠ none → out.2.event = none

/-- One switch, from a state in which the tables stand for their desktops. -/
theorem Linked.switch {s : Session} {issued : List (GUID × VDeskTable)}
    {seen : List DesktopElement} {table : VDeskTable} {arr : Option (List DesktopElement)}
    (h : Linked s issued seen) (hissued : (id, table) ∈ issued) (hmay : s.MayCall table arr sh)
    (o : SwitchOutcome) :
    let out := s.step (.switch table arr sh o)
    ((refresh s.lua.target arr).1 ≠ .ok →
        out.2.error ≠ none ∧ out.2.event = none ∧ out.1.shell = sh) ∧
      ((refresh s.lua.target arr).1 = .ok → ∃ iface, Switched sh o id out iface) := by
  intro out
  refine ⟨fun hfail => ?_, fun hok => ?_⟩
  -- `checked_vdesk` raises its error
  · have hout : out = _ := Session.method_failed hfail (vdeskSwitch sh o)
    rw [hout]
    exact ⟨Option.some_ne_none _, rfl, rfl⟩
  · obtain ⟨d, -, -, hd, hmethod⟩ := h.method hissued hmay.reads hmay.fresh hok (vdeskSwitch sh o)
    have hout : out = _ := hmethod
    refine ⟨d.iface, hd, ?_, ?_, ?_⟩
    · rw [hout, vdeskSwitch_eq]
    · rw [hout]
      exact vdeskSwitch_error_iff sh o d
    · intro herror
      rw [hout] at herror ⊢
      rw [ne_eq, vdeskSwitch_error_iff] at herror
      rw [vdeskSwitch_eq, if_neg herror]
      rfl

end Switch

/-- A shell with the desktops 1 and 2, the first of them the current one. -/
def twoShell : Shell where
  desktops := [⟨1, some "work"⟩, ⟨2, some "work"⟩]
  current := 1
  windows := []
  denotes iface := if iface = 11 then some 1 else if iface = 12 then some 2 else none
  ids_nodup := by decide
  current_mem := by decide
  hwnds_nodup := by decide

theorem readFrom_showsTwo (t : Target) :
    RefreshReads twoShell.denotes t showsTwo twoShell.denotes := by
  refine readFrom_same ?_
  intro e he vd hvd
  rcases List.mem_cons.mp he with rfl | he
  · cases hvd
    rfl
  · rw [List.mem_singleton.mp he] at hvd ⊢
    cases hvd
    rfl

/-- `GetDesktops` gives the desktops of the shell, and each can be read. -/
def Enumerates (sh : Shell) (arr : Option (List DesktopElement)) : Prop :=
  ∃ elements, arr = some elements ∧ (∀ e ∈ elements, e.vd.isSome = true) ∧
    elements.map (fun e => (e.id, e.name)) = sh.desktops.map fun d => (d.id, d.name)

theorem shownIds_of_enumerates {sh : Shell} {elements : List DesktopElement}
    (h : Enumerates sh (some elements)) : shownIds elements = sh.desktops.map (·.id) := by
  obtain ⟨_, ⟨⟩, hreadable, hsame⟩ := h
  have hfst := congrArg (List.map Prod.fst) hsame
  rw [List.map_map, List.map_map] at hfst
  rw [shownIds_eq hreadable]
  exact hfst

/-- What a switch enumerates are the desktops that the shell has, and `SwitchDesktop` does what it
is called for. -/
def SessionStep.Shown : SessionStep → Prop
  | switch _ arr sh o => Enumerates sh arr ∧ OpensDesktops sh o.switchDesktop
  | _ => True

section Events

variable {sh : Shell} {id : GUID}

end Events

theorem enumerates_two : Enumerates twoShell showsTwo :=
  ⟨_, rfl, by simp [namedDesktop], rfl⟩

section Current

variable {s : LuaDesktops} {live : List VDeskTable} {issued : List (GUID × VDeskTable)}
  {seen : List DesktopElement} {id : GUID} {table : VDeskTable}

end Current

end Uniwm
