import Uniwm.Base.Newcomers
import Uniwm.Windows.Mute

/-!
# uniwm — windows that come and go, in polling mode

Every eighth tick of the main loop enumerates the windows and reports what changed. The
watcher stores no snapshot: a poll compares the enumeration with the registry
(`pollWindows_spec`), so it reports the difference to the previous enumeration as long
as the registry is that enumeration.

The registry only grows: the release queued for a destroyed window releases nothing
(`Uniwm.Windows.Release`), so it holds every window ever shown. Hence
`polls_report_difference_iff`: all polls of a run report the difference to the previous
one exactly if every window ever shown was shown by the last enumeration before each
poll, that is, if no window has gone before the last poll. In `polls_repeat_destroyed` a
window that went is reported as destroyed again by the next poll. Without the event group
(`Uniwm.Windows.Mute`) the polls report nothing, which is right if there is no difference.
-/

namespace Uniwm

open Base

variable {keyMax : Nat}

/-! ## One poll -/

/-- Every call made for the visit succeeds. -/
structure Visit.Succeeds (v : Visit) : Prop where
  identity : v.identity.isSome = true
  seenGrown : v.seenGrown = true
  listGrown : v.listGrown = true

/-- The registered identities. -/
def Input.identities (s : Input keyMax) : List Identity := s.watch.list.map (·.identity)

section Poll

variable {s : Input keyMax} {v : Visit}

/-- A firing visit registers and reports an identity that had no entry. -/
theorem visit_succeeds (hwm : s.wm = true) (hreg : s.registered = true) (hv : v.Succeeds)
    {x : Identity} (hx : v.identity = some x) (seen : List Identity) :
    ∃ s' : Input keyMax, windowVisit true (s, seen) v = (s', seen ++ [x]) ∧
      s'.flags = s.flags ∧
      s'.identities = s.identities ++ newcomers s.identities [x] ∧
      s'.queue = s.queue ++ (newcomers s.identities [x]).map (windowEvent · .created) := by
  cases hfind : findWindow s.watch.list x with
  | some w =>
    -- an identity with an entry: its reference is given back, nothing is pushed
    have hmem : x ∈ s.identities := by
      have hsome := findWindow_some hfind
      exact List.mem_map.mpr ⟨w, hsome.1, hsome.2⟩
    refine ⟨s.unref v.window, by simp [windowVisit, hx, hfind, hv.seenGrown], rfl, ?_, ?_⟩
    · rw [newcomers_cons_of_mem hmem, newcomers_nil, List.append_nil]
      rfl
    · rw [newcomers_cons_of_mem hmem]
      simp
  | none =>
    -- a newcomer: an entry and one event
    have hmem : x ∉ s.identities := findWindow_eq_none_iff.mp hfind
    refine ⟨emitWindowEvent (s.setList (s.watch.list ++ [⟨x, v.window, true⟩])) x .created,
      ?_, flags_framed.emit .., ?_, ?_⟩
    · simp [windowVisit, hx, hfind, hv.seenGrown, hv.listGrown, registerWindowRef]
    · rw [newcomers_cons_of_not_mem hmem, newcomers_nil, Input.identities, emitWindowEvent_watch]
      simp [Input.identities]
    · have hemit := emitWindowEvent_eq (s := s.setList (s.watch.list ++ [⟨x, v.window, true⟩]))
        hwm hreg (by decide : WindowChange.created ≠ .opened) x
      rw [newcomers_cons_of_not_mem hmem, newcomers_nil, hemit]
      rfl

theorem visits_succeed {visits : List Visit} (hvisits : ∀ v ∈ visits, v.Succeeds)
    (hwm : s.wm = true) (hreg : s.registered = true) (seen : List Identity) :
    (visits.foldl (windowVisit true) (s, seen)).1.identities =
        s.identities ++ newcomers s.identities (visited visits) ∧
      (visits.foldl (windowVisit true) (s, seen)).1.queue =
        s.queue ++ (newcomers s.identities (visited visits)).map (windowEvent · .created) ∧
      (visits.foldl (windowVisit true) (s, seen)).2 = seen ++ visited visits := by
  induction visits generalizing s seen with
  | nil => simp [visited]
  | cons v visits ih =>
    rw [List.forall_mem_cons] at hvisits
    obtain ⟨x, hx⟩ := Option.isSome_iff_exists.mp hvisits.1.identity
    obtain ⟨s', hvisit, hflags, hlist, hqueue⟩ := visit_succeeds hwm hreg hvisits.1 hx seen
    have hkept := flagsKept hflags
    have hrest := ih (s := s') hvisits.2 (hkept.wm.trans hwm) (hkept.registered.trans hreg)
      (seen ++ [x])
    have hvisited : visited (v :: visits) = x :: visited visits := by
      simp [visited, hx]
    rw [List.foldl_cons, hvisit, hvisited]
    rw [hlist, hqueue] at hrest
    -- the identities after this visit are what the rest of the enumeration meets
    by_cases hmem : x ∈ s.identities
    · rw [newcomers_cons_of_mem hmem, newcomers_nil] at hrest
      rw [newcomers_cons_of_mem hmem]
      simpa using hrest
    · rw [newcomers_cons_of_not_mem hmem, newcomers_nil] at hrest
      rw [newcomers_cons_of_not_mem hmem]
      simpa using hrest

/-- The sweep reports the registered identities that were not seen. -/
theorem sweepDestroyed_spec (hwm : s.wm = true) (hreg : s.registered = true)
    (seen : List Identity) :
    (sweepDestroyed seen s).watch = s.watch ∧
      (sweepDestroyed seen s).queue =
        s.queue ++ (s.identities.filter (· ∉ seen)).map (windowEvent · .destroyed) := by
  unfold sweepDestroyed Input.identities
  generalize s.watch.list = l
  induction l generalizing s with
  | nil => simp
  | cons w l ih =>
    rw [List.foldl_cons]
    -- a window that was seen is passed over, another one reported
    by_cases hmem : w.identity ∈ seen
    · rw [if_pos hmem]
      simpa [hmem] using ih hwm hreg
    · rw [if_neg hmem,
        emitWindowEvent_eq hwm hreg (by decide : WindowChange.destroyed ≠ .opened)]
      simpa [hmem] using ih (s := { s with
        queue := s.queue ++ [windowEvent w.identity .destroyed] }) hwm hreg

/-- **One poll.** The enumerated windows that had no entry are registered and reported
as created; then the registered ones that were not enumerated are reported as
destroyed. -/
theorem pollWindows_spec {visits : List Visit} (hvisits : ∀ v ∈ visits, v.Succeeds)
    (hwm : s.wm = true) (hreg : s.registered = true) :
    (pollWindows true visits s).identities =
        s.identities ++ newcomers s.identities (visited visits) ∧
      (pollWindows true visits s).queue =
        s.queue ++ (newcomers s.identities (visited visits)).map (windowEvent · .created) ++
          (s.identities.filter (· ∉ visited visits)).map (windowEvent · .destroyed) := by
  obtain ⟨hlist, hqueue, hseen⟩ := visits_succeed hvisits hwm hreg []
  have hkept := flagsKept (visits_flags true visits (s, []))
  obtain ⟨hwatch, hswept⟩ := sweepDestroyed_spec (hkept.wm.trans hwm) (hkept.registered.trans hreg)
    (visits.foldl (windowVisit true) (s, [])).2
  rw [pollWindows_firing hwm]
  refine ⟨by rw [Input.identities, hwatch]; exact hlist, ?_⟩
  -- newcomers are seen, so the sweep passes over them
  have hnew : (newcomers s.identities (visited visits)).filter (· ∉ visited visits) = [] := by
    rw [List.filter_eq_nil_iff]
    intro x hx
    simpa using (mem_newcomers.mp hx).1
  rw [hswept, hqueue, hseen, hlist, List.nil_append, List.filter_append, hnew, List.append_nil]

end Poll

/-! ## What a run has shown -/

/-- The windows shown by the last enumeration, and by all enumerations so far. -/
structure Shown where
  last : List Identity
  ever : List Identity

/-- The windows that a step enumerates, if it is a tick that polls. -/
def Step.polls (s : System keyMax) : Step → Option (List Identity)
  | .tick visits =>
    if s.input.watch.poll && s.input.windowPollTick % windowPollTicks = 0 then
      some (visited visits) else none
  | _ => none

/-- The system with a record of what its enumerations have shown. -/
def observe (st : System keyMax × Shown) (i : Step) : (System keyMax × Shown) × Answer :=
  (((st.1.step i).1,
    match i.polls st.1 with
    | some shown => ⟨shown, st.2.ever ++ shown⟩
    | none => st.2), (st.1.step i).2)

/-- The events are one creation for each window in `after` only, and one destruction for
each in `before` only. -/
def ReportsDifference (before after : List Identity) (emitted : List WMEvent) : Prop :=
  emitted.Perm ((after.dedup.filter (· ∉ before)).map (windowEvent · .created) ++
    (before.dedup.filter (· ∉ after)).map (windowEvent · .destroyed))

/-- A poll reports the difference to the last enumeration; no other step reports a
window. -/
def ReportsRight (st : System keyMax × Shown) (i : Step) : Prop :=
  match i.polls st.1 with
  | some shown => ReportsDifference st.2.last shown (st.1.step i).2.emitted
  | none => ∀ event ∈ (st.1.step i).2.emitted, ∀ x change, event ≠ windowEvent x change

/-- At a poll, every window ever shown was there at the last enumeration. (Identity `0`,
which no window has, is the one that the failing release does release.) -/
def NoneGone (st : System keyMax × Shown) (i : Step) : Prop :=
  (i.polls st.1).isSome = true → ∀ x ∈ st.2.ever, x ≠ 0 → x ∈ st.2.last

/-- At a poll, the windows there are those of the last enumeration. -/
def NothingNew (st : System keyMax × Shown) (i : Step) : Prop :=
  ∀ shown, i.polls st.1 = some shown → ∀ x, x ∈ shown ↔ x ∈ st.2.last

/-- The watcher has started without hooks; every call in the enumeration succeeded. -/
structure StartsPolling (o : EnsureOutcome) (s : System keyMax) : Prop where
  starts : Starts o s
  polling : s.input.watch.poll = true
  succeeds : ∀ v ∈ o.visits, v.Succeeds

/-- A step without notifications and with successful enumerations only. -/
def Step.PollsOnly : Step → Prop
  | .notify .. => False
  | .tick visits => ∀ v ∈ visits, v.Succeeds
  | _ => True

/-- The main loop ticks only when no event is left to handle. -/
def DrainedTicks (s : System keyMax) (steps : List Step) : Prop :=
  AtEachStep System.step
    (fun s st _ => (∃ visits, st = .tick visits) → s.input.queue = []) s steps

/-! ## Reports and the registry -/

theorem windowEvent_inj {x y : Identity} {change change' : WindowChange}
    (h : windowEvent x change = windowEvent y change') :
    x = y ∧ uniwmEventOf change = uniwmEventOf change' := by
  have hid := congrArg (fun event : WMEvent => event.raw.objectAsU64 "window_id") h
  simp only [windowEvent_id] at hid
  exact ⟨hid, (WMEvent.uniwm.inj h).1⟩

theorem created_mem_iff {x : Identity} {as bs : List Identity} :
    windowEvent x .created ∈ as.map (windowEvent · .created) ++ bs.map (windowEvent · .destroyed) ↔
      x ∈ as := by
  rw [List.mem_append, List.mem_map, List.mem_map]
  constructor
  · rintro (⟨y, hy, h⟩ | ⟨y, -, h⟩)
    · exact (windowEvent_inj h).1 ▸ hy
    · cases (windowEvent_inj h).2
  · exact fun h => Or.inl ⟨x, h, rfl⟩

theorem destroyed_mem_iff {x : Identity} {as bs : List Identity} :
    windowEvent x .destroyed ∈
        as.map (windowEvent · .created) ++ bs.map (windowEvent · .destroyed) ↔ x ∈ bs := by
  rw [List.mem_append, List.mem_map, List.mem_map]
  constructor
  · rintro (⟨y, -, h⟩ | ⟨y, hy, h⟩)
    · cases (windowEvent_inj h).2
    · exact (windowEvent_inj h).1 ▸ hy
  · exact fun h => Or.inr ⟨x, h, rfl⟩

/-- A poll reports the difference to `before` exactly if the registry is `before`. -/
theorem reportsDifference_iff {registry before after : List Identity} (hNodup : registry.Nodup) :
    ReportsDifference before after ((newcomers registry after).map (windowEvent · .created) ++
        (registry.filter (· ∉ after)).map (windowEvent · .destroyed)) ↔
      ∀ x, x ∈ registry ↔ x ∈ before := by
  constructor
  · intro hPerm x
    -- each window is told by the events about it: one that is there now by its creation,
    -- one that is not by its destruction
    by_cases hx : x ∈ after
    · have hcreated := hPerm.mem_iff (a := windowEvent x .created)
      rw [created_mem_iff, created_mem_iff, mem_newcomers, List.mem_filter, List.mem_dedup,
        decide_eq_true_eq] at hcreated
      simpa [hx, not_iff_not] using hcreated
    · have hdestroyed := hPerm.mem_iff (a := windowEvent x .destroyed)
      rw [destroyed_mem_iff, destroyed_mem_iff, List.mem_filter, List.mem_filter,
        List.mem_dedup] at hdestroyed
      simpa [hx] using hdestroyed
  · intro hsame
    refine List.Perm.append ((newcomers_perm hNodup fun x _ => hsame x).map _) (List.Perm.map _ ?_)
    rw [List.perm_ext_iff_of_nodup (hNodup.filter _) (before.nodup_dedup.filter _)]
    intro y
    rw [List.mem_filter, List.mem_filter, List.mem_dedup, hsame y]

/-- To report nothing is right if there is no difference. -/
theorem reportsDifference_nil {before after : List Identity} :
    ReportsDifference before after [] ↔ ∀ x, x ∈ after ↔ x ∈ before := by
  rw [ReportsDifference, List.nil_perm, List.append_eq_nil_iff, List.map_eq_nil_iff,
    List.map_eq_nil_iff, List.filter_eq_nil_iff, List.filter_eq_nil_iff]
  constructor
  · rintro ⟨hcreated, hdestroyed⟩ x
    constructor
    · intro hx
      simpa using hcreated x (List.mem_dedup.mpr hx)
    · intro hx
      simpa using hdestroyed x (List.mem_dedup.mpr hx)
  · intro hsame
    refine ⟨fun x hx => ?_, fun x hx => ?_⟩
    · simpa using (hsame x).mp (List.mem_dedup.mp hx)
    · simpa using (hsame x).mpr (List.mem_dedup.mp hx)

/-! ## Invariants of a polling run -/

/-- The watcher polls, and apart from identity `0` its registry is all that was ever
shown. -/
structure PollInv (s : System keyMax) (shown : Shown) : Prop where
  flags : s.input.flags = (true, true, true, true)
  watchInv : WatchInv (fun _ => True) s.input
  ever : ∀ x ≠ 0, x ∈ s.input.identities ↔ x ∈ shown.ever
  last_ever : ∀ x ∈ shown.last, x ∈ shown.ever

/-- A window that was shown is missing from the last enumeration. -/
def Gone (shown : Shown) : Prop := ∃ x ∈ shown.ever, x ≠ 0 ∧ x ∉ shown.last

/-- The queue holds a destruction still to be handled. -/
def DestructionQueued (s : Input keyMax) : Prop :=
  ∃ event ∈ s.queue, event.type = .uniwm .windowDestroyed

/-- Identity `0` is registered if it was shown last, or is about to be released. -/
structure ZeroSettled (s : System keyMax) (shown : Shown) : Prop where
  queued : DestructionQueued s.input → 0 ∉ shown.last
  registered : 0 ∈ s.input.identities → 0 ∈ shown.last ∨ DestructionQueued s.input
  shown : 0 ∈ shown.last → 0 ∈ s.input.identities

section Run

variable {s : System keyMax} {shown : Shown}

theorem PollInv.fields (hs : PollInv s shown) : s.input.wm = true ∧ s.input.registered = true ∧
    s.input.watch.active = true ∧ s.input.watch.poll = true := by
  simpa [Input.flags] using hs.flags

/-- With nothing queued and no window gone, the registry is the last enumeration. -/
theorem PollInv.same (hs : PollInv s shown) (hGone : ¬ Gone shown) (hZero : ZeroSettled s shown)
    (hEmpty : s.input.queue = []) (x : Identity) :
    x ∈ s.input.identities ↔ x ∈ shown.last := by
  -- identity `0` is the one that a queued destruction releases
  by_cases hx : x = 0
  · subst hx
    constructor
    · intro hmem
      rcases hZero.registered hmem with hlast | ⟨event, hevent, -⟩
      · exact hlast
      · simp [hEmpty] at hevent
    · exact hZero.shown
  · rw [hs.ever x hx]
    constructor
    · intro hever
      by_contra hlast
      exact hGone ⟨x, hever, hx, hlast⟩
    · exact hs.last_ever x

theorem PollInv.keep (hs : PollInv s shown) {st : Step}
    (hflags : (s.step st).1.input.flags = s.input.flags)
    (hidentities : ∀ x ≠ 0, x ∈ (s.step st).1.input.identities ↔ x ∈ s.input.identities) :
    PollInv (s.step st).1 shown := by
  have hadmits : st.Admits (fun _ => True) := by
    cases st <;> simp [Step.Admits]
  exact ⟨hflags.trans hs.flags, hs.watchInv.step hadmits,
    fun x hx => (hidentities x hx).trans (hs.ever x hx), hs.last_ever⟩

theorem ZeroSettled.keep (hZero : ZeroSettled s shown) {s' : System keyMax}
    (hidentities : s'.input.identities = s.input.identities)
    (hqueue : DestructionQueued s'.input ↔ DestructionQueued s.input) : ZeroSettled s' shown :=
  ⟨fun h => hZero.queued (hqueue.mp h),
    fun h => (hZero.registered (hidentities ▸ h)).imp id hqueue.mpr,
    fun h => hidentities ▸ hZero.shown h⟩

theorem handleEvent_identities (cbs : Callbacks) {s : Input keyMax} {event : WMEvent}
    {queue : List WMEvent} (hq : s.queue = event :: queue) (hreg : s.registered = true)
    (hinv : WatchInv (fun _ => True) s) :
    (handleEvent cbs s).identities =
      if event.type = .uniwm .windowDestroyed then s.identities.erase 0 else s.identities := by
  obtain ⟨s', heq, hwatch, hreg'⟩ := handleEvent_popped cbs hq
  rw [heq]
  -- the payload of a destruction reads as `0`
  by_cases hevent : event.type = .uniwm .windowDestroyed
  · have hpayload := hinv.payload event (hq ▸ List.mem_cons_self ..) hevent
    rw [releaseDestroyedWindow_destroyed (hreg'.trans hreg) hevent, if_pos hevent,
      Input.identities, unregisterWindow_list, map_identity_erase, hwatch, hpayload]
    rfl
  · rw [if_neg hevent]
    rcases releaseDestroyedWindow_cases s' event with heq | ⟨htype, -⟩
    · rw [heq, Input.identities, hwatch]
      rfl
    · exact absurd htype hevent

/-- The step reports no window and keeps the invariants. -/
structure StepsIdly (s : System keyMax) (shown : Shown) (st : Step) : Prop where
  inv : PollInv (s.step st).1 shown
  zero : ZeroSettled s shown → ZeroSettled (s.step st).1 shown
  silent : ∀ event ∈ (s.step st).2.emitted, ∀ x change, event ≠ windowEvent x change

/-- A step that only changes the statics outside list and queue. -/
theorem PollInv.same_step (hs : PollInv s shown) {st : Step}
    (hflags : (s.step st).1.input.flags = s.input.flags)
    (hlist : (s.step st).1.input.watch.list = s.input.watch.list)
    (hqueue : (s.step st).1.input.queue = s.input.queue) : StepsIdly s shown st := by
  have hidentities : (s.step st).1.input.identities = s.input.identities := by
    rw [Input.identities, hlist, Input.identities]
  refine ⟨hs.keep hflags fun x _ => by rw [hidentities], fun hZero =>
    hZero.keep hidentities (by rw [DestructionQueued, hqueue, DestructionQueued]), ?_⟩
  intro event hevent
  have hemitted : (s.step st).2.emitted = [] := by
    show (s.step st).1.input.queue.drop s.input.queue.length = []
    rw [hqueue, List.drop_length]
  simp [hemitted] at hevent

/-- Handling takes the head of the queue, and may release identity `0`. -/
theorem PollInv.handle_step (hs : PollInv s shown) (cbs : Callbacks) :
    StepsIdly s shown (.handle cbs) := by
  have hnone : (s.step (.handle cbs)).2.emitted = [] := by
    show (handleEvent cbs s.input).queue.drop s.input.queue.length = []
    rw [handleEvent_queue, List.drop_eq_nil_of_le (by simp)]
  refine ⟨hs.keep (handleEvent_flags ..) fun x hx => ?_, ?_, by simp [hnone]⟩
  · show x ∈ (handleEvent cbs s.input).watch.list.map (·.identity) ↔ _
    rw [← not_iff_not, ← findWindow_eq_none_iff, handleEvent_findWindow hs.watchInv hx,
      findWindow_eq_none_iff]
    rfl
  · intro hZero
    cases hq : s.input.queue with
    | nil =>
      have hinput : (s.step (.handle cbs)).1.input = s.input := by
        show handleEvent cbs s.input = s.input
        simp only [handleEvent, hq]
      exact hZero.keep (by rw [hinput]) (by rw [hinput])
    | cons event queue =>
      have hqueue : (s.step (.handle cbs)).1.input.queue = queue :=
        (handleEvent_queue cbs s.input).trans (by rw [hq, List.tail_cons])
      have hidentities : (s.step (.handle cbs)).1.input.identities = _ :=
        handleEvent_identities cbs hq hs.fields.2.1 hs.watchInv
      -- a destruction at the head releases identity `0`, any other event nothing
      by_cases htype : event.type = .uniwm .windowDestroyed
      · have hqueued : DestructionQueued s.input :=
          ⟨event, hq ▸ List.mem_cons_self .., htype⟩
        have hreleased : 0 ∉ (s.step (.handle cbs)).1.input.identities := by
          rw [hidentities, if_pos htype]
          exact hs.watchInv.nodup.not_mem_erase
        exact ⟨fun _ => hZero.queued hqueued, fun h => absurd h hreleased,
          fun h => absurd h (hZero.queued hqueued)⟩
      · refine hZero.keep (by rw [hidentities, if_neg htype]) ?_
        simp [DestructionQueued, hqueue, hq, htype]

/-- A keyboard event is queued, and it is no window event. -/
theorem PollInv.key_step (hs : PollInv s shown) (k : MCKey) (down : Bool) :
    StepsIdly s shown (.key k down) := by
  have hqueue : (s.step (.key k down)).1.input.queue =
      s.input.queue ++ [if down then WMEvent.globalKeyDown k else .globalKeyUp k] := rfl
  have hemitted : (s.step (.key k down)).2.emitted =
      [if down then WMEvent.globalKeyDown k else .globalKeyUp k] := by
    show (s.step (.key k down)).1.input.queue.drop s.input.queue.length = _
    rw [hqueue, List.drop_left]
  refine ⟨hs.keep rfl fun x _ => Iff.rfl, fun hZero => hZero.keep rfl ?_, ?_⟩
  · cases down <;> simp [DestructionQueued, hqueue, WMEvent.type, or_and_right, exists_or]
  · intro event hevent x change
    rw [hemitted, List.mem_singleton] at hevent
    subst hevent
    cases down <;> simp [windowEvent]

/-- A step that does not poll. -/
theorem PollInv.idle_step (hs : PollInv s shown) {st : Step} (hst : st.PollsOnly)
    (hpolls : st.polls s = none) : StepsIdly s shown st := by
  obtain ⟨hwm, hreg, hactive, hpoll⟩ := hs.fields
  have hadminister : ∀ st : Step, st.Administers → StepsIdly s shown st := by
    intro st hst
    have hinput := administer_input hwm hactive hst
    exact hs.same_step (by rw [hinput]) (by rw [hinput]) (by rw [hinput])
  cases st with
  | setDefault => exact hadminister _ trivial
  | process => exact hadminister _ trivial
  | processFini => exact hadminister _ trivial
  | ensure => exact hadminister _ trivial
  | notify => exact absurd hst id
  | tick visits =>
    -- a tick that does not poll counts
    have hidle : ¬ (s.input.watch.poll && decide (s.input.windowPollTick % windowPollTicks = 0)) =
        true := by
      intro hfires
      simp [Step.polls, hfires] at hpolls
    have hinput : (s.step (.tick visits)).1.input =
        { s.input with windowPollTick := s.input.windowPollTick + 1 } := by
      show wmTick visits s.input = _
      rw [wmTick, if_neg hidle]
    exact hs.same_step (by rw [hinput]; rfl) (by rw [hinput]) (by rw [hinput])
  | handle cbs => exact hs.handle_step cbs
  | key k down => exact hs.key_step k down

/-- What a poll leaves: it registers what it shows, and queues what is new and what is not
shown. -/
theorem PollInv.tick_polls (hs : PollInv s shown) {visits : List Visit}
    (hst : (Step.tick visits).PollsOnly)
    (hpolls : (Step.tick visits).polls s = some (visited visits)) (hEmpty : s.input.queue = []) :
    (s.step (.tick visits)).1.input.identities =
        s.input.identities ++ newcomers s.input.identities (visited visits) ∧
      (s.step (.tick visits)).1.input.queue =
        (newcomers s.input.identities (visited visits)).map (windowEvent · .created) ++
          (s.input.identities.filter (· ∉ visited visits)).map (windowEvent · .destroyed) := by
  obtain ⟨hwm, hreg, -, -⟩ := hs.fields
  have hfires : (s.input.watch.poll && decide (s.input.windowPollTick % windowPollTicks = 0)) =
      true := by
    by_contra hidle
    simp [Step.polls, hidle] at hpolls
  obtain ⟨hlist, hqueue⟩ := pollWindows_spec hst hwm hreg
  have hinput : (s.step (.tick visits)).1.input = { pollWindows true visits s.input with
      windowPollTick := (pollWindows true visits s.input).windowPollTick + 1 } := by
    show wmTick visits s.input = _
    rw [wmTick, if_pos hfires]
  rw [hEmpty, List.nil_append] at hqueue
  rw [hinput]
  exact ⟨hlist, hqueue⟩

/-- Unless a window has gone, a poll settles identity `0`. -/
theorem PollInv.poll_settles (hs : PollInv s shown) {visits : List Visit}
    (hst : (Step.tick visits).PollsOnly)
    (hpolls : (Step.tick visits).polls s = some (visited visits)) (hEmpty : s.input.queue = [])
    (hStay : ¬ Gone ⟨visited visits, shown.ever ++ visited visits⟩) :
    ZeroSettled (s.step (.tick visits)).1 ⟨visited visits, shown.ever ++ visited visits⟩ := by
  obtain ⟨hidentities, hqueue⟩ := hs.tick_polls hst hpolls hEmpty
  refine ⟨?_, ?_, ?_⟩
  · rintro ⟨event, hevent, htype⟩
    rw [hqueue, List.mem_append, List.mem_map, List.mem_map] at hevent
    rcases hevent with ⟨x, -, rfl⟩ | ⟨x, hx, rfl⟩
    · simp [windowEvent, WMEvent.type, uniwmEventOf] at htype
    · rw [List.mem_filter, decide_eq_true_eq] at hx
      -- a destruction of another window would mean that it has gone
      by_cases hx0 : x = 0
      · exact hx0 ▸ hx.2
      · exact absurd ⟨x, List.mem_append_left _ ((hs.ever x hx0).mp hx.1), hx0, hx.2⟩ hStay
  · intro hzero
    by_cases hshown : 0 ∈ visited visits
    · exact Or.inl hshown
    · right
      have hzero' : (0 : Identity) ∈ s.input.identities := by
        rw [hidentities, mem_append_newcomers] at hzero
        exact hzero.resolve_right hshown
      refine ⟨windowEvent 0 .destroyed, ?_, rfl⟩
      rw [hqueue, destroyed_mem_iff, List.mem_filter]
      exact ⟨hzero', by simpa using hshown⟩
  · intro hzero
    show 0 ∈ (s.step (.tick visits)).1.input.identities
    rw [hidentities]
    exact mem_append_newcomers.mpr (Or.inr hzero)

/-- A poll makes the registry grow by what it shows; unless a window has gone, identity
`0` is settled. -/
theorem PollInv.poll_step (hs : PollInv s shown) {visits : List Visit}
    (hst : (Step.tick visits).PollsOnly)
    (hpolls : (Step.tick visits).polls s = some (visited visits)) (hEmpty : s.input.queue = []) :
    PollInv (s.step (.tick visits)).1 ⟨visited visits, shown.ever ++ visited visits⟩ ∧
      (Gone ⟨visited visits, shown.ever ++ visited visits⟩ ∨
        ZeroSettled (s.step (.tick visits)).1 ⟨visited visits, shown.ever ++ visited visits⟩) ∧
      (ReportsDifference shown.last (visited visits) (s.step (.tick visits)).2.emitted ↔
        ∀ x, x ∈ s.input.identities ↔ x ∈ shown.last) := by
  obtain ⟨hidentities, hqueue⟩ := hs.tick_polls hst hpolls hEmpty
  refine ⟨⟨?_, hs.watchInv.step (by simp [Step.Admits]), fun x hx => ?_, fun x hx => ?_⟩, ?_, ?_⟩
  · exact (wmTick_flags visits s.input).trans hs.flags
  -- what was registered stays, what is shown is added
  · rw [hidentities, mem_append_newcomers, hs.ever x hx, List.mem_append]
  · exact List.mem_append_right _ hx
  · by_cases hGone : Gone ⟨visited visits, shown.ever ++ visited visits⟩
    · exact Or.inl hGone
    · exact Or.inr (hs.poll_settles hst hpolls hEmpty hGone)
  -- the queue was empty, so the events emitted are the queue
  · have hemitted : (s.step (.tick visits)).2.emitted =
        (s.step (.tick visits)).1.input.queue := by
      show (s.step (.tick visits)).1.input.queue.drop s.input.queue.length = _
      rw [hEmpty, List.length_nil, List.drop_zero]
    rw [hemitted, hqueue]
    exact reportsDifference_iff hs.watchInv.nodup

theorem Step.polls_some {st : Step} {set : List Identity} (h : st.polls s = some set) :
    ∃ visits, st = .tick visits ∧ set = visited visits := by
  cases st with
  | tick visits =>
    refine ⟨visits, rfl, ?_⟩
    simp only [Step.polls] at h
    split at h
    · exact (Option.some.inj h).symm
    · cases h
  | _ => cases h

/-- **Run lemma.** -/
theorem PollInv.run (hs : PollInv s shown) (hStart : Gone shown ∨ ZeroSettled s shown)
    {steps : List Step} (hSteps : ∀ st ∈ steps, st.PollsOnly) (hDrained : DrainedTicks s steps) :
    AtEachStep observe (fun st i _ => ReportsRight st i) (s, shown) steps ↔
      AtEachStep observe (fun st i _ => NoneGone st i) (s, shown) steps := by
  induction steps generalizing s shown with
  | nil => simp
  | cons st steps ih =>
    rw [List.forall_mem_cons] at hSteps
    rw [DrainedTicks, atEachStep_cons] at hDrained
    rw [atEachStep_cons, atEachStep_cons]
    cases hpolls : st.polls s with
    -- no poll: nothing to report and nothing asked
    | none =>
      obtain ⟨hinv, hzero, hreports⟩ := hs.idle_step hSteps.1 hpolls
      have hnext : (observe (s, shown) st).1 = ((s.step st).1, shown) := by
        rw [observe, hpolls]
      have hright : ReportsRight (s, shown) st := by
        rw [ReportsRight, hpolls]
        exact hreports
      have hnone : NoneGone (s, shown) st := by
        intro hsome
        rw [hpolls] at hsome
        cases hsome
      rw [hnext, ih hinv (hStart.imp id hzero) hSteps.2 hDrained.2]
      simp [hright, hnone]
    -- a poll reports right if the registry is what was shown last
    | some set =>
      obtain ⟨visits, rfl, rfl⟩ := Step.polls_some hpolls
      have hEmpty := hDrained.1 ⟨visits, rfl⟩
      obtain ⟨hinv, hstart, hreports⟩ := hs.poll_step hSteps.1 hpolls hEmpty
      have hnext : (observe (s, shown) (.tick visits)).1 =
          ((s.step (.tick visits)).1, ⟨visited visits, shown.ever ++ visited visits⟩) := by
        rw [observe, hpolls]
      rw [hnext, ih hinv hstart hSteps.2 hDrained.2]
      refine and_congr_left fun _ => ?_
      rw [ReportsRight, hpolls, NoneGone, hpolls]
      refine hreports.trans ?_
      by_cases hGone : Gone shown
      -- a window that has gone is registered, but was not shown last
      · obtain ⟨x, hever, hx, hlast⟩ := hGone
        constructor
        · exact fun hsame => absurd ((hsame x).mp ((hs.ever x hx).mpr hever)) hlast
        · exact fun hnone => absurd (hnone rfl x hever hx) hlast
      -- with none gone the registry is just that
      · constructor
        · rintro - - x hever hx
          by_contra hlast
          exact hGone ⟨x, hever, hx, hlast⟩
        · exact fun _ => hs.same hGone (hStart.resolve_left hGone) hEmpty

end Run

/-! ## Without the event group -/

section Mute

variable {s : System keyMax} {shown : Shown}

/-- A step that can report nothing is right about the windows if there is nothing to report. -/
theorem Mute.reports_right_iff (hs : Mute s) (st : Step) :
    ReportsRight (s, shown) st ↔ NothingNew (s, shown) st := by
  rw [ReportsRight, NothingNew]
  cases hpolls : st.polls s with
  | none =>
    -- no poll: a keyboard event at most
    refine iff_of_true ?_ fun _ h => absurd h (by simp)
    intro event hevent x change
    rw [hs.emitted st] at hevent
    cases st with
    | key k down =>
      rw [Step.keyEvents, List.mem_singleton] at hevent
      rw [hevent]
      cases down <;> simp [windowEvent]
    | _ => exact absurd hevent List.not_mem_nil
  | some set =>
    obtain ⟨visits, rfl, rfl⟩ := Step.polls_some hpolls
    have hemitted : (s.step (.tick visits)).2.emitted = [] := hs.emitted _
    show ReportsDifference shown.last (visited visits) (s.step (.tick visits)).2.emitted ↔ _
    rw [hemitted, reportsDifference_nil]
    constructor
    · rintro hsame _ ⟨⟩
      exact hsame
    · exact fun hsame => hsame _ rfl

theorem Mute.polls_iff (hs : Mute s) (steps : List Step) :
    AtEachStep observe (fun st i _ => ReportsRight st i) (s, shown) steps ↔
      AtEachStep observe (fun st i _ => NothingNew st i) (s, shown) steps := by
  induction steps generalizing s shown with
  | nil => simp
  | cons st steps ih =>
    rw [atEachStep_cons, atEachStep_cons]
    exact and_congr (hs.reports_right_iff st) (ih (hs.step st))

end Mute

/-! ## From the seed on -/

/-- The rounds of the main loop tick with nothing queued. -/
theorem workerRound_drained (cbs : Callbacks) (visits : List Visit) (s : System keyMax) :
    DrainedTicks s (workerRound cbs visits s) := by
  unfold workerRound DrainedTicks
  generalize hn : s.input.queue.length = n
  induction n generalizing s with
  | zero =>
    rw [List.replicate_zero, List.nil_append, atEachStep_cons]
    exact ⟨fun _ => List.length_eq_zero_iff.mp hn, atEachStep_nil⟩
  | succ n ih =>
    rw [List.replicate_succ, List.cons_append, atEachStep_cons]
    refine ⟨fun ⟨_, h⟩ => (nomatch h), ih _ ?_⟩
    have hqueue : (s.step (.handle cbs)).1.input.queue = s.input.queue.tail :=
      handleEvent_queue cbs s.input
    rw [hqueue, List.length_tail, hn, Nat.add_sub_cancel]

theorem StartsPolling.pollInv {o : EnsureOutcome} {s : System keyMax} (hs : StartsPolling o s)
    (hpushes : s.input.registered = true) :
    PollInv s ⟨visited o.visits, visited o.visits⟩ ∧
      ZeroSettled s ⟨visited o.visits, visited o.visits⟩ := by
  have hmem : ∀ x, x ∈ s.input.identities ↔ x ∈ visited o.visits := by
    intro x
    have hfind := (hs.starts.spec x).1
    rw [← not_iff_not, Input.identities, ← findWindow_eq_none_iff, hfind, Option.map_eq_none_iff,
      List.find?_eq_none, visited, List.mem_filterMap]
    constructor
    · rintro hnone ⟨v, hv, hx⟩
      exact hnone v hv (by simp [Visit.stores, hx, (hs.succeeds v hv).listGrown])
    · rintro hnone v hv hstores
      simp only [Visit.stores, Bool.and_eq_true, decide_eq_true_eq] at hstores
      exact hnone ⟨v, hv, hstores.1⟩
  obtain ⟨-, hwm, hactive⟩ := hs.starts.spec 0
  have hquiet : ¬ DestructionQueued s.input := by
    rintro ⟨event, hevent, htype⟩
    exact hs.starts.quiet event hevent htype
  refine ⟨⟨?_, hs.starts.watchInv, fun x _ => hmem x, fun x hx => hx⟩, ?_⟩
  · simp [Input.flags, hwm, hactive, hs.polling, hpushes]
  · exact ⟨fun h => absurd h hquiet, fun h => Or.inl ((hmem 0).mp h), (hmem 0).mpr⟩

/-- **Polls report the difference.** In a polling run whose calls succeed and whose ticks
find the queue drained, every poll reports the difference to the enumeration before it
exactly if the event group is registered and at each poll every window ever shown was shown by
the enumeration before it, or the group is not registered and no poll finds a difference. -/
theorem polls_report_difference_iff {o : EnsureOutcome} {s : System keyMax}
    (hs : StartsPolling o s) {steps : List Step} (hSteps : ∀ st ∈ steps, st.PollsOnly)
    (hDrained : DrainedTicks s steps) :
    AtEachStep observe (fun st i _ => ReportsRight st i)
        (s, ⟨visited o.visits, visited o.visits⟩) steps ↔
      (s.input.registered = true ∧ AtEachStep observe (fun st i _ => NoneGone st i)
          (s, ⟨visited o.visits, visited o.visits⟩) steps) ∨
        (s.input.registered = false ∧ AtEachStep observe (fun st i _ => NothingNew st i)
          (s, ⟨visited o.visits, visited o.visits⟩) steps) := by
  cases hpushes : s.input.registered with
  | true =>
    obtain ⟨hinv, hzero⟩ := hs.pollInv hpushes
    simpa using hinv.run (Or.inr hzero) hSteps hDrained
  | false =>
    obtain ⟨-, hwm, hactive⟩ := hs.starts.spec 0
    have hmute : Mute s := ⟨hwm, hactive, hpushes⟩
    simpa using hmute.polls_iff steps

/-! ### A window that goes -/

/-- The watcher starts with the window 5 and no target. -/
def polledStart : EnsureOutcome := ⟨true, true, [Visit.clean 7 5], false, false, false⟩

/-- What the start leaves. -/
def polledStarted : System 128 :=
  ((System.init 128).step (.setDefault none true true polledStart)).1

theorem polledStarted_startsPolling : StartsPolling polledStart polledStarted :=
  ⟨⟨[], .setDefault none true true polledStart, by simp, rfl, rfl, rfl, rfl⟩, rfl,
    by simp [polledStart, Visit.clean, Visit.Succeeds.mk]⟩

/-- The first poll shows no window, nor does the second, eight ticks later. -/
def windowGoes : List Step :=
  [.tick [], .handle Callbacks.idle, .tick [], .tick [], .tick [], .tick [], .tick [], .tick [],
    .tick [], .tick []]

theorem windowGoes_drained : DrainedTicks polledStarted windowGoes := by
  simp only [DrainedTicks, windowGoes, atEachStep_cons]
  refine ⟨fun _ => rfl, fun ⟨_, h⟩ => (nomatch h), fun _ => rfl, fun _ => rfl, fun _ => rfl,
    fun _ => rfl, fun _ => rfl, fun _ => rfl, fun _ => rfl, fun _ => rfl, atEachStep_nil⟩

theorem polls_report_difference_iff_goes :
    AtEachStep observe (fun st i _ => ReportsRight st i)
        (polledStarted, ⟨visited polledStart.visits, visited polledStart.visits⟩) windowGoes ↔
      (polledStarted.input.registered = true ∧ AtEachStep observe (fun st i _ => NoneGone st i)
          (polledStarted, ⟨visited polledStart.visits, visited polledStart.visits⟩)
          windowGoes) ∨
        (polledStarted.input.registered = false ∧
          AtEachStep observe (fun st i _ => NothingNew st i)
            (polledStarted, ⟨visited polledStart.visits, visited polledStart.visits⟩)
            windowGoes) :=
  polls_report_difference_iff polledStarted_startsPolling
    (by simp [windowGoes, Step.PollsOnly]) windowGoes_drained

/-- The second poll reports window 5 as destroyed again, though neither enumeration
shows it. -/
theorem polls_repeat_destroyed :
    StartsPolling polledStart polledStarted ∧ polledStarted.input.registered = true ∧
      (∀ st ∈ windowGoes, st.PollsOnly) ∧
      DrainedTicks polledStarted windowGoes ∧
      ¬ AtEachStep observe (fun st i _ => ReportsRight st i)
        (polledStarted, ⟨visited polledStart.visits, visited polledStart.visits⟩) windowGoes := by
  refine ⟨polledStarted_startsPolling, rfl, by simp [windowGoes, Step.PollsOnly],
    windowGoes_drained, ?_⟩
  intro hright
  have hlast := hright (windowGoes.take 9) (.tick []) [] rfl
  have hpolls : (Step.tick []).polls (final observe
      (polledStarted, ⟨visited polledStart.visits, visited polledStart.visits⟩)
      (windowGoes.take 9)).1 = some [] := by decide +kernel
  have hshown : (final observe
      (polledStarted, ⟨visited polledStart.visits, visited polledStart.visits⟩)
      (windowGoes.take 9)).2.last = [] := by decide +kernel
  have hemitted : ((final observe
      (polledStarted, ⟨visited polledStart.visits, visited polledStart.visits⟩)
      (windowGoes.take 9)).1.step (.tick [])).2.emitted.length = 1 := by decide +kernel
  simp only [ReportsRight, hpolls] at hlast
  have hlength := List.Perm.length_eq hlast
  rw [hemitted, hshown] at hlength
  simp at hlength

end Uniwm
