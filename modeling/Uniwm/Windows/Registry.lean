import Mathlib.Data.List.Nodup
import Uniwm.Model.System

/-!
# uniwm — the registry of windows

Lemmas about `watch.list` shared by all results on the watcher.

* The list as a finite map: what each way of changing it does to `findWindow`.
* Payloads: what the encoder of `emit_window_event` writes and what the two readers
  find there (`windowEvent_id`, `windowEvent_window`).
* `WatchInv`, the invariant of every run: identities are registered once, they are
  identities that the outside world brought in, and the payload of every queued
  destroyed event has no number under `"window"`. It is kept by each operation and so
  by every step (`WatchInv.step`) and every run (`WatchInv.run`).
-/

namespace Uniwm

open Base

/-! ## The list as a finite map -/

section Map

variable {l : List RegisteredWindow} {x y : Identity} {w : RegisteredWindow}

@[simp] theorem findWindow_nil (x : Identity) : findWindow [] x = none := rfl

theorem findWindow_eq_none_iff : findWindow l x = none ↔ x ∉ l.map (·.identity) := by
  simp [findWindow]

theorem findWindow_some (h : findWindow l x = some w) : w ∈ l ∧ w.identity = x :=
  ⟨List.mem_of_find?_eq_some h, by simpa using List.find?_some h⟩

theorem findWindow_concat (l : List RegisteredWindow) (w : RegisteredWindow) (x : Identity) :
    findWindow (l ++ [w]) x = (findWindow l x).or (if w.identity = x then some w else none) := by
  unfold findWindow
  rw [List.find?_append]
  by_cases h : w.identity = x <;> simp [h]

/-- Marking an entry leaves every other field of the entries alone. -/
theorem map_markKnown {β : Type} (g : RegisteredWindow → β)
    (hg : ∀ w : RegisteredWindow, g { w with known := true } = g w) (x : Identity)
    (l : List RegisteredWindow) : (markKnown x l).map g = l.map g := by
  induction l with
  | nil => rfl
  | cons w l ih =>
    unfold markKnown
    split
    · simp [hg]
    · simp [ih]

theorem map_identity_markKnown (x : Identity) (l : List RegisteredWindow) :
    (markKnown x l).map (·.identity) = l.map (·.identity) :=
  map_markKnown (·.identity) (fun _ => rfl) x l

theorem findWindow_markKnown (x y : Identity) (l : List RegisteredWindow) :
    findWindow (markKnown x l) y =
      if y = x then (findWindow l x).map fun w => { w with known := true }
      else findWindow l y := by
  induction l with
  | nil => simp [markKnown]
  | cons w l ih =>
    unfold markKnown
    by_cases hwx : w.identity = x
    · by_cases hyx : y = x
      · simp [findWindow, hwx, hyx]
      · have hxy : ¬ x = y := fun h => hyx h.symm
        simp [findWindow, hwx, hyx, hxy]
    · rw [if_neg hwx]
      by_cases hwy : w.identity = y
      · have hyx : ¬ y = x := hwy ▸ hwx
        simp [findWindow, hwy, hyx]
      · simpa [findWindow, hwx, hwy] using ih

theorem findWindow_erase_ne (h : y ≠ x) :
    findWindow (l.eraseP (·.identity = x)) y = findWindow l y := by
  induction l with
  | nil => rfl
  | cons w l ih =>
    by_cases hwx : w.identity = x
    · have hwy : ¬ w.identity = y := fun h' => h (h'.symm.trans hwx)
      rw [List.eraseP_cons_of_pos (by simpa using hwx)]
      simp [findWindow, hwy]
    · rw [List.eraseP_cons_of_neg (by simpa using hwx)]
      by_cases hwy : w.identity = y
      · simp [findWindow, hwy]
      · simpa [findWindow, hwy] using ih

theorem map_identity_erase (x : Identity) (l : List RegisteredWindow) :
    (l.eraseP (·.identity = x)).map (·.identity) = (l.map (·.identity)).erase x := by
  rw [List.erase_eq_eraseP, List.eraseP_map]
  congr 2
  funext w
  rw [Bool.eq_iff_iff, Function.comp_apply, beq_iff_eq, decide_eq_true_eq, eq_comm]

/-- The entry found, and the list without it. -/
theorem findWindow_split (h : findWindow l x = some w) :
    ∃ front back, l = front ++ w :: back ∧ l.eraseP (·.identity = x) = front ++ back := by
  obtain ⟨hw, front, back, hsplit, hfront⟩ := List.find?_eq_some_iff_append.mp h
  have hnone : ∀ y ∈ front, ¬ decide (y.identity = x) = true := by simpa using hfront
  refine ⟨front, back, hsplit, ?_⟩
  rw [hsplit, List.eraseP_append_right _ hnone,
    List.eraseP_cons_of_pos (p := fun y : RegisteredWindow => decide (y.identity = x)) hw]

theorem findWindow_erase_self (hNodup : (l.map (·.identity)).Nodup) :
    findWindow (l.eraseP (·.identity = x)) x = none := by
  rw [findWindow_eq_none_iff, map_identity_erase]
  exact hNodup.not_mem_erase

end Map

/-! ## Payloads -/

/-- The JSON payload of an event, `null` for those that have none. -/
def WMEvent.raw : WMEvent → Json
  | .uniwm _ raw => raw
  | _ => .null

/-- The encoder writes the identity under `"window_id"`. -/
@[simp] theorem windowEvent_id (x : Identity) (change : WindowChange) :
    (windowEvent x change).raw.objectAsU64 "window_id" = x := by
  simp [windowEvent, WMEvent.raw, Json.setObject, Json.addU64, Json.addNull, Json.add,
    Json.objectAsU64]

/-- The member under `"window"` is null, and reads as `0`. -/
@[simp] theorem windowEvent_window (x : Identity) (change : WindowChange) :
    (windowEvent x change).raw.objectAsU64 "window" = 0 := by
  simp [windowEvent, WMEvent.raw, Json.setObject, Json.addU64, Json.addNull, Json.add,
    Json.objectAsU64]

/-! ## Single operations -/

section Operations

variable {keyMax : Nat} {s : Input keyMax} {x y : Identity}

@[simp] theorem setList_list (l : List RegisteredWindow) : (s.setList l).watch.list = l := rfl

@[simp] theorem setList_queue (l : List RegisteredWindow) : (s.setList l).queue = s.queue := rfl

@[simp] theorem pollUnless_list (reactive : Bool) :
    (s.pollUnless reactive).watch.list = s.watch.list := by
  cases reactive <;> rfl

@[simp] theorem pollUnless_queue (reactive : Bool) :
    (s.pollUnless reactive).queue = s.queue := by
  cases reactive <;> rfl

@[simp] theorem pollUnless_wm (reactive : Bool) : (s.pollUnless reactive).wm = s.wm := by
  cases reactive <;> rfl

@[simp] theorem pollUnless_registered (reactive : Bool) :
    (s.pollUnless reactive).registered = s.registered := by
  cases reactive <;> rfl

@[simp] theorem pollUnless_active (reactive : Bool) :
    (s.pollUnless reactive).watch.active = s.watch.active := by
  cases reactive <;> rfl

/-- What a call of `wm_window_watch_ensure` makes of the input: it stays while the watcher is
active; else it is set up, and if that succeeds the enumeration follows. -/
inductive Ensures (s : System keyMax) (o : EnsureOutcome) : Input keyMax → Prop
  | watching (hactive : s.input.watch.active = true) : Ensures s o s.input
  | failed (hfailed : (wmInputEnsure s.input o.wmInit o.groupOk).1 ≠ .ok) :
    Ensures s o (wmInputEnsure s.input o.wmInit o.groupOk).2
  | seeded (hok : (wmInputEnsure s.input o.wmInit o.groupOk).1 = .ok) (reactive : Bool) :
    Ensures s o ((pollWindows false o.visits
      (wmInputEnsure s.input o.wmInit o.groupOk).2.activate).pollUnless reactive)

theorem ensures (s : System keyMax) (o : EnsureOutcome) :
    Ensures s o (wmWindowWatchEnsure s o).2.input := by
  cases hactive : s.input.watch.active with
  | true =>
    rw [wmWindowWatchEnsure_active hactive]
    exact .watching hactive
  | false =>
    by_cases hok : (wmInputEnsure s.input o.wmInit o.groupOk).1 = .ok
    · rw [wmWindowWatchEnsure_fresh hactive hok]
      exact .seeded hok _
    · rw [wmWindowWatchEnsure_failed hactive hok]
      exact .failed hok

@[simp] theorem unref_watch (r : WindowRef) : (s.unref r).watch = s.watch := rfl

@[simp] theorem unref_queue (r : WindowRef) : (s.unref r).queue = s.queue := rfl

/-- `register_window` leaves the list, or appends an entry for an identity that had
none. -/
theorem registerWindow_list (s : Input keyMax) (x : Identity) (known : Bool)
    (resolved : Option WindowRef) (grown : Bool) :
    (registerWindow s x known resolved grown).watch.list = s.watch.list ∨
      (findWindow s.watch.list x = none ∧ grown = true ∧ ∃ r, resolved = some r ∧
        (registerWindow s x known resolved grown).watch.list =
          s.watch.list ++ [⟨x, r, known⟩]) := by
  unfold registerWindow
  cases hfind : findWindow s.watch.list x with
  | some w => exact Or.inl rfl
  | none =>
    cases resolved with
    | none => exact Or.inl rfl
    | some r =>
      cases grown with
      | false => exact Or.inl rfl
      | true => exact Or.inr ⟨rfl, rfl, r, rfl, rfl⟩

/-- What registering an identity does to a lookup. -/
theorem registerWindow_findWindow (s : Input keyMax) (x : Identity) (known : Bool)
    (resolved : Option WindowRef) (grown : Bool) (y : Identity) :
    findWindow (registerWindow s x known resolved grown).watch.list y =
      (findWindow s.watch.list y).or
        (if x = y && grown then resolved.map fun r => ⟨x, r, known⟩ else none) := by
  cases hfind : findWindow s.watch.list x with
  | some w =>
    simp only [registerWindow, hfind]
    -- an entry is there already, and stays
    by_cases hxy : x = y
    · subst hxy
      simp [hfind]
    · simp [hxy]
  | none =>
    cases resolved with
    | none => simp [registerWindow, hfind]
    | some r =>
      cases grown with
      | false => simp [registerWindow, registerWindowRef, hfind]
      | true =>
        simp only [registerWindow, registerWindowRef, hfind, if_true, setList_list,
          findWindow_concat]
        -- the new entry stands last, so it answers for `x` alone
        by_cases hxy : x = y <;> simp [hxy]

@[simp] theorem registerWindow_queue (s : Input keyMax) (x : Identity) (known : Bool)
    (resolved : Option WindowRef) (grown : Bool) :
    (registerWindow s x known resolved grown).queue = s.queue := by
  unfold registerWindow registerWindowRef
  repeat' split
  all_goals rfl

theorem unregisterWindow_list (s : Input keyMax) (x : Identity) :
    (unregisterWindow s x).watch.list = s.watch.list.eraseP (·.identity = x) := by
  unfold unregisterWindow
  cases hfind : findWindow s.watch.list x with
  | some w => rfl
  | none =>
    rw [findWindow_eq_none_iff] at hfind
    symm
    apply List.eraseP_of_forall_not
    intro w hw hwx
    exact hfind (List.mem_map.mpr ⟨w, hw, by simpa using hwx⟩)

@[simp] theorem unregisterWindow_queue (s : Input keyMax) (x : Identity) :
    (unregisterWindow s x).queue = s.queue := by
  unfold unregisterWindow
  split <;> rfl

/-- An identity with no entry is not unregistered. -/
theorem unregisterWindow_absent (h : findWindow s.watch.list x = none) :
    unregisterWindow s x = s := by
  rw [unregisterWindow, h]

@[simp] theorem emitWindowEvent_watch (s : Input keyMax) (x : Identity) (change : WindowChange) :
    (emitWindowEvent s x change).watch = s.watch := by
  unfold emitWindowEvent
  split <;> rfl

/-- With the event group registered, an event other than `opened` is pushed. -/
theorem emitWindowEvent_eq (hwm : s.wm = true) (hreg : s.registered = true)
    {change : WindowChange} (hchange : change ≠ .opened) (x : Identity) :
    emitWindowEvent s x change = { s with queue := s.queue ++ [windowEvent x change] } := by
  unfold emitWindowEvent wmUniwmEventType
  cases change <;> simp_all [uniwmEventOf]

theorem emitWindowEvent_queue (s : Input keyMax) (x : Identity) (change : WindowChange) :
    (emitWindowEvent s x change).queue = s.queue ∨
      (emitWindowEvent s x change).queue = s.queue ++ [windowEvent x change] := by
  unfold emitWindowEvent
  split
  · exact Or.inl rfl
  · exact Or.inr rfl

/-- Handling an event releases nothing, or the identity read under `"window"`. -/
theorem releaseDestroyedWindow_cases (s : Input keyMax) (event : WMEvent) :
    releaseDestroyedWindow s event = s ∨
      (event.type = .uniwm .windowDestroyed ∧
        releaseDestroyedWindow s event =
          unregisterWindow s (event.raw.objectAsU64 "window")) := by
  unfold releaseDestroyedWindow
  split
  · exact Or.inl rfl
  · next htype =>
    cases event with
    | uniwm which raw =>
      refine Or.inr ⟨?_, rfl⟩
      -- before the group is registered its types have no number
      rw [not_not] at htype
      unfold wmUniwmEventType at htype
      split at htype
      · simp [WMEvent.type] at htype
      · exact htype
    | _ => exact Or.inl rfl

theorem releaseDestroyedWindow_destroyed {event : WMEvent} (hreg : s.registered = true)
    (htype : event.type = .uniwm .windowDestroyed) :
    releaseDestroyedWindow s event = unregisterWindow s (event.raw.objectAsU64 "window") := by
  cases event with
  | uniwm which raw =>
    have hwhich : which = .windowDestroyed := by simpa [WMEvent.type] using htype
    subst hwhich
    simp [releaseDestroyedWindow, wmUniwmEventType, hreg, WMEvent.type, WMEvent.raw]
  | _ => simp [WMEvent.type] at htype

/-- Handling an event: the queue is empty, or its head is taken out and goes to the keybinds
first and then to the release. -/
theorem handleEvent_cases (cbs : Callbacks) (s : Input keyMax) :
    handleEvent cbs s = s ∧ s.queue = [] ∨
      ∃ event queue kb, s.queue = event :: queue ∧ handleEvent cbs s =
        releaseDestroyedWindow { s with keybind := kb, queue := queue } event := by
  cases hq : s.queue with
  | nil => exact Or.inl ⟨by simp only [handleEvent, hq], rfl⟩
  | cons event queue =>
    refine Or.inr ⟨event, queue, (processKeybinds cbs s.keybind event).1, rfl, ?_⟩
    simp only [handleEvent, hq, wmProcessEvent]

/-- The event at the head is handled with it out of the queue and the registry as it was. -/
theorem handleEvent_popped (cbs : Callbacks) {event : WMEvent} {queue : List WMEvent}
    (hq : s.queue = event :: queue) :
    ∃ s' : Input keyMax, handleEvent cbs s = releaseDestroyedWindow s' event ∧
      s'.watch = s.watch ∧ s'.registered = s.registered := by
  rcases handleEvent_cases cbs s with ⟨-, hnil⟩ | ⟨event', queue', kb, hcons, heq⟩
  · rw [hnil] at hq
    cases hq
  · rw [hcons] at hq
    cases hq
    exact ⟨_, heq, rfl, rfl⟩

/-- What that leaves of the list of windows: the entry of one identity may go. -/
theorem handleEvent_list (cbs : Callbacks) (s : Input keyMax) :
    (handleEvent cbs s).watch.list = s.watch.list ∨
      ∃ event ∈ s.queue.head?, event.type = .uniwm .windowDestroyed ∧
        (handleEvent cbs s).watch.list =
          s.watch.list.eraseP (·.identity = event.raw.objectAsU64 "window") := by
  rcases handleEvent_cases cbs s with ⟨heq, -⟩ | ⟨event, queue, kb, hq, heq⟩
  · rw [heq]
    exact Or.inl rfl
  · rw [heq, hq]
    generalize hs' : ({ s with keybind := kb, queue := queue } : Input keyMax) = s'
    have hlist : s'.watch.list = s.watch.list := by rw [← hs']
    rw [← hlist]
    rcases releaseDestroyedWindow_cases s' event with heq' | ⟨htype, heq'⟩
    · rw [heq']
      exact Or.inl rfl
    · rw [heq', unregisterWindow_list]
      exact Or.inr ⟨event, rfl, htype, rfl⟩

end Operations

/-! ## The frame of the registry -/

section Frame

variable {keyMax : Nat} {β : Type} {g : Input keyMax → β}

/-- `g` reads neither the registry, nor the references released, nor the window events of
the queue, so it is in the frame of all that happens to them. -/
structure Framed (g : Input keyMax → β) : Prop where
  setList : ∀ s l, g (s.setList l) = g s
  unref : ∀ s r, g (s.unref r) = g s
  push : ∀ (s : Input keyMax) x change,
    g { s with queue := s.queue ++ [windowEvent x change] } = g s

namespace Framed

theorem registerRef (h : Framed g) (s : Input keyMax) (x : Identity) (r : WindowRef)
    (known grown : Bool) : g (registerWindowRef s x r known grown) = g s := by
  unfold registerWindowRef
  split
  · exact h.setList ..
  · exact h.unref ..

theorem register (h : Framed g) (s : Input keyMax) (x : Identity) (known : Bool)
    (resolved : Option WindowRef) (grown : Bool) :
    g (registerWindow s x known resolved grown) = g s := by
  unfold registerWindow
  split
  · rfl
  · split
    · rfl
    · exact h.registerRef ..

theorem unregister (h : Framed g) (s : Input keyMax) (x : Identity) :
    g (unregisterWindow s x) = g s := by
  unfold unregisterWindow
  split
  · rfl
  · rw [h.setList, h.unref]

theorem emit (h : Framed g) (s : Input keyMax) (x : Identity) (change : WindowChange) :
    g (emitWindowEvent s x change) = g s := by
  unfold emitWindowEvent
  split
  · rfl
  · exact h.push ..

theorem release (h : Framed g) (s : Input keyMax) (event : WMEvent) :
    g (releaseDestroyedWindow s event) = g s := by
  rcases releaseDestroyedWindow_cases s event with heq | ⟨-, heq⟩
  · rw [heq]
  · rw [heq, h.unregister]

theorem visit (h : Framed g) (fire : Bool) (st : Input keyMax × List Identity) (v : Visit) :
    g (windowVisit fire st v).1 = g st.1 := by
  unfold windowVisit
  split
  · exact h.unref ..
  · dsimp only
    split
    · exact h.unref ..
    · dsimp only
      split
      · rw [h.emit, h.registerRef]
      · exact h.registerRef ..

theorem visits (h : Framed g) (fire : Bool) (visits : List Visit)
    (st : Input keyMax × List Identity) :
    g (visits.foldl (windowVisit fire) st).1 = g st.1 := by
  induction visits generalizing st with
  | nil => rfl
  | cons v visits ih => rw [List.foldl_cons, ih, h.visit]

theorem sweep (h : Framed g) (seen : List Identity) (s : Input keyMax) :
    g (sweepDestroyed seen s) = g s := by
  unfold sweepDestroyed
  generalize s.watch.list = l
  induction l generalizing s with
  | nil => rfl
  | cons w l ih =>
    rw [List.foldl_cons, ih]
    split
    · rfl
    · exact h.emit ..

theorem poll (h : Framed g) (fire : Bool) (visits : List Visit) (s : Input keyMax) :
    g (pollWindows fire visits s) = g s := by
  unfold pollWindows
  dsimp only
  split
  · rfl
  · split
    · rw [h.sweep, h.visits]
    · rw [h.visits]

theorem tick (h : Framed g) (htick : ∀ (s : Input keyMax) n, g { s with windowPollTick := n } = g s)
    (visits : List Visit) (s : Input keyMax) : g (wmTick visits s) = g s := by
  unfold wmTick
  dsimp only
  split
  · rw [htick, h.poll]
  · rw [htick]

/-- Only a notification of focus touches `watch.focused`. -/
theorem sink (h : Framed g) {change : WindowChange}
    (hfocus : change = .focused →
      ∀ (s : Input keyMax) x, g { s with watch := { s.watch with focused := x } } = g s)
    (s : Input keyMax) (x : Identity) (resolved : Option WindowRef)
    (grown : Bool) : g (targetWindowSink s x change resolved grown) = g s := by
  unfold targetWindowSink
  split
  · rfl
  · cases change with
    | opened => exact h.register ..
    | created =>
      dsimp only
      split
      · rw [h.emit, h.register]
      · split
        · rfl
        · rw [h.emit, h.setList]
    | destroyed =>
      dsimp only
      split
      · rfl
      · split
        · exact h.emit ..
        · exact h.unregister ..
    | focused =>
      dsimp only
      split
      · rfl
      · rw [h.emit, h.register, hfocus rfl]

/-- Handling an event takes it out of the queue and may change the keybinds. -/
theorem handle (h : Framed g)
    (hpop : ∀ (s : Input keyMax) kb q, g { s with keybind := kb, queue := q } = g s)
    (cbs : Callbacks) (s : Input keyMax) : g (handleEvent cbs s) = g s := by
  rcases handleEvent_cases cbs s with ⟨heq, -⟩ | ⟨event, queue, kb, -, heq⟩
  · rw [heq]
  · rw [heq, h.release]
    exact hpop s kb queue

end Framed

/-- The statics that no operation on the registry or the queue touches. -/
def Input.flags (s : Input keyMax) : Bool × Bool × Bool × Bool :=
  (s.wm, s.registered, s.watch.active, s.watch.poll)

theorem flags_framed : Framed (fun s : Input keyMax => s.flags) :=
  ⟨fun _ _ => rfl, fun _ _ => rfl, fun _ _ _ => rfl⟩

/-- The same flags, field by field. -/
structure FlagsKept (s s' : Input keyMax) : Prop where
  wm : s'.wm = s.wm
  registered : s'.registered = s.registered
  active : s'.watch.active = s.watch.active
  poll : s'.watch.poll = s.watch.poll

theorem flagsKept {s s' : Input keyMax} (h : s'.flags = s.flags) : FlagsKept s s' := by
  simp only [Input.flags, Prod.mk.injEq] at h
  exact ⟨h.1, h.2.1, h.2.2.1, h.2.2.2⟩

@[simp] theorem setList_flags {s : Input keyMax} (l : List RegisteredWindow) :
    (s.setList l).flags = s.flags := rfl

@[simp] theorem registerWindow_flags (s : Input keyMax) (x : Identity) (known : Bool)
    (resolved : Option WindowRef) (grown : Bool) :
    (registerWindow s x known resolved grown).flags = s.flags :=
  flags_framed.register ..

theorem targetWindowSink_flags (s : Input keyMax) (x : Identity) (change : WindowChange)
    (resolved : Option WindowRef) (grown : Bool) :
    (targetWindowSink s x change resolved grown).flags = s.flags :=
  flags_framed.sink (fun _ _ _ => rfl) ..

theorem handleEvent_flags (cbs : Callbacks) (s : Input keyMax) :
    (handleEvent cbs s).flags = s.flags :=
  flags_framed.handle (fun _ _ _ => rfl) ..

theorem visits_flags (fire : Bool) (visits : List Visit) (st : Input keyMax × List Identity) :
    (visits.foldl (windowVisit fire) st).1.flags = st.1.flags :=
  flags_framed.visits ..

end Frame

/-! ## Enumerations -/

section Enumerations

variable {keyMax : Nat} {x : Identity}

/-- The identities that a list of visits brings in. -/
def visited (visits : List Visit) : List Identity := visits.filterMap (·.identity)

/-- The visit shows `x` and finds memory for an entry. -/
def Visit.stores (x : Identity) (v : Visit) : Bool := v.identity = some x && v.listGrown

theorem visit_findWindow (fire : Bool) (st : Input keyMax × List Identity) (v : Visit)
    (x : Identity) :
    findWindow (windowVisit fire st v).1.watch.list x =
      (findWindow st.1.watch.list x).or
        (if v.stores x then some ⟨x, v.window, true⟩ else none) := by
  cases hid : v.identity with
  | none => simp [windowVisit, Visit.stores, hid]
  | some y =>
    cases hfind : findWindow st.1.watch.list y with
    -- a window with an entry: the visit gives back its reference
    | some w =>
      simp only [windowVisit, Visit.stores, hid, hfind, unref_watch]
      by_cases hyx : y = x
      · subst hyx
        simp [hfind]
      · simp [hyx]
    | none =>
      -- a window without: the event leaves the list alone, only the registration counts
      have hlist : (windowVisit fire st v).1.watch =
          (registerWindowRef st.1 y v.window true v.listGrown).watch := by
        simp only [windowVisit, hid, hfind]
        cases fire <;> simp
      rw [hlist, registerWindowRef]
      cases hgrown : v.listGrown with
      | false => simp [Visit.stores, hgrown]
      | true =>
        rw [if_pos rfl, setList_list, findWindow_concat]
        by_cases hyx : y = x <;> simp [Visit.stores, hid, hgrown, hyx]

/-- After an enumeration an identity has the entry it had before, or else one for the
first visit that stores it, and that one is known. -/
theorem visits_findWindow (fire : Bool) (visits : List Visit) (st : Input keyMax × List Identity)
    (x : Identity) :
    findWindow (visits.foldl (windowVisit fire) st).1.watch.list x =
      (findWindow st.1.watch.list x).or
        ((visits.find? (·.stores x)).map fun v => ⟨x, v.window, true⟩) := by
  induction visits generalizing st with
  | nil => simp
  | cons v visits ih =>
    rw [List.foldl_cons, ih, visit_findWindow, List.find?_cons]
    -- the first visit that stores `x` gives the entry, the later ones find it
    cases findWindow st.1.watch.list x with
    | some w => rfl
    | none => cases hstores : v.stores x <;> simp

end Enumerations

/-! ## The invariant of every run -/

section Invariant

variable {keyMax : Nat} {P : Identity → Prop} {s : Input keyMax}

/-- Identities are registered once; they are among those (`P`) that the outside world
brought in; no queued destroyed event carries a number under `"window"`. -/
structure WatchInv (P : Identity → Prop) (s : Input keyMax) : Prop where
  nodup : (s.watch.list.map (·.identity)).Nodup
  admitted : ∀ x ∈ s.watch.list.map (·.identity), P x
  payload : ∀ event ∈ s.queue, event.type = .uniwm .windowDestroyed →
    event.raw.objectAsU64 "window" = 0

/-- The list's identities and the queue are all that the invariant looks at. -/
theorem WatchInv.congr {s' : Input keyMax} (h : WatchInv P s)
    (hlist : s'.watch.list.map (·.identity) = s.watch.list.map (·.identity))
    (hqueue : s'.queue = s.queue) : WatchInv P s' :=
  ⟨hlist ▸ h.nodup, hlist ▸ h.admitted, hqueue ▸ h.payload⟩

theorem WatchInv.push (h : WatchInv P s) {s' : Input keyMax} {event : WMEvent}
    (hevent : event.raw.objectAsU64 "window" = 0)
    (hlist : s'.watch.list = s.watch.list) (hqueue : s'.queue = s.queue ++ [event]) :
    WatchInv P s' := by
  refine ⟨hlist ▸ h.nodup, hlist ▸ h.admitted, ?_⟩
  intro event' he htype
  rw [hqueue, List.mem_append, List.mem_singleton] at he
  -- an event queued before, or the one pushed now
  rcases he with he | rfl
  · exact h.payload event' he htype
  · exact hevent

theorem WatchInv.append (h : WatchInv P s) {s' : Input keyMax} {w : RegisteredWindow}
    (hw : P w.identity) (habsent : findWindow s.watch.list w.identity = none)
    (hlist : s'.watch.list = s.watch.list ++ [w]) (hqueue : s'.queue = s.queue) :
    WatchInv P s' := by
  rw [findWindow_eq_none_iff] at habsent
  refine ⟨?_, ?_, hqueue ▸ h.payload⟩
  · rw [hlist, List.map_append, List.nodup_append]
    refine ⟨h.nodup, List.nodup_singleton _, ?_⟩
    intro x hx y hy hxy
    have hy' : y = w.identity := by simpa using hy
    exact habsent (hy' ▸ hxy ▸ hx)
  · intro x hx
    rw [hlist, List.map_append, List.mem_append] at hx
    rcases hx with hx | hx
    · exact h.admitted x hx
    · have hx' : x = w.identity := by simpa using hx
      exact hx' ▸ hw

theorem WatchInv.emit (h : WatchInv P s) (x : Identity) (change : WindowChange) :
    WatchInv P (emitWindowEvent s x change) := by
  rcases emitWindowEvent_queue s x change with hq | hq
  · exact h.congr (by rw [emitWindowEvent_watch]) hq
  · exact h.push (windowEvent_window x change) (by rw [emitWindowEvent_watch]) hq

theorem WatchInv.register (h : WatchInv P s) {x : Identity} (hx : P x) (known : Bool)
    (resolved : Option WindowRef) (grown : Bool) :
    WatchInv P (registerWindow s x known resolved grown) := by
  rcases registerWindow_list s x known resolved grown with hlist | ⟨habsent, -, r, -, hlist⟩
  · exact h.congr (by rw [hlist]) (registerWindow_queue ..)
  · exact h.append (w := ⟨x, r, known⟩) hx habsent hlist (registerWindow_queue ..)

theorem WatchInv.unregister (h : WatchInv P s) (x : Identity) :
    WatchInv P (unregisterWindow s x) := by
  have hlist : (unregisterWindow s x).watch.list.map (·.identity) =
      (s.watch.list.map (·.identity)).erase x := by
    rw [unregisterWindow_list, map_identity_erase]
  refine ⟨hlist ▸ h.nodup.erase x, ?_, ?_⟩
  · intro y hy
    rw [hlist] at hy
    exact h.admitted y (List.mem_of_mem_erase hy)
  · rw [unregisterWindow_queue]
    exact h.payload

theorem WatchInv.visit (fire : Bool) {st : Input keyMax × List Identity} {v : Visit}
    (hv : ∀ x, v.identity = some x → P x) (h : WatchInv P st.1) :
    WatchInv P (windowVisit fire st v).1 := by
  cases hid : v.identity with
  | none =>
    simp only [windowVisit, hid]
    exact h.congr rfl rfl
  | some x =>
    cases hfind : findWindow st.1.watch.list x with
    | some w =>
      simp only [windowVisit, hid, hfind]
      exact h.congr rfl rfl
    | none =>
      -- the registration first, then the event if the poll fires
      have hreg : WatchInv P (registerWindowRef st.1 x v.window true v.listGrown) := by
        unfold registerWindowRef
        split
        · exact h.append (w := ⟨x, v.window, true⟩) (hv x hid) hfind rfl rfl
        · exact h.congr rfl rfl
      simp only [windowVisit, hid, hfind]
      split
      · exact hreg.emit x .created
      · exact hreg

theorem WatchInv.visits (fire : Bool) {visits : List Visit} (hv : ∀ x ∈ visited visits, P x) :
    ∀ {st : Input keyMax × List Identity}, WatchInv P st.1 →
      WatchInv P (visits.foldl (windowVisit fire) st).1 := by
  induction visits with
  | nil => exact fun h => h
  | cons v visits ih =>
    intro st h
    have hrest : ∀ x ∈ visited visits, P x := fun x hx => by
      refine hv x ?_
      unfold visited at hx ⊢
      rw [List.mem_filterMap] at hx ⊢
      obtain ⟨v', hv', h'⟩ := hx
      exact ⟨v', List.mem_cons_of_mem _ hv', h'⟩
    refine ih hrest (h.visit fire fun x hx => hv x ?_)
    exact List.mem_filterMap.mpr ⟨v, List.mem_cons_self .., hx⟩

theorem WatchInv.sweep (seen : List Identity) (h : WatchInv P s) :
    WatchInv P (sweepDestroyed seen s) := by
  unfold sweepDestroyed
  -- the sweep reads the list and changes the queue only
  generalize s.watch.list = l
  induction l generalizing s with
  | nil => exact h
  | cons w l ih =>
    rw [List.foldl_cons]
    split
    · exact ih h
    · exact ih (h.emit w.identity .destroyed)

theorem WatchInv.poll (fire : Bool) {visits : List Visit} (hv : ∀ x ∈ visited visits, P x)
    (h : WatchInv P s) : WatchInv P (pollWindows fire visits s) := by
  unfold pollWindows
  have hvisits : WatchInv P (visits.foldl (windowVisit fire) (s, [])).1 :=
    WatchInv.visits fire hv h
  split
  · exact h
  · split
    · exact hvisits.sweep _
    · exact hvisits

theorem WatchInv.tick {visits : List Visit} (hv : ∀ x ∈ visited visits, P x)
    (h : WatchInv P s) : WatchInv P (wmTick visits s) := by
  unfold wmTick
  split
  · exact (h.poll true hv).congr rfl rfl
  · exact h.congr rfl rfl

theorem WatchInv.sink {x : Identity} (hx : P x) (change : WindowChange)
    (resolved : Option WindowRef) (grown : Bool) (h : WatchInv P s) :
    WatchInv P (targetWindowSink s x change resolved grown) := by
  unfold targetWindowSink
  split
  · exact h
  · cases change with
    | opened => exact h.register hx ..
    | created =>
      cases findWindow s.watch.list x with
      | none => exact (h.register hx ..).emit ..
      | some w =>
        dsimp only
        split
        · exact h
        -- the entry is there but not known: it is marked, and the window reported
        · have hmark : WatchInv P (s.setList (markKnown x s.watch.list)) :=
            h.congr (map_identity_markKnown ..) rfl
          exact hmark.emit ..
    | destroyed =>
      cases findWindow s.watch.list x with
      | none => exact h
      | some w =>
        dsimp only
        split
        -- a known window is reported and keeps its entry, another one loses it
        · exact h.emit ..
        · exact h.unregister x
    | focused =>
      dsimp only
      split
      · exact h
      -- the focus moves
      · have hfocus : WatchInv P { s with watch := { s.watch with focused := x } } :=
          h.congr rfl rfl
        exact (hfocus.register hx ..).emit ..

theorem WatchInv.release (h : WatchInv P s) (event : WMEvent) :
    WatchInv P (releaseDestroyedWindow s event) := by
  rcases releaseDestroyedWindow_cases s event with heq | ⟨-, heq⟩
  · rwa [heq]
  · rw [heq]
    exact h.unregister _

theorem WatchInv.handle (cbs : Callbacks) (h : WatchInv P s) :
    WatchInv P (handleEvent cbs s) := by
  rcases handleEvent_cases cbs s with ⟨heq, -⟩ | ⟨event, queue, kb, hq, heq⟩
  · rwa [heq]
  · rw [heq]
    apply WatchInv.release
    -- the rest of the queue was in the queue
    refine ⟨h.nodup, h.admitted, ?_⟩
    intro e he
    exact h.payload e (hq ▸ List.mem_cons_of_mem _ he)

/-- Handling an event takes it out of the queue. -/
theorem handleEvent_queue (cbs : Callbacks) (s : Input keyMax) :
    (handleEvent cbs s).queue = s.queue.tail := by
  rcases handleEvent_cases cbs s with ⟨heq, hq⟩ | ⟨event, queue, kb, hq, heq⟩
  · rw [heq, hq, List.tail_nil]
  · rw [heq, hq, List.tail_cons]
    rcases releaseDestroyedWindow_cases { s with keybind := kb, queue := queue } event with
      heq' | ⟨-, heq'⟩
    · rw [heq']
    · rw [heq', unregisterWindow_queue]

/-- Handling an event leaves the entry of every non-zero identity. -/
theorem handleEvent_findWindow (h : WatchInv P s) {x : Identity} (hx : x ≠ 0) (cbs : Callbacks) :
    findWindow (handleEvent cbs s).watch.list x = findWindow s.watch.list x := by
  rcases handleEvent_list cbs s with hlist | ⟨event, hevent, htype, hlist⟩
  · rw [hlist]
  -- what is released is identity `0`, whatever window the event is about
  · rw [hlist, h.payload event (List.mem_of_mem_head? hevent) htype, findWindow_erase_ne hx]

theorem WatchInv.hook (k : MCKey) (down : Bool) (h : WatchInv P s) :
    WatchInv P (keyHook s k down) :=
  h.push (by cases down <;> rfl) rfl (rfl : (keyHook s k down).queue =
    s.queue ++ [if down then .globalKeyDown k else .globalKeyUp k])

theorem WatchInv.inputEnsure (wmInit groupOk : Bool) (h : WatchInv P s) :
    WatchInv P (wmInputEnsure s wmInit groupOk).2 := by
  unfold wmInputEnsure
  repeat' split
  all_goals exact h.congr rfl rfl

theorem WatchInv.ensure {s : System keyMax} {o : EnsureOutcome}
    (hv : ∀ x ∈ visited o.visits, P x) (h : WatchInv P s.input) :
    WatchInv P (wmWindowWatchEnsure s o).2.input := by
  have hinput := h.inputEnsure o.wmInit o.groupOk
  have hensures := ensures s o
  generalize (wmWindowWatchEnsure s o).2.input = s' at hensures ⊢
  cases hensures with
  | watching hactive => exact h
  | failed hfailed => exact hinput
  | seeded hok reactive =>
    -- the seed is an enumeration like any other
    have hactivated : WatchInv P (wmInputEnsure s.input o.wmInit o.groupOk).2.activate :=
      hinput.congr rfl rfl
    exact (hactivated.poll false hv).congr (by rw [pollUnless_list]) (by rw [pollUnless_queue])

/-- The identities that a step brings in are admitted. -/
def Step.Admits (P : Identity → Prop) : Step → Prop
  | .setDefault _ _ _ o => ∀ x ∈ visited o.visits, P x
  | .ensure o => ∀ x ∈ visited o.visits, P x
  | .notify hwnd _ _ _ => P hwnd
  | .tick visits => ∀ x ∈ visited visits, P x
  | _ => True

/-- **Step lemma.** -/
theorem WatchInv.step {s : System keyMax} {st : Step} (hst : st.Admits P)
    (h : WatchInv P s.input) : WatchInv P (s.step st).1.input := by
  cases st with
  | setDefault ti wmInit groupOk o => exact WatchInv.ensure hst (h.inputEnsure wmInit groupOk)
  | process targetInit => exact h
  | processFini =>
    show WatchInv P (wmProcessFini s).input
    unfold wmProcessFini
    split <;> exact h
  | ensure o => exact h.ensure hst
  | notify hwnd change resolved grown => exact h.sink hst change resolved grown
  | tick visits => exact h.tick hst
  | handle cbs => exact h.handle cbs
  | key k down => exact h.hook k down

theorem WatchInv.init : WatchInv P (System.init keyMax).input :=
  ⟨List.nodup_nil, by simp [System.init, Input.init], by simp [System.init, Input.init]⟩

/-- **Run lemma.** -/
theorem WatchInv.run {s : System keyMax} {steps : List Step} (hsteps : ∀ st ∈ steps, st.Admits P)
    (h : WatchInv P s.input) : WatchInv P (final System.step s steps).input :=
  final_induction System.step (fun s => WatchInv P s.input) (Step.Admits P)
    (fun _ _ hst hs => hs.step hst) h hsteps

end Invariant

end Uniwm
