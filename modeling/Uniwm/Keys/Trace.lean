import Uniwm.Keys.Firing
import Uniwm.Model.Windows

/-!
# uniwm — which keybinds a keyboard trace fires

For callbacks that leave the table alone, the firing loop runs the matching entries
of the table, each once (`fireFrom_keep`). Along a whole trace of keyboard events
handled through `wm_process_event`, the record of held keys is the trace itself
(`keybind_tracks`). Together they give `keybinds_fire_by_trace`: what event `i` runs
is a predicate of the trace and the table alone, whatever the order of the entries.
-/

namespace Uniwm

open Base

/-! ## Callbacks that leave the table alone -/

/-- Run on the table `t`, the callbacks leave it as it is. -/
def Callbacks.Keep (cbs : Callbacks) (t : KeybindTable) : Prop :=
  ∀ ran, runCalls t (cbs ran) = t

section Loop

variable {keyMax : Nat} {cbs : Callbacks} {key : MCKey} {best : Nat} {down : Vector Bool keyMax}

theorem fireFrom_keep {t : KeybindTable} (hKeep : cbs.Keep t) {fuel i : Nat}
    (hfuel : keybindMax ≤ i + fuel) (ran : List Keybind) :
    (fireFrom cbs key best down fuel i t ran).1 = t ∧
      (fireFrom cbs key best down fuel i t ran).2.map (·.entry) =
        (t.entries.drop i).filter (firesFor key best down) := by
  induction fuel generalizing i ran with
  | zero =>
    -- the fuel covers the table, so no entry is left
    have := t.entries_length_le
    rw [List.drop_eq_nil_of_le (by omega)]
    exact ⟨rfl, rfl⟩
  | succ fuel ih =>
    cases hx : t.entries[i]? with
    | none =>
      rw [fireFrom_stop hx, List.drop_eq_nil_of_le (List.getElem?_eq_none_iff.mp hx)]
      exact ⟨rfl, rfl⟩
    | some x =>
      obtain ⟨hi, rfl⟩ := List.getElem?_eq_some_iff.mp hx
      rw [List.drop_eq_getElem_cons hi, List.filter_cons]
      by_cases hm : firesFor key best down t.entries[i] = true
      · obtain ⟨htable, hrun⟩ := ih (i := i + 1) (by omega) (ran ++ [t.entries[i]])
        rw [fireFrom_run hx hm, hKeep, if_pos hm, List.map_cons, hrun]
        exact ⟨htable, rfl⟩
      · rw [fireFrom_skip hx hm, if_neg hm]
        exact ih (by omega) ran

end Loop

/-! ## The trace of handled keyboard events -/

variable {keyMax : Nat}

/-- The queued event for a keyboard event. -/
def KeyEvent.queued (e : KeyEvent) : WMEvent :=
  if e.2 then .globalKeyDown e.1 else .globalKeyUp e.1

/-- Handling a keyboard event, with the bindings it runs. -/
def keyStep (cbs : Callbacks) (s : Input keyMax) (e : KeyEvent) : Input keyMax × List Keybind :=
  let handled := wmProcessEvent cbs s (KeyEvent.queued e)
  (handled.1, handled.2.map (·.entry))

/-- A keyboard event is no window event. -/
theorem releaseDestroyedWindow_key (s : Input keyMax) (e : KeyEvent) :
    releaseDestroyedWindow s (KeyEvent.queued e) = s := by
  obtain ⟨key, down⟩ := e
  unfold releaseDestroyedWindow wmUniwmEventType KeyEvent.queued
  cases down <;> cases s.registered <;> simp [WMEvent.type]

theorem keyStep_eq (cbs : Callbacks) (s : Input keyMax) (e : KeyEvent) :
    keyStep cbs s e = ({ s with keybind := (processKey cbs s.keybind e.1 e.2).1 },
      (processKey cbs s.keybind e.1 e.2).2.map (·.entry)) := by
  have hproc : processKeybinds cbs s.keybind (KeyEvent.queued e) =
      processKey cbs s.keybind e.1 e.2 := by
    obtain ⟨key, down⟩ := e
    cases down <;> rfl
  simp only [keyStep, wmProcessEvent, releaseDestroyedWindow_key, hproc]

theorem processKey_keep {cbs : Callbacks} {kb : Keybinds keyMax} (hKeep : cbs.Keep kb.table)
    (key : MCKey) (down : Bool) :
    (processKey cbs kb key down).1 = { kb with down := setFlag kb.down key down } := by
  simp only [processKey]
  split
  · rfl
  · simp only [(fireFrom_keep hKeep (Nat.le_add_left ..) []).1]

/-- The keys held when the trace starts: none. -/
def Input.withKeybinds (s : Input keyMax) (t : KeybindTable) : Input keyMax :=
  { s with keybind := ⟨t, Vector.replicate keyMax false⟩ }

/-- What event `i` of the trace runs, from a state with table `t` and no key held. -/
def runsAt (cbs : Callbacks) (s : Input keyMax) (t : KeybindTable) (evs : List KeyEvent)
    (i : Nat) : List Keybind :=
  (outputs (keyStep cbs) (s.withKeybinds t) evs)[i]?.getD []

/-- The table stays and the record of held keys is the trace of the events handled. -/
theorem keybind_tracks {cbs : Callbacks} {t : KeybindTable} (hKeep : cbs.Keep t)
    (s : Input keyMax) (evs : List KeyEvent) :
    (final (keyStep cbs) (s.withKeybinds t) evs).keybind.table = t ∧
      Tracks (final (keyStep cbs) (s.withKeybinds t) evs).keybind.down evs := by
  refine final_history (keyStep cbs)
    (fun s past => s.keybind.table = t ∧ Tracks s.keybind.down past)
    (fun s past e h => ?_) ⟨rfl, tracks_cleared keyMax⟩ evs
  -- callbacks that keep the table leave the record of held keys as the only change
  rw [keyStep_eq]
  simp only [processKey_keep (h.1.symm ▸ hKeep : cbs.Keep s.keybind.table)]
  exact ⟨h.1, h.2.setFlag e.1 e.2⟩

/-! ## What the trace says -/

/-- Event `i` is a press of a key not held before it, that completes `c` with the keys
held up to and including it. -/
def FreshPress (evs : List KeyEvent) (i : Nat) (c : KeyCombo) : Prop :=
  ∃ key, evs[i]? = some (key, true) ∧ held (evs.take i) key = false ∧
    Completes (fun mod => held (evs.take (i + 1)) mod = true) key c

/-- `e` is in the table, event `i` freshly completes its combo, and no longer combo of
the table. -/
def DueByTrace (t : KeybindTable) (evs : List KeyEvent) (i : Nat) (e : Keybind) : Prop :=
  e ∈ t.entries ∧ FreshPress evs i e.combo ∧
    ∀ e' ∈ t.entries, FreshPress evs i e'.combo → e'.combo.count ≤ e.combo.count

theorem held_lt {evs : List KeyEvent} (hKeys : ∀ e ∈ evs, e.1 < keyMax) {key : MCKey}
    (h : held evs key = true) : key < keyMax := by
  unfold held at h
  cases hlast : (evs.filter fun w => w.1 = key).getLast? with
  | none => simp [hlast] at h
  | some w =>
    -- the last event of the key is an event of the trace
    have hw := List.mem_of_getLast? hlast
    rw [List.mem_filter, decide_eq_true_eq] at hw
    exact hw.2 ▸ hKeys w hw.1

theorem runsAt_eq {cbs : Callbacks} {t : KeybindTable} (hKeep : cbs.Keep t) (s : Input keyMax)
    {evs : List KeyEvent} {i : Nat} {key : MCKey} {down : Bool}
    (hi : evs[i]? = some (key, down)) :
    ∃ d : Vector Bool keyMax, Tracks d (evs.take (i + 1)) ∧
      runsAt cbs s t evs i =
        if !down || (decide (key < keyMax) && held (evs.take i) key) then []
        else t.entries.filter (firesFor key (bestCount key d t.entries) d) := by
  obtain ⟨htable, htracks⟩ := keybind_tracks hKeep s (evs.take i)
  have htake : evs.take (i + 1) = evs.take i ++ [(key, down)] := by
    rw [List.take_add_one, hi]
    rfl
  -- the record of held keys already includes the event in hand
  refine ⟨_, htake ▸ htracks.setFlag key down, ?_⟩
  rw [runsAt, outputs_getElem?, hi, Option.map_some, Option.getD_some, keyStep_eq]
  simp only [processKey, htracks key, htable]
  split
  · rfl
  · simpa using (fireFrom_keep hKeep (i := 0) (Nat.le_add_left ..) []).2

theorem runsAt_nodup {cbs : Callbacks} {t : KeybindTable} (hKeep : cbs.Keep t) (s : Input keyMax)
    (evs : List KeyEvent) (i : Nat) : (runsAt cbs s t evs i).Nodup := by
  cases hi : evs[i]? with
  | none => simp [runsAt, outputs_getElem?, hi]
  | some e =>
    obtain ⟨d, -, hrun⟩ := runsAt_eq hKeep s hi
    rw [hrun]
    split
    · exact List.nodup_nil
    · exact t.entries_nodup.filter _

/-- The bindings that event `i` runs are those due by the trace. -/
theorem mem_runsAt_iff {cbs : Callbacks} {t : KeybindTable} (hKeep : cbs.Keep t)
    (s : Input keyMax) {evs : List KeyEvent} (hKeys : ∀ e ∈ evs, e.1 < keyMax) (i : Nat)
    (e : Keybind) : e ∈ runsAt cbs s t evs i ↔ DueByTrace t evs i e := by
  cases hi : evs[i]? with
  | none => simp [runsAt, outputs_getElem?, hi, DueByTrace, FreshPress]
  | some ev =>
    obtain ⟨key, down⟩ := ev
    have hkey : key < keyMax := hKeys _ (List.mem_of_getElem? hi)
    obtain ⟨d, htracks, hrun⟩ := runsAt_eq hKeep s hi
    -- an entry is triggered at `i` just in case the trace completes its combo there
    have htrig : ∀ c : KeyCombo, comboTriggered key c d = true ↔
        Completes (fun mod => held (evs.take (i + 1)) mod = true) key c := fun c => by
      rw [comboTriggered_iff]
      refine Completes.congr fun mod _ => ?_
      rw [flag_eq_true_iff htracks]
      exact and_iff_right_of_imp
        (held_lt fun ev hev => hKeys ev (List.mem_of_mem_take hev))
    -- so whether the press is fresh is the same for every combo
    have hfresh : ∀ c : KeyCombo, FreshPress evs i c ↔
        (down = true ∧ held (evs.take i) key = false) ∧ comboTriggered key c d = true := fun c => by
      unfold FreshPress
      rw [htrig, hi]
      constructor
      · rintro ⟨key', h, hup, hc⟩
        simp only [Option.some.injEq, Prod.mk.injEq] at h
        obtain ⟨rfl, rfl⟩ := h
        exact ⟨⟨rfl, hup⟩, hc⟩
      · rintro ⟨⟨rfl, hup⟩, hc⟩
        exact ⟨key, rfl, hup, hc⟩
    rw [hrun]
    by_cases hpress : down = true ∧ held (evs.take i) key = false
    · rw [if_neg (by simp [hpress.1, hpress.2]), List.mem_filter, DueByTrace]
      refine and_congr_right fun he => ?_
      rw [firesFor_bestCount_iff he]
      simp only [hfresh, hpress, and_self, true_and]
    -- a release or an auto-repeat runs nothing
    · have hidle : (!down || (decide (key < keyMax) && held (evs.take i) key)) = true := by
        cases down <;> simp_all
      rw [if_pos hidle, DueByTrace, hfresh]
      simp [hpress]

/-- **Keybinds fired by a trace.** For every table and every trace of keys below
`MC_KEY_MAX` that starts with no key held, and callbacks that leave the table alone,
event `i` runs each binding due by the trace exactly once and no other; another order
of the entries gives the same bindings. -/
theorem keybinds_fire_by_trace {cbs : Callbacks} {t : KeybindTable} (hKeep : cbs.Keep t)
    (s : Input keyMax) {evs : List KeyEvent} (hKeys : ∀ e ∈ evs, e.1 < keyMax) (i : Nat) :
    (∀ e, (DueByTrace t evs i e → (runsAt cbs s t evs i).count e = 1) ∧
      (¬ DueByTrace t evs i e → (runsAt cbs s t evs i).count e = 0)) ∧
    ∀ {cbs' : Callbacks} {t' : KeybindTable}, cbs'.Keep t' → t'.entries.Perm t.entries →
      (runsAt cbs' s t' evs i).Perm (runsAt cbs s t evs i) := by
  refine ⟨fun e => ⟨fun h => ?_, fun h => ?_⟩, fun {cbs' t'} hKeep' hPerm => ?_⟩
  · exact List.count_eq_one_of_mem (runsAt_nodup hKeep s evs i)
      ((mem_runsAt_iff hKeep s hKeys i e).mpr h)
  · exact List.count_eq_zero_of_not_mem fun he => h ((mem_runsAt_iff hKeep s hKeys i e).mp he)
  · rw [List.perm_ext_iff_of_nodup (runsAt_nodup hKeep' s evs i) (runsAt_nodup hKeep s evs i)]
    -- what is due by the trace does not depend on the order of the entries
    intro e
    rw [mem_runsAt_iff hKeep' s hKeys, mem_runsAt_iff hKeep s hKeys]
    unfold DueByTrace
    simp only [hPerm.mem_iff]

theorem keybinds_fire_by_trace_tied :
    (∀ e, (DueByTrace tiedKeybinds.table [(1, true), (2, true), (3, true)] 2 e →
        (runsAt Callbacks.idle (Input.init 128) tiedKeybinds.table
          [(1, true), (2, true), (3, true)] 2).count e = 1) ∧
      (¬ DueByTrace tiedKeybinds.table [(1, true), (2, true), (3, true)] 2 e →
        (runsAt Callbacks.idle (Input.init 128) tiedKeybinds.table
          [(1, true), (2, true), (3, true)] 2).count e = 0)) ∧
    ∀ {cbs' : Callbacks} {t' : KeybindTable}, cbs'.Keep t' →
      t'.entries.Perm tiedKeybinds.table.entries →
      (runsAt cbs' (Input.init 128) t' [(1, true), (2, true), (3, true)] 2).Perm
        (runsAt Callbacks.idle (Input.init 128) tiedKeybinds.table
          [(1, true), (2, true), (3, true)] 2) :=
  keybinds_fire_by_trace (fun _ => rfl) (Input.init 128) (by decide) 2

end Uniwm
