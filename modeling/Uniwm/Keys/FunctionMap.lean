import Uniwm.Keys.Functions
import Uniwm.Keys.Trace

/-!
# uniwm — the map of keybinds that a script sees

A script registers functions for combos, and presses run functions. The table, its slots and
the records behind it do not show: after any run the keybinds are a finite map from combos to
functions (`script_keys_refine`).

* `fireFunctions_walks`: the walk over the table is that of `Uniwm.Keys.Firing`, with callbacks
  that make the calls that the functions make on the table; `pressKey_processKey` says it of
  the handling of a press.
* `Owns.fires_iff`: what the walk tests of an entry is being due in the map.
* `Owns.runsDue`: a press runs what is due in the map, and each of it once.
-/

namespace Uniwm

open Base

-- ----------------------------------------------------------------------------
-- The walk of the table
-- ----------------------------------------------------------------------------

/-- The calls on the table that a keybind call makes. -/
def KeybindCall.bindCalls (s : LuaKeys) : KeybindCall → List BindCall
  | .register _ _ combo _ o =>
    if !o.wm then []
    else
      .unbind combo :: (o.alloc.map fun alloc => BindCall.bind combo keybindCb
        (alloc.pick (0 :: (dropKeybind s combo).callbacks.map (·.addr))) o.keyboard).toList
  | .unregister _ combo wm => if !wm then [] else [.unbind combo]

/-- And those that several make. -/
def LuaKeys.bindCalls (s : LuaKeys) : List KeybindCall → List BindCall
  | [] => []
  | call :: calls => call.bindCalls s ++ (s.step call).1.bindCalls calls

/-- The calls on the table that the function of a callback makes. -/
def CallbackRun.bindCalls (r : CallbackRun) : List BindCall := r.before.bindCalls r.run.calls

/-- The callbacks of `runs`, as `process_keybinds` sees them. -/
def walkCallbacks (runs : List CallbackRun) : Callbacks := fun ran =>
  (runs[ran.length - 1]?).elim [] CallbackRun.bindCalls

theorem step_table (s : LuaKeys) (call : KeybindCall) :
    (s.step call).1.table = runCalls s.table (call.bindCalls s) := by
  cases call with
  | unregister spec combo wm =>
    cases wm with
    | true => exact dropKeybind_table s combo
    | false => rfl
  | register L spec combo f o =>
    cases hwm : o.wm with
    | false =>
      simp only [LuaKeys.step, lRegisterKeybind, KeybindCall.bindCalls, hwm, Bool.not_false,
        if_true, Prod.fst_swap]
      rfl
    | true =>
      simp only [LuaKeys.step, lRegisterKeybind, KeybindCall.bindCalls, hwm, Bool.not_true,
        Bool.false_eq_true, if_false, Prod.fst_swap]
      have hdrop : BindCall.run s.table (.unbind combo) = (dropKeybind s combo).table :=
        (dropKeybind_table s combo).symm
      cases o.alloc with
      | none => exact dropKeybind_table s combo
      | some alloc =>
        show _ = runCalls (BindCall.run s.table (.unbind combo)) _
        rw [hdrop]
        simp only
        -- a record that could not be bound is freed, which the table does not show
        split
        · rw [luaCallbackFree_table]
          rfl
        · rfl

theorem final_table (s : LuaKeys) (calls : List KeybindCall) :
    (final LuaKeys.step s calls).table = runCalls s.table (s.bindCalls calls) := by
  induction calls generalizing s with
  | nil => rfl
  | cons call calls ih =>
    rw [final_cons, ih, step_table, LuaKeys.bindCalls, runCalls, runCalls, runCalls,
      List.foldl_append]

section Walk

variable {keyMax : Nat} {fns : Functions} {key : MCKey} {best : Nat} {down : Vector Bool keyMax}

/-- **The walk.** It is that of `fireFrom` over the table, with callbacks that make the calls
that the functions make. -/
theorem fireFunctions_walks {cbs : Callbacks} {fuel i : Nat} {s : LuaKeys}
    {ran : List LuaFunction} {past : List Keybind}
    (hcbs : ∀ n r, (fireFunctions fns key best down fuel i s ran).2[n]? = some r →
      ∀ now : List Keybind, now.length = past.length + (n + 1) → cbs now = r.bindCalls) :
    (fireFrom cbs key best down fuel i s.table past).1 =
        (fireFunctions fns key best down fuel i s ran).1.table ∧
      (fireFrom cbs key best down fuel i s.table past).2.map (·.entry) =
        (fireFunctions fns key best down fuel i s ran).2.map (·.entry) := by
  induction fuel generalizing i s ran past with
  | zero => exact ⟨rfl, rfl⟩
  | succ fuel ih =>
    cases hx : s.table.entries[i]? with
    | none =>
      rw [fireFrom_stop hx, fireFunctions_stop hx]
      exact ⟨rfl, rfl⟩
    | some x =>
      by_cases hm : firesFor key best down x = true
      · rw [fireFunctions_run hx hm] at hcbs
        rw [fireFrom_run hx hm, fireFunctions_run hx hm]
        have hbefore := callKeybindCb_before fns s x ran
        have hentry := callKeybindCb_entry fns s x ran
        simp only at hcbs ⊢
        generalize callKeybindCb fns s x ran = r at hbefore hentry hcbs ⊢
        -- the first callback makes the calls of its function
        have hcalls : cbs (past ++ [x]) = r.bindCalls :=
          hcbs 0 r rfl (past ++ [x]) (by rw [List.length_append, List.length_singleton])
        have htable : runCalls s.table (cbs (past ++ [x])) = r.after.table := by
          rw [hcalls, CallbackRun.after, final_table, CallbackRun.bindCalls, hbefore]
        rw [htable]
        obtain ⟨hfinal, hentries⟩ := @ih (i + 1) r.after (ran ++ r.function.toList) (past ++ [x])
          (by
            intro n r' hr' now hnow
            refine hcbs (n + 1) r' (by rw [List.getElem?_cons_succ]; exact hr') now ?_
            rw [List.length_append, List.length_singleton] at hnow
            omega)
        refine ⟨hfinal, ?_⟩
        rw [List.map_cons, List.map_cons, hentries, hentry]
      · rw [fireFunctions_skip hx hm] at hcbs
        rw [fireFrom_skip hx hm, fireFunctions_skip hx hm]
        exact ih hcbs

/-- So handling a press is `processKey`. -/
theorem pressKey_processKey (fns : Functions) {s : ScriptKeys keyMax}
    (hfresh : flag s.down key = false) :
    let handled := processKey (walkCallbacks (s.fire fns key).2) ⟨s.keys.table, s.down⟩ key true
    handled.1 = ⟨(s.fire fns key).1.table, setFlag s.down key true⟩ ∧
      handled.2.map (·.entry) = (s.fire fns key).2.map (·.entry) := by
  obtain ⟨htable, hentries⟩ := @fireFunctions_walks keyMax fns key
    (bestCount key (setFlag s.down key true) s.keys.table.entries) (setFlag s.down key true)
    (walkCallbacks (s.fire fns key).2) keybindMax 0 s.keys [] [] (by
      intro n r hr now hnow
      have hlast : now.length - 1 = n := by
        rw [hnow, List.length_nil]
        omega
      have hrun : (s.fire fns key).2[n]? = some r := hr
      rw [walkCallbacks, hlast, hrun]
      rfl)
  simp only [processKey, hfresh, Bool.not_true, Bool.or_self, Bool.false_eq_true, if_false]
  rw [htable, hentries]
  exact ⟨rfl, rfl⟩

/-- Functions that make no calls all find the state as it was when the press came. -/
theorem fireFunctions_quiet (hquiet : fns.Quiet) (fuel i : Nat) (s : LuaKeys)
    (ran : List LuaFunction) :
    ∀ r ∈ (fireFunctions fns key best down fuel i s ran).2, r.before = s ∧ r.run.calls = [] := by
  induction fuel generalizing i ran with
  | zero => exact fun r hr => nomatch hr
  | succ fuel ih =>
    cases hx : s.table.entries[i]? with
    | none =>
      rw [fireFunctions_stop hx]
      exact fun r hr => nomatch hr
    | some x =>
      by_cases hm : firesFor key best down x = true
      · have hcalls : (callKeybindCb fns s x ran).run.calls = [] := by
          unfold callKeybindCb
          split
          · rfl
          · exact hquiet _
        have hafter : (callKeybindCb fns s x ran).after = s := by
          rw [CallbackRun.after, hcalls, callKeybindCb_before]
          rfl
        rw [fireFunctions_run hx hm]
        simp only [hafter]
        exact List.forall_mem_cons.mpr ⟨⟨callKeybindCb_before .., hcalls⟩, ih (i + 1) _⟩
      · rw [fireFunctions_skip hx hm]
        exact ih (i + 1) ran

/-- And then the entries that fire are those that match. -/
theorem fire_quiet (hquiet : fns.Quiet) (s : ScriptKeys keyMax) :
    (s.fire fns key).2.map (·.entry) =
      s.keys.table.entries.filter (firesFor key
        (bestCount key (setFlag s.down key true) s.keys.table.entries)
        (setFlag s.down key true)) := by
  have hkeep : Callbacks.idle.Keep s.keys.table := fun _ => rfl
  obtain ⟨-, hentries⟩ := @fireFunctions_walks keyMax fns key
    (bestCount key (setFlag s.down key true) s.keys.table.entries) (setFlag s.down key true)
    Callbacks.idle keybindMax 0 s.keys [] [] (by
      intro n r hr now _
      have hcalls := (fireFunctions_quiet hquiet _ _ _ _ r (List.mem_of_getElem? hr)).2
      rw [CallbackRun.bindCalls, hcalls]
      rfl)
  rw [ScriptKeys.fire, ← hentries, (fireFrom_keep hkeep (Nat.le_add_left ..) []).2, List.drop_zero]

end Walk

-- ----------------------------------------------------------------------------
-- The map that a script sees
-- ----------------------------------------------------------------------------

/-- The keyboard events of a run. -/
def keyEvents (steps : List ScriptKeyStep) : List KeyEvent :=
  steps.flatMap fun
    | .call _ => []
    | .key key down _ => [(key, down)]

/-- In the map `m` the combo has a function, a press of `key` after `evs` completes it, and no
longer combo of the map. -/
def DueInMap (keyMax : Nat) (m : KeyCombo → Option LuaFunction) (evs : List KeyEvent)
    (key : MCKey) (combo : KeyCombo) : Prop :=
  let isHeld := fun mod => mod < keyMax ∧ held (evs ++ [(key, true)]) mod = true
  Completes isHeld key combo ∧
    ∀ combo', (m combo').isSome → Completes isHeld key combo' → combo'.count ≤ combo.count

/-- The press runs just the functions that are due in the map, each for its combo once. -/
structure RunsDue (keyMax : Nat) (m : KeyCombo → Option LuaFunction) (evs : List KeyEvent)
    (key : MCKey) (runs : List CallbackRun) : Prop where
  once : (runs.map (·.entry.combo.toList)).Nodup
  due : ∀ combo f, (∃ r ∈ runs, comboEq r.entry.combo combo = true ∧ r.function = some f) ↔
    m combo = some f ∧ DueInMap keyMax m evs key combo

section Map

variable {keyMax : Nat} {s : ScriptKeys keyMax} {cells : List Cell} {fns : Functions}
  {key : MCKey}

theorem script_tracks (keyMax : Nat) (steps : List ScriptKeyStep) :
    Tracks (final ScriptKeys.step (ScriptKeys.init keyMax) steps).down (keyEvents steps) := by
  refine final_history ScriptKeys.step (fun s past => Tracks s.down (keyEvents past))
    (fun s past st h => ?_) (tracks_cleared keyMax) steps
  rw [keyEvents, List.flatMap_append]
  cases st with
  | call c => exact (List.append_nil (keyEvents past)).symm ▸ h
  | key key down fns =>
    have hdown : (pressKey fns s key down).1.down = setFlag s.down key down := by
      simp only [pressKey]
      split <;> rfl
    show Tracks (pressKey fns s key down).1.down (keyEvents past ++ [(key, down)])
    rw [hdown]
    exact h.setFlag key down

/-- Combos that a table compares as equal are completed alike. -/
theorem completes_congr {isHeld : MCKey → Prop} {c c' : KeyCombo} (h : comboEq c c' = true) :
    Completes isHeld key c ↔ Completes isHeld key c' := by
  rw [Completes, Completes, comboEq_iff.mp h]

theorem count_congr {c c' : KeyCombo} (h : comboEq c c' = true) : c.count = c'.count := by
  rw [← Slots.toList_length, ← Slots.toList_length, comboEq_iff.mp h]

/-- For an entry of the table the test of the firing loop is being due in the map. -/
theorem Owns.fires_iff (h : Owns s.keys cells) {evs : List KeyEvent}
    (htracks : Tracks s.down evs) {e : Keybind} (he : e ∈ s.keys.table.entries) :
    firesFor key (bestCount key (setFlag s.down key true) s.keys.table.entries)
        (setFlag s.down key true) e = true ↔
      DueInMap keyMax (functionOf cells) evs key e.combo := by
  have hcompletes : ∀ c : KeyCombo, comboTriggered key c (setFlag s.down key true) = true ↔
      Completes (fun mod => mod < keyMax ∧ held (evs ++ [(key, true)]) mod = true) key c := by
    intro c
    rw [comboTriggered_iff]
    exact Completes.congr fun mod _ => flag_eq_true_iff (htracks.setFlag key true) mod
  rw [firesFor_bestCount_iff he, hcompletes]
  refine and_congr_right fun _ => ?_
  constructor
  · intro hmax combo' hsome hcombo'
    -- the combos of the map are those of the entries
    obtain ⟨f, hf⟩ := Option.isSome_iff_exists.mp hsome
    obtain ⟨c, -, heq, -, hc⟩ := h.exists_of_functionOf hf
    rw [← count_congr heq]
    exact hmax c.entry hc ((hcompletes _).mpr ((completes_congr heq).mpr hcombo'))
  · intro hmax e' he' htriggered
    obtain ⟨c, hc, rfl⟩ := h.exists_cell he'
    refine hmax c.entry.combo ?_ ((hcompletes _).mp htriggered)
    rw [h.functionOf_eq hc (comboEq_iff.mpr rfl)]
    rfl

/-- A press runs what is due. -/
theorem Owns.runsDue (h : Owns s.keys cells) {evs : List KeyEvent} (htracks : Tracks s.down evs)
    (hquiet : fns.Quiet) :
    RunsDue keyMax (functionOf cells) evs key (s.fire fns key).2 := by
  have hentries := @fire_quiet keyMax fns key hquiet s
  have hfetched : ∀ r ∈ (s.fire fns key).2, r.function = keybindFunction s.keys r.entry.ctx := by
    intro r hr
    have hbefore := (fireFunctions_quiet hquiet _ _ _ _ r hr).1
    rw [← hbefore]
    exact ((fireFunctions_owns h keybindMax 0 []).2 r hr).fetched
  have hmem : ∀ e, e ∈ (s.fire fns key).2.map (·.entry) ↔ e ∈ s.keys.table.entries ∧
      DueInMap keyMax (functionOf cells) evs key e.combo := by
    intro e
    rw [hentries, List.mem_filter]
    exact and_congr_right fun he => h.fires_iff htracks he
  refine ⟨?_, ?_⟩
  · -- the entries of a table have distinct combos
    have hkeys : (s.keys.table.entries.map (·.combo.toList)).Nodup := by
      rw [(h.entries.map _).nodup_iff, List.map_map]
      exact h.keys
    have hsub : ((s.fire fns key).2.map (·.entry)).Sublist s.keys.table.entries := by
      rw [hentries]
      exact List.filter_sublist
    have hmap := hkeys.sublist (hsub.map (·.combo.toList))
    rwa [List.map_map] at hmap
  · intro combo f
    constructor
    · rintro ⟨r, hr, hcombo, hf⟩
      obtain ⟨he, hdue⟩ := (hmem r.entry).mp (List.mem_map_of_mem hr)
      obtain ⟨c, hc, heq⟩ := h.exists_cell he
      have hfunction := hfetched r hr
      rw [← heq, h.keybindFunction_eq hc, hf] at hfunction
      rw [← heq] at hcombo hdue
      rw [h.functionOf_eq hc hcombo, hfunction]
      refine ⟨rfl, (completes_congr hcombo).mp hdue.1, ?_⟩
      rw [← count_congr hcombo]
      exact hdue.2
    · rintro ⟨hf, hdue⟩
      obtain ⟨c, hc, hcombo, hfunction, he⟩ := h.exists_of_functionOf hf
      have hdue' : DueInMap keyMax (functionOf cells) evs key c.entry.combo := by
        refine ⟨(completes_congr hcombo).mpr hdue.1, ?_⟩
        rw [count_congr hcombo]
        exact hdue.2
      obtain ⟨r, hr, heq⟩ := List.mem_map.mp ((hmem c.entry).mpr ⟨he, hdue'⟩)
      refine ⟨r, hr, heq ▸ hcombo, ?_⟩
      rw [hfetched r hr, heq, h.keybindFunction_eq hc, hfunction]

end Map

/-- **The keybinds of a script are a map.** After any run of register and unregister calls,
made by the script or by the functions that its keybinds run, and of keyboard events, the
function of each combo is the one that the calls have left it, failed calls included. A press
of a key that is held runs nothing; any other press, if the functions that it runs make no
calls, runs the functions of the combos that it completes, with all earlier keys held, and
that no longer combo of the map beats: just these, and each of them once. -/
theorem script_keys_refine {keyMax : Nat} (steps : List ScriptKeyStep) (key : MCKey)
    (fns : Functions) :
    let s := final ScriptKeys.step (ScriptKeys.init keyMax) steps
    let m := applyLog (fun _ => none) ((ScriptKeys.init keyMax).runLog steps)
    (∀ combo, s.keys.boundFunction combo = m combo) ∧
      (key < keyMax ∧ held (keyEvents steps) key = true → (s.step (.key key true fns)).2 = []) ∧
      (¬ (key < keyMax ∧ held (keyEvents steps) key = true) → fns.Quiet →
        RunsDue keyMax m (keyEvents steps) key (s.step (.key key true fns)).2) := by
  intro s m
  obtain ⟨⟨cells, howns, hmap⟩, -⟩ :=
    ScriptKeys.owns_run (s := ScriptKeys.init keyMax) owns_init steps
  have htracks : Tracks s.down (keyEvents steps) := script_tracks keyMax steps
  have hm : functionOf cells = m := hmap
  rw [← flag_eq_true_iff htracks]
  refine ⟨?_, ?_, ?_⟩
  · intro combo
    rw [howns.boundFunction, hm]
  · intro hheld
    rw [ScriptKeys.step, pressKey_idle fns fun _ => hheld]
  · intro hfresh hquiet
    rw [ScriptKeys.step, pressKey_fresh fns (Bool.not_eq_true _ ▸ hfresh), ← hm]
    exact howns.runsDue htracks hquiet

/-- Functions that do nothing. -/
def Functions.idle : Functions := fun _ => ⟨[], false⟩

/-- 1 + 2 is registered, and 1 is held. -/
def armingRun : List ScriptKeyStep :=
  [.call (.register 1 "A + B" (.pair 1 2) 7 ⟨true, some .next, .next, .ok⟩),
    .key 1 true Functions.idle]

theorem script_keys_refine_armed :
    let s := final ScriptKeys.step (ScriptKeys.init 128) armingRun
    let m := applyLog (fun _ => none) ((ScriptKeys.init 128).runLog armingRun)
    (∀ combo, s.keys.boundFunction combo = m combo) ∧
      (2 < 128 ∧ held (keyEvents armingRun) 2 = true →
        (s.step (.key 2 true Functions.idle)).2 = []) ∧
      (¬ (2 < 128 ∧ held (keyEvents armingRun) 2 = true) →
        RunsDue 128 m (keyEvents armingRun) 2 (s.step (.key 2 true Functions.idle)).2) := by
  obtain ⟨hmap, hheld, hdue⟩ := script_keys_refine armingRun 2 Functions.idle
  exact ⟨hmap, hheld, fun hfresh => hdue hfresh fun _ => rfl⟩

end Uniwm
