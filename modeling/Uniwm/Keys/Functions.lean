import Uniwm.Keys.Firing
import Uniwm.Keys.Replacing
import Uniwm.Model.Functions

/-!
# uniwm — the functions that keybinds run

A function that a keybind runs may register and unregister keybinds itself, while
`process_keybinds` walks the table and `keybind_cb` holds a pointer to the record that the
function came from.

* `Owns.moves`: what a call does to the cells of `Uniwm.Keys.Bindings`, also when it fails.
* `callbacks_read_records`: in every run, each callback finds its record allocated, and fetches
  the function that the combo then has. If the function raises an error the record is read
  once more, and it is still there unless the function dropped its own keybind;
  `callback_reads_freed` does.

`ScriptKeys.owns_run` is the invariant of runs behind it: cells that are owned, and a map of
functions that is what the calls made so far say.
-/

namespace Uniwm

open Base

-- ----------------------------------------------------------------------------
-- What a call does to the cells
-- ----------------------------------------------------------------------------

/-- The combo that a call is about. -/
def KeybindCall.combo : KeybindCall → KeyCombo
  | .register _ _ combo _ _ => combo
  | .unregister _ combo _ => combo

/-- A window manager is found, so that the call comes to the table. -/
def KeybindCall.wm : KeybindCall → Bool
  | .register _ _ _ _ o => o.wm
  | .unregister _ _ wm => wm

/-- The function that a call asks for. -/
def KeybindCall.function : KeybindCall → Option LuaFunction
  | .register _ _ _ f _ => some f
  | .unregister _ _ _ => none

/-- What becomes of the cells in a call that raises `raised` or nothing. -/
inductive Moves (cells : List Cell) (call : KeybindCall) (raised : Option String) :
    List Cell → Prop where
  | stays (hwm : call.wm = false) : Moves cells call raised cells
  | drops (hwm : call.wm = true) (hnone : raised = none → call.function = none) :
    Moves cells call raised (without cells call.combo)
  | binds (c : Cell) (hwm : call.wm = true) (hok : raised = none)
    (hkeys : c.keys = call.combo.toList) (hfunction : call.function = some c.record.function) :
    Moves cells call raised (c :: without cells call.combo)

/-- What a call makes of the map of functions: what `combo` is given, if the call is about it. -/
def KeybindCall.leaves (call : KeybindCall) (raised : Option String) (combo : KeyCombo) :
    Option (Option LuaFunction) :=
  if call.wm && comboEq call.combo combo then
    some (if raised = none then call.function else none)
  else none

/-- Without a window manager a call does nothing. -/
theorem step_of_not_wm (s : LuaKeys) {call : KeybindCall} (hwm : call.wm = false) :
    (s.step call).1 = s := by
  cases call with
  | register L spec combo f o =>
    replace hwm : o.wm = false := hwm
    simp only [LuaKeys.step, lRegisterKeybind, hwm, Bool.not_false, if_true, Prod.fst_swap]
  | unregister spec combo wm =>
    obtain rfl : wm = false := hwm
    rfl

section Moves

variable {s : LuaKeys} {cells cells' : List Cell} {call : KeybindCall} {raised : Option String}

theorem Moves.functionOf (h : Moves cells call raised cells') (combo : KeyCombo) :
    functionOf cells' combo = (call.leaves raised combo).getD (functionOf cells combo) := by
  unfold KeybindCall.leaves
  cases h with
  | stays hwm => simp [hwm]
  | drops hwm hnone =>
    rw [functionOf_without, hwm, Bool.true_and]
    by_cases hcombo : comboEq call.combo combo = true
    · rw [if_pos hcombo, if_pos hcombo, Option.getD_some]
      by_cases hraised : raised = none
      · rw [if_pos hraised, hnone hraised]
      · rw [if_neg hraised]
    · rw [if_neg hcombo, if_neg hcombo, Option.getD_none]
  | binds c hwm hok hkeys hfunction =>
    rw [functionOf_cons c _ hkeys, functionOf_without, hwm, Bool.true_and, if_pos hok, hfunction]
    split <;> rfl

/-- A cell of another combo stays. -/
theorem Moves.mem (h : Moves cells call raised cells') {c : Cell} (hc : c ∈ cells)
    (hother : call.wm = true → c.keys ≠ call.combo.toList) : c ∈ cells' := by
  cases h with
  | stays => exact hc
  | drops hwm => exact List.mem_filter.mpr ⟨hc, by simpa using hother hwm⟩
  | binds _ hwm =>
    exact List.mem_cons_of_mem _ (List.mem_filter.mpr ⟨hc, by simpa using hother hwm⟩)

/-- A registration that fails after the unbinding leaves the cells without the combo. -/
theorem Owns.register_raised (h : Owns s cells) (L : Ptr) (spec : String) {combo : KeyCombo}
    (f : LuaFunction) {o : RegisterOutcome} (hwm : o.wm = true)
    (hraised : (lRegisterKeybind s L spec (some combo) f o).1 ≠ none) :
    Owns (lRegisterKeybind s L spec (some combo) f o).2 (without cells combo) := by
  have hdrop := h.drop combo
  unfold lRegisterKeybind at hraised ⊢
  simp only [hwm, Bool.not_true, Bool.false_eq_true, if_false] at hraised ⊢
  generalize dropKeybind s combo = s' at hdrop hraised ⊢
  cases halloc : o.alloc with
  | none => exact hdrop
  | some alloc =>
    have hnew := hdrop.stored.new alloc o.ref L f
    simp only [halloc] at hnew hraised ⊢
    generalize alloc.pick (0 :: s'.callbacks.map (·.addr)) = k at hnew hraised ⊢
    generalize o.ref.pick (s'.registry.map (·.1)) = n at hnew hraised ⊢
    rcases wmBindKey_cases (s'.newCallback k L n f).table combo k o.keyboard Nat.one_ne_zero with
      ⟨hok, -⟩ | ⟨hfail, hsame⟩
    · rw [if_neg (not_not.mpr hok)] at hraised
      exact absurd rfl hraised
    · rw [if_pos hfail]
      exact hdrop.giveUp (hnew.setTable _) hsame

/-- **A call.** Whatever fails in it, it does one of three things to the cells. -/
theorem Owns.moves (h : Owns s cells) (call : KeybindCall) :
    ∃ cells', Owns (s.step call).1 cells' ∧ Moves cells call (s.step call).2 cells' := by
  cases hwm : call.wm with
  | false => exact ⟨cells, (step_of_not_wm s hwm).symm ▸ h, .stays hwm⟩
  | true =>
    cases call with
    | unregister spec combo wm =>
      obtain rfl : wm = true := hwm
      exact ⟨_, h.drop combo, .drops rfl fun _ => rfl⟩
    | register L spec combo f o =>
      by_cases hok : (lRegisterKeybind s L spec (some combo) f o).1 = none
      · rcases h.register L spec combo f o with ⟨c, hkeys, hf, howns⟩ | ⟨herror, -⟩
        · exact ⟨_, howns, .binds c hwm hok hkeys (congrArg some hf.symm)⟩
        · exact absurd hok herror
      -- an error after the unbinding leaves the cells without the combo
      · exact ⟨_, h.register_raised L spec f hwm hok, .drops hwm fun hnone => absurd hnone hok⟩

end Moves

-- ----------------------------------------------------------------------------
-- What functions do to the cells
-- ----------------------------------------------------------------------------

/-- A call, and the error that it raised. -/
abbrev Logged := KeybindCall × Option String

/-- The calls with the errors that they raise. -/
def LuaKeys.log (s : LuaKeys) (calls : List KeybindCall) : List Logged :=
  calls.zip (outputs LuaKeys.step s calls)

/-- What the function of a callback did. -/
def CallbackRun.log (r : CallbackRun) : List Logged := r.before.log r.run.calls

/-- The map of functions after the calls of `log`. -/
def applyLog (m : KeyCombo → Option LuaFunction) (log : List Logged) :
    KeyCombo → Option LuaFunction :=
  log.foldl (fun m l combo => (l.1.leaves l.2 combo).getD (m combo)) m

theorem applyLog_append (m : KeyCombo → Option LuaFunction) (log log' : List Logged) :
    applyLog m (log ++ log') = applyLog (applyLog m log) log' := by
  rw [applyLog, applyLog, applyLog, List.foldl_append]

/-- The call takes the keybind of `combo` out. -/
def KeybindCall.Drops (call : KeybindCall) (combo : KeyCombo) : Prop :=
  call.wm = true ∧ comboEq call.combo combo = true

section Owned

variable {s : LuaKeys} {cells : List Cell} {c : Cell}

/-- **Calls.** They do to the map what their log says, and leave the cells alone whose combos
they do not drop. -/
theorem Owns.calls (h : Owns s cells) (calls : List KeybindCall) :
    ∃ cells', Owns (Base.final LuaKeys.step s calls) cells' ∧
      functionOf cells' = applyLog (functionOf cells) (s.log calls) ∧
      ∀ c ∈ cells, (∀ call ∈ calls, ¬ call.Drops c.entry.combo) → c ∈ cells' := by
  induction calls generalizing s cells with
  | nil => exact ⟨cells, h, rfl, fun c hc _ => hc⟩
  | cons call calls ih =>
    obtain ⟨cells₁, howns₁, hmoves⟩ := h.moves call
    obtain ⟨cells₂, howns₂, hmap, hkeeps⟩ := ih howns₁
    refine ⟨cells₂, howns₂, ?_, ?_⟩
    · have hfirst : functionOf cells₁ =
          fun combo => (call.leaves (s.step call).2 combo).getD (functionOf cells combo) :=
        funext hmoves.functionOf
      rw [hmap, hfirst]
      rfl
    · intro c hc hdrops
      rw [List.forall_mem_cons] at hdrops
      refine hkeeps c (hmoves.mem hc fun hwm hkeys => hdrops.1 ⟨hwm, ?_⟩) hdrops.2
      exact comboEq_iff.mpr hkeys.symm

/-- The record of a cell is allocated. -/
theorem Owns.live (h : Owns s cells) (hc : c ∈ cells) : s.Live c.entry.ctx := by
  have hrecord := List.mem_map_of_mem (f := (·.callback)) (List.mem_map_of_mem (f := (·.record)) hc)
  rw [LuaKeys.Live, (h.stored.callbacks.map _).mem_iff, c.ctx_eq]
  exact List.mem_map_of_mem hrecord

/-- Its function is the one that `keybind_cb` fetches. -/
theorem Owns.keybindFunction_eq (h : Owns s cells) (hc : c ∈ cells) :
    keybindFunction s c.entry.ctx = some c.record.function := by
  have hrecord := List.mem_map_of_mem (f := (·.record)) hc
  rw [keybindFunction, c.ctx_eq, h.stored.find hrecord]
  show (s.registry.find? (·.1 = c.record.callback.ref) >>= fun slot => pure slot.2) = _
  rw [h.stored.find_function hrecord]
  rfl

/-- And the one that the map has for its combo. -/
theorem Owns.functionOf_eq (h : Owns s cells) (hc : c ∈ cells) {combo : KeyCombo}
    (hcombo : comboEq c.entry.combo combo = true) :
    functionOf cells combo = some c.record.function := by
  rw [functionOf, find?_keyed h.keys hc (comboEq_iff.mp hcombo)]
  rfl

/-- Every entry is that of a cell. -/
theorem Owns.exists_cell (h : Owns s cells) {e : Keybind} (he : e ∈ s.table.entries) :
    ∃ c ∈ cells, c.entry = e :=
  List.mem_map.mp (h.entries.mem_iff.mp he)

/-- A combo with a function has an entry. -/
theorem Owns.exists_of_functionOf (h : Owns s cells) {combo : KeyCombo} {f : LuaFunction}
    (hf : functionOf cells combo = some f) :
    ∃ c ∈ cells, comboEq c.entry.combo combo = true ∧ c.record.function = f ∧
      c.entry ∈ s.table.entries := by
  obtain ⟨c, hfind, rfl⟩ := Option.map_eq_some_iff.mp hf
  have hc := List.mem_of_find?_eq_some hfind
  have hkeys : c.keys = combo.toList := by simpa using List.find?_some hfind
  refine ⟨c, hc, comboEq_iff.mpr hkeys, rfl, ?_⟩
  exact h.entries.mem_iff.mpr (List.mem_map_of_mem hc)

end Owned

-- ----------------------------------------------------------------------------
-- The walk
-- ----------------------------------------------------------------------------

section Walk

variable {keyMax : Nat} {fns : Functions} {key : MCKey} {best : Nat} {down : Vector Bool keyMax}
  {s : LuaKeys} {cells : List Cell}

theorem fireFunctions_stop {i : Nat} (hx : s.table.entries[i]? = none) (fuel : Nat)
    (ran : List LuaFunction) :
    fireFunctions fns key best down (fuel + 1) i s ran = (s, []) := by
  rw [fireFunctions, KeybindTable.get?_eq, hx]

theorem fireFunctions_run {i : Nat} {x : Keybind} (hx : s.table.entries[i]? = some x)
    (hm : firesFor key best down x = true) (fuel : Nat) (ran : List LuaFunction) :
    fireFunctions fns key best down (fuel + 1) i s ran =
      let r := callKeybindCb fns s x ran
      let rest := fireFunctions fns key best down fuel (i + 1) r.after
        (ran ++ r.function.toList)
      (rest.1, r :: rest.2) := by
  rw [fireFunctions, KeybindTable.get?_eq, hx]
  simp only [hm, if_true]

theorem fireFunctions_skip {i : Nat} {x : Keybind} (hx : s.table.entries[i]? = some x)
    (hm : ¬ firesFor key best down x = true) (fuel : Nat) (ran : List LuaFunction) :
    fireFunctions fns key best down (fuel + 1) i s ran =
      fireFunctions fns key best down fuel (i + 1) s ran := by
  rw [fireFunctions, KeybindTable.get?_eq, hx]
  simp only [if_neg hm]

@[simp] theorem callKeybindCb_before (fns : Functions) (s : LuaKeys) (e : Keybind)
    (ran : List LuaFunction) : (callKeybindCb fns s e ran).before = s := by
  unfold callKeybindCb
  split <;> rfl

@[simp] theorem callKeybindCb_entry (fns : Functions) (s : LuaKeys) (e : Keybind)
    (ran : List LuaFunction) : (callKeybindCb fns s e ran).entry = e := by
  unfold callKeybindCb
  split <;> rfl

theorem callKeybindCb_function (fns : Functions) (s : LuaKeys) (e : Keybind)
    (ran : List LuaFunction) :
    (callKeybindCb fns s e ran).function = keybindFunction s e.ctx := by
  unfold callKeybindCb
  split
  · next h => exact h.symm
  · next h => exact h.symm

/-- The firing loop for a press of `key`. -/
def ScriptKeys.fire (s : ScriptKeys keyMax) (fns : Functions) (key : MCKey) :
    LuaKeys × List CallbackRun :=
  fireFunctions fns key (bestCount key (setFlag s.down key true) s.keys.table.entries)
    (setFlag s.down key true) keybindMax 0 s.keys []

/-- A release, or the press of a key that is held. -/
theorem pressKey_idle (fns : Functions) {s : ScriptKeys keyMax} {down : Bool}
    (h : down = true → flag s.down key = true) :
    pressKey fns s key down = (⟨s.keys, setFlag s.down key down⟩, []) := by
  have hidle : (!down || flag s.down key) = true := by
    cases down with
    | true => exact h rfl
    | false => rfl
  simp only [pressKey, hidle, if_true]

/-- A press of a key that is not held. -/
theorem pressKey_fresh (fns : Functions) {s : ScriptKeys keyMax} (h : flag s.down key = false) :
    pressKey fns s key true =
      (⟨(s.fire fns key).1, setFlag s.down key true⟩, (s.fire fns key).2) := by
  simp only [pressKey, h, Bool.not_true, Bool.or_self, Bool.false_eq_true, if_false]
  rfl

/-- The callback is called for an entry of the table as it stands. -/
structure CallbackRun.Sound (r : CallbackRun) : Prop where
  owned : ∃ cells, Owns r.before cells
  bound : r.entry ∈ r.before.table.entries
  fetched : r.function = keybindFunction r.before r.entry.ctx

/-- **The walk and the cells.** The callbacks are called as they should be, and together they
do to the map what their functions' calls say. -/
theorem fireFunctions_owns (h : Owns s cells) (fuel i : Nat) (ran : List LuaFunction) :
    (∃ cells', Owns (fireFunctions fns key best down fuel i s ran).1 cells' ∧
      functionOf cells' = applyLog (functionOf cells)
        ((fireFunctions fns key best down fuel i s ran).2.flatMap CallbackRun.log)) ∧
    ∀ r ∈ (fireFunctions fns key best down fuel i s ran).2, r.Sound := by
  induction fuel generalizing i s cells ran with
  | zero => exact ⟨⟨cells, h, rfl⟩, fun r hr => absurd hr List.not_mem_nil⟩
  | succ fuel ih =>
    cases hx : s.table.entries[i]? with
    | none =>
      rw [fireFunctions_stop hx]
      exact ⟨⟨cells, h, rfl⟩, fun r hr => absurd hr List.not_mem_nil⟩
    | some x =>
      by_cases hm : firesFor key best down x = true
      · rw [fireFunctions_run hx hm]
        have hbefore := callKeybindCb_before fns s x ran
        have hsound : (callKeybindCb fns s x ran).Sound := by
          refine ⟨⟨cells, hbefore.symm ▸ h⟩, ?_, ?_⟩
          · rw [hbefore, callKeybindCb_entry]
            exact List.mem_of_getElem? hx
          · rw [callKeybindCb_function, hbefore, callKeybindCb_entry]
        generalize callKeybindCb fns s x ran = r at hbefore hsound ⊢
        -- the function leaves cells too, and the walk goes on from these
        obtain ⟨cells₁, howns₁, hmap₁, -⟩ := h.calls r.run.calls
        rw [← hbefore] at howns₁ hmap₁
        obtain ⟨⟨cells₂, howns₂, hmap₂⟩, hrest⟩ :=
          ih (s := r.after) howns₁ (i + 1) (ran ++ r.function.toList)
        refine ⟨⟨cells₂, howns₂, ?_⟩, List.forall_mem_cons.mpr ⟨hsound, hrest⟩⟩
        rw [hmap₂, hmap₁, List.flatMap_cons, applyLog_append]
        rfl
      · rw [fireFunctions_skip hx hm]
        exact ih h (i + 1) ran

end Walk

-- ----------------------------------------------------------------------------
-- Records that are freed
-- ----------------------------------------------------------------------------

section Freed

variable {s : LuaKeys} {cells : List Cell} {c : Cell}

theorem luaCallbackFree_returned (s : LuaKeys) (k : Ptr) :
    (luaCallbackFree s k).records.returned = s.records.returned ++ [k] := by
  rw [luaCallbackFree]
  split <;> rfl

/-- Freed addresses stay on the list. -/
theorem dropKeybind_returned (s : LuaKeys) (combo : KeyCombo) (k : Ptr) :
    s.records.returned.count k ≤ (dropKeybind s combo).records.returned.count k := by
  rw [dropKeybind]
  split
  · rw [luaCallbackFree_returned, List.count_append]
    exact Nat.le_add_right _ _
  · exact Nat.le_refl _

/-- Dropping a keybind frees its record. -/
theorem Owns.drop_returned (h : Owns s cells) (hc : c ∈ cells) {combo : KeyCombo}
    (hcombo : comboEq c.entry.combo combo = true) :
    s.records.returned.count c.entry.ctx + 1 ≤
      (dropKeybind s combo).records.returned.count c.entry.ctx := by
  have hentry : c.entry ∈ s.table.entries := h.entries.mem_iff.mpr (List.mem_map_of_mem hc)
  rcases wmUnbindKey_cases s.table combo with ⟨hnone, -⟩ | ⟨e, hmatch, hctx, hrest⟩
  · rw [hnone c.entry hentry] at hcombo
    exact Bool.noConfusion hcombo
  · -- no other entry has the combo
    have he : e ∈ s.table.entries := hrest.mem_iff.mpr List.mem_cons_self
    obtain ⟨c', hc', rfl⟩ := h.exists_cell he
    have hsame : c'.keys = c.keys :=
      (comboEq_iff.mp hmatch).trans (comboEq_iff.mp hcombo).symm
    obtain rfl : c' = c := List.inj_on_of_nodup_map h.keys hc' hc hsame
    have hne : (wmUnbindKey s.table combo).2.1 ≠ 0 := by
      rw [hctx, c'.ctx_eq]
      exact h.stored.allocated _ (List.mem_map_of_mem hc')
    rw [dropKeybind, if_pos hne, luaCallbackFree_returned, List.count_append, hctx,
      List.count_singleton_self]

/-- After the unbinding, registering may free the new record, and no other. -/
theorem register_returned (s : LuaKeys) (L : Ptr) (spec : String) {combo : KeyCombo}
    (f : LuaFunction) {o : RegisterOutcome} (hwm : o.wm = true) (k : Ptr) :
    (dropKeybind s combo).records.returned.count k ≤
      (lRegisterKeybind s L spec (some combo) f o).2.records.returned.count k := by
  simp only [lRegisterKeybind, hwm, Bool.not_true, Bool.false_eq_true, if_false]
  cases o.alloc with
  | none => exact Nat.le_refl _
  | some alloc =>
    simp only
    split
    · rw [luaCallbackFree_returned, List.count_append]
      exact Nat.le_add_right _ _
    · exact Nat.le_refl _

/-- A call that comes to the table drops the keybind of its combo first. -/
theorem step_returned (s : LuaKeys) {call : KeybindCall} (hwm : call.wm = true) (k : Ptr) :
    (dropKeybind s call.combo).records.returned.count k ≤
      (s.step call).1.records.returned.count k := by
  cases call with
  | register L spec combo f o => exact register_returned s L spec f hwm k
  | unregister spec combo wm =>
    cases wm with
    | true => exact Nat.le_refl _
    | false => exact Bool.noConfusion hwm

theorem step_returned_le (s : LuaKeys) (call : KeybindCall) (k : Ptr) :
    s.records.returned.count k ≤ (s.step call).1.records.returned.count k := by
  by_cases hwm : call.wm = true
  · exact Nat.le_trans (dropKeybind_returned s call.combo k) (step_returned s hwm k)
  · rw [step_of_not_wm s (Bool.not_eq_true _ ▸ hwm)]

theorem calls_returned_le (s : LuaKeys) (calls : List KeybindCall) (k : Ptr) :
    s.records.returned.count k ≤ (final LuaKeys.step s calls).records.returned.count k := by
  induction calls generalizing s with
  | nil => exact Nat.le_refl _
  | cons call calls ih => exact Nat.le_trans (step_returned_le s call k) (ih _)

/-- A call that drops the keybind of a cell frees its record, whatever comes before and after. -/
theorem Owns.calls_returned (h : Owns s cells) (hc : c ∈ cells) {calls : List KeybindCall}
    (hdrops : ∃ call ∈ calls, call.Drops c.entry.combo) :
    s.records.returned.count c.entry.ctx + 1 ≤
      (Base.final LuaKeys.step s calls).records.returned.count c.entry.ctx := by
  induction calls generalizing s cells with
  | nil =>
    obtain ⟨call, hmem, -⟩ := hdrops
    exact nomatch hmem
  | cons call calls ih =>
    by_cases hfirst : call.Drops c.entry.combo
    · obtain ⟨hwm, hcombo⟩ := hfirst
      have hcombo' : comboEq c.entry.combo call.combo = true :=
        comboEq_iff.mpr (comboEq_iff.mp hcombo).symm
      have hstep := step_returned s hwm c.entry.ctx
      have hdropped := h.drop_returned hc hcombo'
      have hrest := calls_returned_le (s.step call).1 calls c.entry.ctx
      rw [final_cons]
      omega
    -- until then the cell stays
    · obtain ⟨cells₁, howns, hmoves⟩ := h.moves call
      have hc₁ : c ∈ cells₁ := by
        refine hmoves.mem hc fun hwm hkeys => hfirst ⟨hwm, ?_⟩
        exact comboEq_iff.mpr hkeys.symm
      have hlater : ∃ call ∈ calls, call.Drops c.entry.combo := by
        obtain ⟨call', hmem, hdrop⟩ := hdrops
        rcases List.mem_cons.mp hmem with rfl | hmem
        · exact absurd hdrop hfirst
        · exact ⟨call', hmem, hdrop⟩
      have hstep := step_returned_le s call c.entry.ctx
      have hrest := ih howns hc₁ hlater
      rw [final_cons]
      omega

/-- An allocated address is held once. -/
theorem Owns.count_eq (h : Owns s cells) {k : Ptr} (hlive : s.Live k) :
    s.records.returned.count k + 1 = s.records.taken.count k := by
  have haddrs : (s.callbacks.map (·.addr)).Perm (cells.map (·.record.callback.addr)) := by
    simpa [List.map_map, Function.comp_def] using h.stored.callbacks.map (·.addr)
  have hnodup : (cells.map (·.record.callback.addr)).Nodup := by
    simpa [List.map_map, Function.comp_def] using h.stored.addrs
  have hbalance := h.stored.records.count_eq k
  have hone : (s.callbacks.map (·.addr)).count k = 1 :=
    List.count_eq_one_of_mem (haddrs.nodup_iff.mpr hnodup) hlive
  rw [haddrs.count_eq] at hone
  rw [List.map_map] at hbalance
  simp only [Function.comp_def] at hbalance
  omega

end Freed

-- ----------------------------------------------------------------------------
-- Runs
-- ----------------------------------------------------------------------------

section Runs

variable {keyMax : Nat} {s : ScriptKeys keyMax} {cells : List Cell}

/-- The keybind calls made in a step, by the script or by the functions that run. -/
def ScriptKeys.logged (s : ScriptKeys keyMax) : ScriptKeyStep → List Logged
  | .call c => s.keys.log [c]
  | .key key down fns => (pressKey fns s key down).2.flatMap CallbackRun.log

/-- The keybind calls made in a run. -/
def ScriptKeys.runLog (s : ScriptKeys keyMax) : List ScriptKeyStep → List Logged
  | [] => []
  | st :: steps => s.logged st ++ (s.step st).1.runLog steps

theorem ScriptKeys.owns_step (h : Owns s.keys cells) (st : ScriptKeyStep) :
    (∃ cells', Owns (s.step st).1.keys cells' ∧
      functionOf cells' = applyLog (functionOf cells) (s.logged st)) ∧
    ∀ r ∈ (s.step st).2, r.Sound := by
  cases st with
  | call c =>
    obtain ⟨cells', howns, hmap, -⟩ := h.calls [c]
    exact ⟨⟨cells', howns, hmap⟩, fun r hr => absurd hr List.not_mem_nil⟩
  | key key down fns =>
    rw [ScriptKeys.step, ScriptKeys.logged]
    by_cases hidle : down = true → flag s.down key = true
    · rw [pressKey_idle fns hidle]
      exact ⟨⟨cells, h, rfl⟩, fun r hr => absurd hr List.not_mem_nil⟩
    · push Not at hidle
      obtain ⟨rfl, hfresh⟩ := hidle
      rw [pressKey_fresh fns (Bool.not_eq_true _ ▸ hfresh)]
      exact fireFunctions_owns h keybindMax 0 []

/-- **Runs.** The cells stay owned, the map is what the log says, and every callback is called
as it should be. -/
theorem ScriptKeys.owns_run (h : Owns s.keys cells) (steps : List ScriptKeyStep) :
    (∃ cells', Owns (final ScriptKeys.step s steps).keys cells' ∧
      functionOf cells' = applyLog (functionOf cells) (s.runLog steps)) ∧
    ∀ runs ∈ outputs ScriptKeys.step s steps, ∀ r ∈ runs, r.Sound := by
  induction steps generalizing s cells with
  | nil => exact ⟨⟨cells, h, rfl⟩, fun runs hruns => absurd hruns List.not_mem_nil⟩
  | cons st steps ih =>
    obtain ⟨⟨cells₁, howns₁, hmap₁⟩, hsound⟩ := ScriptKeys.owns_step h st
    obtain ⟨⟨cells₂, howns₂, hmap₂⟩, hrest⟩ := ih howns₁
    refine ⟨⟨cells₂, howns₂, ?_⟩, List.forall_mem_cons.mpr ⟨hsound, hrest⟩⟩
    rw [hmap₂, hmap₁, ScriptKeys.runLog, applyLog_append]

end Runs

/-- The function makes no call that takes its own keybind out. -/
def CallbackRun.KeepsOwn (r : CallbackRun) : Prop :=
  ∀ call ∈ r.run.calls, ¬ call.Drops r.entry.combo

section Reads

variable {r : CallbackRun}

theorem CallbackRun.Sound.exists_cell (h : r.Sound) :
    ∃ cells, ∃ c ∈ cells, Owns r.before cells ∧ c.entry = r.entry := by
  obtain ⟨cells, howns⟩ := h.owned
  obtain ⟨c, hc, heq⟩ := howns.exists_cell h.bound
  exact ⟨cells, c, hc, howns, heq⟩

/-- The record outlives a function that keeps its own keybind. -/
theorem CallbackRun.Sound.after_live (h : r.Sound) (hkeeps : r.KeepsOwn) :
    r.after.Live r.entry.ctx := by
  obtain ⟨cells, c, hc, howns, heq⟩ := h.exists_cell
  rw [CallbackRun.KeepsOwn, ← heq] at hkeeps
  obtain ⟨cells', howns', -, hmem⟩ := howns.calls r.run.calls
  rw [← heq]
  exact howns'.live (hmem c hc hkeeps)

/-- It does not outlive any other, if its address is not handed out again. -/
theorem CallbackRun.Sound.not_after_live (h : r.Sound) (hdrops : ¬ r.KeepsOwn)
    (hagain : r.after.records.taken.count r.entry.ctx =
      r.before.records.taken.count r.entry.ctx) : ¬ r.after.Live r.entry.ctx := by
  obtain ⟨cells, c, hc, howns, heq⟩ := h.exists_cell
  rw [CallbackRun.KeepsOwn, ← heq] at hdrops
  rw [← heq] at hagain ⊢
  intro hlive
  obtain ⟨cells', howns', -, -⟩ := howns.calls r.run.calls
  have hbefore := howns.count_eq (howns.live hc)
  have hafter := howns'.count_eq hlive
  push Not at hdrops
  have hfreed := howns.calls_returned hc hdrops
  -- taken as often as before, and given back once more
  rw [CallbackRun.after] at hagain
  omega

end Reads

/-- **What callbacks read.** In every run, with functions that register and unregister any
keybinds while they run: `keybind_cb` is called with a record that is allocated, and runs the
function that its combo then has. It goes on reading allocated memory if the function keeps
its own keybind; and unless the address is handed out again, it does so exactly if a function
that raises an error has kept its own keybind. -/
theorem callbacks_read_records (keyMax : Nat) (steps : List ScriptKeyStep) :
    ∀ runs ∈ outputs ScriptKeys.step (ScriptKeys.init keyMax) steps, ∀ r ∈ runs,
      r.before.Live r.entry.ctx ∧
      (∃ f, r.function = some f ∧ r.before.boundFunction r.entry.combo = some f) ∧
      (r.KeepsOwn → ∀ s ∈ r.reads, s.Live r.entry.ctx) ∧
      (r.after.records.taken.count r.entry.ctx = r.before.records.taken.count r.entry.ctx →
        ((∀ s ∈ r.reads, s.Live r.entry.ctx) ↔ (r.run.raises = true → r.KeepsOwn))) := by
  intro runs hruns r hr
  have hsound := (ScriptKeys.owns_run (s := ScriptKeys.init keyMax) owns_init steps).2 runs hruns
    r hr
  obtain ⟨cells, c, hc, howns, heq⟩ := hsound.exists_cell
  have hbefore : r.before.Live r.entry.ctx := heq ▸ howns.live hc
  refine ⟨hbefore, ⟨c.record.function, ?_, ?_⟩, ?_, ?_⟩
  · rw [hsound.fetched, ← heq, howns.keybindFunction_eq hc]
  · rw [howns.boundFunction, ← heq, howns.functionOf_eq hc (comboEq_iff.mpr rfl)]
  · intro hkeeps s hs
    rcases List.mem_cons.mp hs with rfl | hs
    · exact hbefore
    · split at hs
      · rw [List.mem_singleton.mp hs]
        exact hsound.after_live hkeeps
      · exact nomatch hs
  · intro hagain
    rw [CallbackRun.reads]
    by_cases hraises : r.run.raises = true
    · rw [if_pos hraises, forall_prop_of_true hraises, List.forall_mem_cons,
        and_iff_right hbefore, List.forall_mem_singleton]
      constructor
      · intro hlive
        by_contra hdrops
        exact hsound.not_after_live hdrops hagain hlive
      · exact hsound.after_live
    · rw [if_neg hraises, List.forall_mem_singleton]
      exact iff_of_true hbefore fun h => absurd h hraises

/-- The function 7 of 1 + 2 unregisters itself and raises an error. -/
def quitter : Functions := fun _ => ⟨[.unregister "A + B" (.pair 1 2) true], true⟩

/-- 1 + 2 is registered and pressed. -/
def quittingRun : List ScriptKeyStep :=
  [.call (.register 1 "A + B" (.pair 1 2) 7 ⟨true, some .next, .next, .ok⟩),
    .key 1 true quitter, .key 2 true quitter]

theorem callbacks_read_records_quits :
    ∃ runs ∈ outputs ScriptKeys.step (ScriptKeys.init 128) quittingRun, ∃ r ∈ runs,
      r.before.Live r.entry.ctx ∧
      (∃ f, r.function = some f ∧ r.before.boundFunction r.entry.combo = some f) ∧
      (r.KeepsOwn → ∀ s ∈ r.reads, s.Live r.entry.ctx) ∧
      (r.after.records.taken.count r.entry.ctx = r.before.records.taken.count r.entry.ctx →
        ((∀ s ∈ r.reads, s.Live r.entry.ctx) ↔ (r.run.raises = true → r.KeepsOwn))) := by
  have hfired : ∃ runs ∈ outputs ScriptKeys.step (ScriptKeys.init 128) quittingRun,
      ∃ r ∈ runs, True := by
    decide +kernel
  obtain ⟨runs, hruns, r, hr, -⟩ := hfired
  exact ⟨runs, hruns, r, hr, callbacks_read_records 128 quittingRun runs hruns r hr⟩

/-- `keybind_cb` then takes the message of the error off the stack of a record that is freed. -/
theorem callback_reads_freed :
    ∃ runs ∈ outputs ScriptKeys.step (ScriptKeys.init 128) quittingRun, ∃ r ∈ runs,
      ∃ s ∈ r.reads, ¬ s.Live r.entry.ctx := by
  decide +kernel

end Uniwm
