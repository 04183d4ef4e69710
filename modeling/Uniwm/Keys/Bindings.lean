import Uniwm.Base.Keyed
import Uniwm.Base.Machine
import Uniwm.Model.Bindings

/-!
# uniwm — the keybinds of scripts as a finite map

The keybind table allows several entries for one combo, and `wm_unbind_key` takes out the
first and moves the last entry into its place. The bindings of scripts always unbind before
they bind, and each entry's context is a record of its own. Together this makes the table a
finite map: `Owns s cells` says that table, records and registry are, up to order, the
columns of one list of `Cell`s with distinct combos.

Dropping a keybind filters the cells (`Owns.drop`) and registering one puts a cell in front
(`Owns.bind`), or, when a step fails, leaves the filtered ones (`Owns.giveUp`). So
`keybinds_owned`: after any calls no two entries have equal combos, the contexts are just the
records allocated and not freed, each once, and if no call failed every combo has the
function of its last registration.
-/

namespace Uniwm

open Base

/-! ## The table without one combo -/

/-- `wm_unbind_key` takes out one entry of the combo, or there is none. -/
theorem wmUnbindKey_cases (t : KeybindTable) (combo : KeyCombo) :
    ((∀ e ∈ t.entries, comboEq e.combo combo = false) ∧
        (wmUnbindKey t combo).2 = (0, t)) ∨
      ∃ e, comboEq e.combo combo = true ∧ (wmUnbindKey t combo).2.1 = e.ctx ∧
        t.entries.Perm (e :: (wmUnbindKey t combo).2.2.entries) := by
  unfold wmUnbindKey
  split
  · next hslot =>
    refine Or.inl ⟨?_, rfl⟩
    intro e he
    rw [KeybindTable.slotOf, List.findIdx?_eq_none_iff] at hslot
    exact hslot e he
  · next j hslot =>
    have hj := KeybindTable.slotOf_lt hslot
    have hlen : j < t.entries.length := by
      rw [KeybindTable.entries, Slots.toList_length]
      exact hj
    have hget : t.entries[j]? = some (t.binds.get j hj) := by
      rw [KeybindTable.entries, ← Slots.get?_eq, Slots.get?, dif_pos hj]
    obtain ⟨hlt, hentry⟩ := List.getElem?_eq_some_iff.mp hget
    refine Or.inr ⟨t.binds.get j hj, ?_, rfl, ?_⟩
    · rw [KeybindTable.slotOf, List.findIdx?_eq_some_iff_getElem] at hslot
      obtain ⟨hlt', hcombo, -⟩ := hslot
      rw [← hentry]
      exact hcombo
    · show t.entries.Perm (_ :: (t.binds.erase j hj).toList)
      rw [Slots.toList_erase, ← hentry]
      exact (List.getElem_cons_eraseIdx_perm hlt).symm.trans
        ((swapRemove_perm (l := t.binds.toList) hlt).symm.cons _)

/-- `wm_bind_key` appends an entry, or fails and leaves the table. -/
theorem wmBindKey_cases (t : KeybindTable) (combo : KeyCombo) {cb : Ptr} (ctx : Ptr)
    (keyboard : WMError) (hcb : cb ≠ 0) :
    ((wmBindKey t combo cb ctx keyboard).1 = .ok ∧
        (wmBindKey t combo cb ctx keyboard).2.entries =
          t.entries ++ [⟨combo, cb, ctx, t.made⟩]) ∨
      ((wmBindKey t combo cb ctx keyboard).1 ≠ .ok ∧
        (wmBindKey t combo cb ctx keyboard).2 = t) := by
  unfold wmBindKey
  rw [if_neg hcb]
  split
  · next hkeyboard => exact Or.inr ⟨hkeyboard, rfl⟩
  · split
    · exact Or.inl ⟨rfl, Slots.toList_push ..⟩
    · refine Or.inr ⟨?_, rfl⟩
      show WMError.outOfMemory ≠ .ok
      decide

/-! ## Records -/

/-- A `LuaCallback` with the function it refers to. -/
structure LuaRecord where
  callback : LuaCallback
  function : LuaFunction

/-- The allocated records and the Lua registry hold just `recs`, each at an address and under
a number of its own. -/
structure Stored (s : LuaKeys) (recs : List LuaRecord) : Prop where
  callbacks : s.callbacks.Perm (recs.map (·.callback))
  registry : s.registry.Perm (recs.map fun r => (r.callback.ref, r.function))
  addrs : (recs.map (·.callback.addr)).Nodup
  refs : (recs.map (·.callback.ref)).Nodup
  allocated : ∀ r ∈ recs, r.callback.addr ≠ 0
  records : s.records.Balanced (recs.map (·.callback.addr))

section Stored

variable {s : LuaKeys} {recs : List LuaRecord} {r : LuaRecord}

/-- The order of the records does not matter. -/
theorem Stored.perm {recs' : List LuaRecord} (h : Stored s recs) (hperm : recs'.Perm recs) :
    Stored s recs' where
  callbacks := h.callbacks.trans (hperm.map _).symm
  registry := h.registry.trans (hperm.map _).symm
  addrs := ((hperm.map _).nodup_iff).mpr h.addrs
  refs := ((hperm.map _).nodup_iff).mpr h.refs
  allocated := fun c hc => h.allocated c (hperm.mem_iff.mp hc)
  records := h.records.congr (hperm.map _)

/-- The table has no part in it. -/
theorem Stored.setTable (h : Stored s recs) (t : KeybindTable) :
    Stored { s with table := t } recs := by
  exact ⟨h.callbacks, h.registry, h.addrs, h.refs, h.allocated, h.records⟩

/-- The record at an address is found there. -/
theorem Stored.find (h : Stored s recs) (hr : r ∈ recs) :
    s.callbacks.find? (·.addr = r.callback.addr) = some r.callback := by
  have hKeys : (s.callbacks.map (·.addr)).Nodup := by
    rw [(h.callbacks.map _).nodup_iff, List.map_map]
    exact h.addrs
  exact find?_keyed hKeys (h.callbacks.mem_iff.mpr (List.mem_map_of_mem hr)) rfl

/-- And its function under its number. -/
theorem Stored.find_function (h : Stored s recs) (hr : r ∈ recs) :
    s.registry.find? (·.1 = r.callback.ref) = some (r.callback.ref, r.function) := by
  have hKeys : (s.registry.map (·.1)).Nodup := by
    rw [(h.registry.map _).nodup_iff, List.map_map]
    exact h.refs
  exact find?_keyed hKeys (h.registry.mem_iff.mpr (List.mem_map.mpr ⟨r, hr, rfl⟩)) rfl

/-- `lua_callback_free` gives back one record with its reference. -/
theorem Stored.free (h : Stored s (r :: recs)) :
    Stored (luaCallbackFree s r.callback.addr) recs ∧
      (luaCallbackFree s r.callback.addr).table = s.table := by
  have hfind := h.find (List.mem_cons_self ..)
  unfold luaCallbackFree
  rw [hfind]
  refine ⟨⟨?_, ?_, ?_, ?_, ?_, ?_⟩, rfl⟩
  · have hKeys : ((r.callback :: recs.map (·.callback)).map (·.addr)).Nodup := by
      simpa [List.map_map, Function.comp_def] using h.addrs
    exact eraseP_keyed hKeys h.callbacks rfl
  · have hKeys : (((r.callback.ref, r.function) ::
        recs.map fun r => (r.callback.ref, r.function)).map (·.1)).Nodup := by
      simpa [List.map_map, Function.comp_def] using h.refs
    exact eraseP_keyed hKeys h.registry rfl
  · exact (List.nodup_cons.mp h.addrs).2
  · exact (List.nodup_cons.mp h.refs).2
  · exact fun c hc => h.allocated c (List.mem_cons_of_mem _ hc)
  · refine Account.Balanced.giveBack (h.records.congr ?_)
    exact List.perm_append_singleton ..

/-- A record at a fresh address under a fresh number. -/
theorem Stored.new (h : Stored s recs) (alloc : Supply Ptr) (ref : Supply LuaRef) (L : Ptr)
    (f : LuaFunction) :
    let k := alloc.pick (0 :: s.callbacks.map (·.addr))
    let n := ref.pick (s.registry.map (·.1))
    Stored (s.newCallback k L n f) (⟨⟨k, L, n⟩, f⟩ :: recs) := by
  intro k n
  have hk : k ∉ 0 :: s.callbacks.map (·.addr) := alloc.fresh _
  have hn : n ∉ s.registry.map (·.1) := ref.fresh _
  rw [List.mem_cons, not_or, (h.callbacks.map _).mem_iff, List.map_map] at hk
  rw [(h.registry.map _).mem_iff, List.map_map] at hn
  refine ⟨?_, ?_, ?_, ?_, ?_, ?_⟩
  · exact (List.perm_append_singleton ..).trans (h.callbacks.cons _)
  · exact (List.perm_append_singleton ..).trans (h.registry.cons _)
  · exact List.nodup_cons.mpr ⟨hk.2, h.addrs⟩
  · exact List.nodup_cons.mpr ⟨hn, h.refs⟩
  · exact List.forall_mem_cons.mpr ⟨hk.1, h.allocated⟩
  · exact (h.records.take k).congr (List.perm_append_singleton ..).symm

end Stored

/-! ## Cells -/

/-- A keybind of a script with its record. -/
structure Cell where
  entry : Keybind
  record : LuaRecord
  cb_eq : entry.cb = keybindCb
  ctx_eq : entry.ctx = record.callback.addr

/-- The keys that a cell is bound to. -/
def Cell.keys (c : Cell) : List MCKey := c.entry.combo.toList

/-- Keybinds, records and registry hold just the `cells`, and these have distinct combos. -/
structure Owns (s : LuaKeys) (cells : List Cell) : Prop where
  entries : s.table.entries.Perm (cells.map (·.entry))
  stored : Stored s (cells.map (·.record))
  keys : (cells.map Cell.keys).Nodup

theorem owns_init : Owns .init [] := by
  refine ⟨?_, ⟨.nil, .nil, .nil, .nil, by simp, Account.balanced_empty⟩, .nil⟩
  simp [LuaKeys.init, KeybindTable.empty, KeybindTable.entries]

/-- What the script has bound, without one combo. -/
def without (cells : List Cell) (combo : KeyCombo) : List Cell :=
  cells.filter fun c => c.keys ≠ combo.toList

/-- A combo that no entry has is bound to no cell. -/
theorem Owns.without_eq {s : LuaKeys} {cells : List Cell} (h : Owns s cells) {combo : KeyCombo}
    (hnone : ∀ e ∈ s.table.entries, comboEq e.combo combo = false) :
    without cells combo = cells := by
  rw [without, List.filter_eq_self]
  intro c hc
  have hentry := hnone c.entry (h.entries.mem_iff.mpr (List.mem_map_of_mem hc))
  have hne : c.keys ≠ combo.toList := by
    intro heq
    rw [comboEq_iff.mpr heq] at hentry
    exact Bool.noConfusion hentry
  simpa using hne

/-- Combos being distinct, one cell at most is bound to each. -/
theorem without_perm {c : Cell} {cells rest : List Cell} {combo : KeyCombo}
    (hperm : cells.Perm (c :: rest)) (hkeys : (cells.map Cell.keys).Nodup)
    (hkey : c.keys = combo.toList) : (without cells combo).Perm rest := by
  have hfilter := hperm.filter fun c => decide (c.keys ≠ combo.toList)
  rwa [filter_keyed (((hperm.map _).nodup_iff).mp hkeys) hkey] at hfilter

/-- No cell that is left has the combo. -/
theorem keys_notMem_without (cells : List Cell) (combo : KeyCombo) :
    combo.toList ∉ (without cells combo).map Cell.keys := by
  intro hmem
  obtain ⟨c, hc, hkeys⟩ := List.mem_map.mp hmem
  have hne : c.keys ≠ combo.toList := by simpa using (List.mem_filter.mp hc).2
  exact hne hkeys

/-- **Taking a combo out.** The first entry that matches is the only one, and its record
goes with it. -/
theorem Owns.drop {s : LuaKeys} {cells : List Cell} (h : Owns s cells) (combo : KeyCombo) :
    Owns (dropKeybind s combo) (without cells combo) := by
  rcases wmUnbindKey_cases s.table combo with ⟨hnone, hsame⟩ | ⟨e, hcombo, hctx, hrest⟩
  · have hdrop : dropKeybind s combo = s := by
      rw [dropKeybind, hsame]
      simp
    rw [hdrop, h.without_eq hnone]
    exact h
  · have hmem : e ∈ cells.map (·.entry) := h.entries.mem_iff.mp (hrest.mem_iff.mpr (by simp))
    obtain ⟨c, hc, rfl⟩ := List.mem_map.mp hmem
    obtain ⟨left, right, rfl⟩ := List.append_of_mem hc
    have hperm : (left ++ c :: right).Perm (c :: (left ++ right)) := List.perm_middle
    have hwithout := without_perm hperm h.keys (comboEq_iff.mp hcombo)
    -- the context of the entry is the record of the cell, and is freed
    have hdrop : dropKeybind s combo = luaCallbackFree
        { s with table := (wmUnbindKey s.table combo).2.2 } c.record.callback.addr := by
      have hne : (wmUnbindKey s.table combo).2.1 ≠ 0 := by
        rw [hctx, c.ctx_eq]
        exact h.stored.allocated _ (List.mem_map_of_mem hc)
      rw [dropKeybind, if_pos hne, hctx, c.ctx_eq]
    have hstored : Stored { s with table := (wmUnbindKey s.table combo).2.2 }
        (c.record :: (left ++ right).map (·.record)) :=
      (h.stored.perm (hperm.symm.map _)).setTable _
    have hfree := hstored.free
    rw [← hdrop] at hfree
    refine ⟨?_, hfree.1.perm (hwithout.map _), ?_⟩
    · rw [hfree.2]
      have hcons := hrest.symm.trans (h.entries.trans (hperm.map _))
      exact hcons.cons_inv.trans (hwithout.map _).symm
    · have hkeys : ((c :: (left ++ right)).map Cell.keys).Nodup :=
        ((hperm.map _).nodup_iff).mp h.keys
      rw [(hwithout.map _).nodup_iff]
      exact (List.nodup_cons.mp hkeys).2

/-- A record is made, and an entry for a combo that no cell has. -/
theorem Owns.bind {s s' : LuaKeys} {cells : List Cell} (h : Owns s cells) {c : Cell}
    {t : KeybindTable} (hNew : c.keys ∉ cells.map Cell.keys)
    (hStored : Stored s' (c.record :: cells.map (·.record)))
    (hEntries : t.entries = s.table.entries ++ [c.entry]) :
    Owns { s' with table := t } (c :: cells) := by
  refine ⟨?_, hStored.setTable t, List.nodup_cons.mpr ⟨hNew, h.keys⟩⟩
  show t.entries.Perm _
  rw [hEntries]
  exact (List.perm_append_singleton ..).trans (h.entries.cons _)

/-- A record is made, and freed again. -/
theorem Owns.giveUp {s s' : LuaKeys} {cells : List Cell} (h : Owns s cells) {r : LuaRecord}
    (hStored : Stored s' (r :: cells.map (·.record))) (hTable : s'.table = s.table) :
    Owns (luaCallbackFree s' r.callback.addr) cells := by
  obtain ⟨hfree, hkeep⟩ := hStored.free
  refine ⟨?_, hfree, h.keys⟩
  rw [hkeep, hTable]
  exact h.entries

/-- **Registering.** Either the combo has a new record and function, or the call failed and
what was bound stays, with or without the old keybind of the combo. -/
theorem Owns.register {s : LuaKeys} {cells : List Cell} (h : Owns s cells) (L : Ptr)
    (spec : String) (combo : KeyCombo) (f : LuaFunction) (o : RegisterOutcome) :
    let out := lRegisterKeybind s L spec (some combo) f o
    (∃ c : Cell, c.keys = combo.toList ∧ c.record.function = f ∧
        Owns out.2 (c :: without cells combo)) ∨
      (out.1 ≠ none ∧ (Owns out.2 cells ∨ Owns out.2 (without cells combo))) := by
  intro out
  have hdrop := h.drop combo
  unfold out lRegisterKeybind
  by_cases hwm : o.wm = true
  · simp only [hwm, Bool.not_true, Bool.false_eq_true, if_false]
    -- the old keybind is dropped before anything can fail
    generalize dropKeybind s combo = s' at hdrop ⊢
    cases halloc : o.alloc with
    | none => exact Or.inr ⟨Option.some_ne_none _, Or.inr hdrop⟩
    | some alloc =>
      have hnew := hdrop.stored.new alloc o.ref L f
      simp only at hnew ⊢
      generalize alloc.pick (0 :: s'.callbacks.map (·.addr)) = k at hnew ⊢
      generalize o.ref.pick (s'.registry.map (·.1)) = n at hnew ⊢
      have htable : (s'.newCallback k L n f).table = s'.table := rfl
      rw [htable]
      rcases wmBindKey_cases s'.table combo k o.keyboard Nat.one_ne_zero with
        ⟨hok, hentries⟩ | ⟨hfail, hsame⟩
      · rw [if_neg (not_not.mpr hok)]
        refine Or.inl ⟨⟨⟨combo, keybindCb, k, s'.table.made⟩, ⟨⟨k, L, n⟩, f⟩, rfl, rfl⟩, rfl,
          rfl, ?_⟩
        exact hdrop.bind (keys_notMem_without cells combo) hnew hentries
      · rw [if_pos hfail]
        refine Or.inr ⟨Option.some_ne_none _, Or.inr ?_⟩
        exact hdrop.giveUp (hnew.setTable _) hsame
  · simp only [Bool.not_eq_true] at hwm
    simp only [hwm, Bool.not_false, if_true]
    exact Or.inr ⟨Option.some_ne_none _, Or.inl h⟩

/-! ## The map of functions -/

/-- The function that the first entry of `combo` runs. -/
def LuaKeys.boundFunction (s : LuaKeys) (combo : KeyCombo) : Option LuaFunction := do
  let e ← s.table.entries.find? fun e => comboEq e.combo combo
  keybindFunction s e.ctx

/-- The map that `cells` are. -/
def functionOf (cells : List Cell) (combo : KeyCombo) : Option LuaFunction :=
  (cells.find? fun c => c.keys = combo.toList).map (·.record.function)

/-- What a call says of `combo`: the function that it gets, if any. -/
def KeybindCall.assigns (combo : KeyCombo) : KeybindCall → Option (Option LuaFunction)
  | .register _ _ combo' f _ => if comboEq combo' combo then some (some f) else none
  | .unregister _ combo' _ => if comboEq combo' combo then some none else none

/-- What the last call about `combo` says. -/
def latestCall (calls : List KeybindCall) (combo : KeyCombo) : Option (Option LuaFunction) :=
  calls.reverse.findSome? (·.assigns combo)

/-- The table finds the function of the cell. -/
theorem Owns.boundFunction {s : LuaKeys} {cells : List Cell} (h : Owns s cells)
    (combo : KeyCombo) : s.boundFunction combo = functionOf cells combo := by
  have hsame : (fun e : Keybind => comboEq e.combo combo) =
      fun e => decide (e.combo.toList = combo.toList) := by
    funext e
    rw [Bool.eq_iff_iff, comboEq_iff, decide_eq_true_eq]
  rw [LuaKeys.boundFunction, functionOf, hsame]
  cases hcell : cells.find? (fun c => c.keys = combo.toList) with
  | none =>
    have hentry : s.table.entries.find? (fun e => e.combo.toList = combo.toList) = none := by
      rw [List.find?_eq_none]
      intro e he
      obtain ⟨c, hc, rfl⟩ := List.mem_map.mp (h.entries.mem_iff.mp he)
      exact List.find?_eq_none.mp hcell c hc
    rw [hentry]
    rfl
  | some c =>
    have hc := List.mem_of_find?_eq_some hcell
    have hkeys : c.keys = combo.toList := by simpa using List.find?_some hcell
    have hKeys : (s.table.entries.map fun e => e.combo.toList).Nodup := by
      rw [(h.entries.map _).nodup_iff, List.map_map]
      exact h.keys
    have hentry := find?_keyed hKeys (h.entries.mem_iff.mpr (List.mem_map_of_mem hc)) hkeys
    have hrecord := List.mem_map_of_mem (f := (·.record)) hc
    rw [hentry]
    show keybindFunction s c.entry.ctx = some c.record.function
    rw [keybindFunction, c.ctx_eq, h.stored.find hrecord]
    show (s.registry.find? (·.1 = c.record.callback.ref) >>= fun slot => pure slot.2) = _
    rw [h.stored.find_function hrecord]
    rfl

theorem functionOf_without (cells : List Cell) (combo combo' : KeyCombo) :
    functionOf (without cells combo) combo' =
      if comboEq combo combo' then none else functionOf cells combo' := by
  rw [functionOf, without, List.find?_filter]
  by_cases heq : comboEq combo combo' = true
  · have hkeys := comboEq_iff.mp heq
    rw [if_pos heq, Option.map_eq_none_iff, List.find?_eq_none]
    intro c _
    simp [hkeys]
  · have hkeys : combo.toList ≠ combo'.toList := fun h => heq (comboEq_iff.mpr h)
    rw [if_neg heq, functionOf]
    congr 2
    funext c
    by_cases hc : c.keys = combo'.toList
    · simp [hc, hkeys.symm]
    · simp [hc]

theorem functionOf_cons (c : Cell) (cells : List Cell) {combo combo' : KeyCombo}
    (hkeys : c.keys = combo.toList) :
    functionOf (c :: cells) combo' =
      if comboEq combo combo' then some c.record.function else functionOf cells combo' := by
  rw [functionOf, List.find?_cons]
  by_cases heq : comboEq combo combo' = true
  · have hc : c.keys = combo'.toList := hkeys.trans (comboEq_iff.mp heq)
    rw [if_pos heq, decide_eq_true hc]
    rfl
  · have hc : c.keys ≠ combo'.toList := fun h => heq (comboEq_iff.mpr (hkeys.symm.trans h))
    rw [if_neg heq, decide_eq_false hc]
    rfl

/-! ## Runs -/

/-- A call moves from cells to cells, and when it raises no error they change as it says. -/
theorem Owns.step {s : LuaKeys} {cells : List Cell} (h : Owns s cells) (call : KeybindCall) :
    ∃ cells', Owns (s.step call).1 cells' ∧ ((s.step call).2 = none →
      ∀ combo, functionOf cells' combo = (call.assigns combo).getD (functionOf cells combo)) := by
  cases call with
  | register L spec combo f o =>
    rcases h.register L spec combo f o with ⟨c, hkeys, hf, howns⟩ | ⟨herror, howns | howns⟩
    · refine ⟨_, howns, ?_⟩
      intro _ combo'
      rw [functionOf_cons c _ hkeys, functionOf_without, hf, KeybindCall.assigns]
      split <;> rfl
    · exact ⟨_, howns, fun hok => absurd hok herror⟩
    · exact ⟨_, howns, fun hok => absurd hok herror⟩
  | unregister spec combo wm =>
    cases wm with
    | false => exact ⟨cells, h, fun hok => absurd hok (Option.some_ne_none _)⟩
    | true =>
      refine ⟨_, h.drop combo, ?_⟩
      intro _ combo'
      rw [functionOf_without, KeybindCall.assigns]
      split <;> rfl

theorem Owns.final (calls : List KeybindCall) {s : LuaKeys} {cells : List Cell}
    (h : Owns s cells) :
    ∃ cells', Owns (final LuaKeys.step s calls) cells' ∧
      ((∀ error ∈ outputs LuaKeys.step s calls, error = none) →
        ∀ combo, functionOf cells' combo =
          (latestCall calls combo).getD (functionOf cells combo)) := by
  induction calls generalizing s cells with
  | nil => exact ⟨cells, h, fun _ _ => rfl⟩
  | cons call calls ih =>
    obtain ⟨cells₁, howns₁, hstep⟩ := h.step call
    obtain ⟨cells₂, howns₂, hrest⟩ := ih howns₁
    refine ⟨cells₂, howns₂, ?_⟩
    intro hok combo
    rw [outputs_cons, List.forall_mem_cons] at hok
    rw [hrest hok.2, hstep hok.1, latestCall, latestCall, List.reverse_cons,
      List.findSome?_append]
    -- the later calls decide, and this one where they do not speak of the combo
    cases calls.reverse.findSome? (·.assigns combo) with
    | some f => rfl
    | none => cases hassigns : call.assigns combo <;> simp [hassigns]

/-- **The keybinds of scripts are a finite map.** After any calls of `register_keybind` and
`unregister_keybind`, also those that fail: no two entries have equal combos, their contexts
are distinct and are just the records allocated and not freed, no record was freed more often
than it was allocated; and when no call failed, the entry of a combo runs the function of its
last registration, and there is one unless it was unregistered after that. -/
theorem keybinds_owned (calls : List KeybindCall) :
    let s := final LuaKeys.step .init calls
    (s.table.entries.Pairwise fun a b => comboEq a.combo b.combo = false) ∧
      (s.table.entries.map (·.ctx)).Nodup ∧
      (s.table.entries.map (·.ctx)).Perm (s.callbacks.map (·.addr)) ∧
      s.records.Balanced (s.callbacks.map (·.addr)) ∧
      ((∀ error ∈ outputs LuaKeys.step .init calls, error = none) →
        ∀ combo, s.boundFunction combo = (latestCall calls combo).join) := by
  intro s
  obtain ⟨cells, howns, hmap⟩ := owns_init.final calls
  have haddrs : (s.callbacks.map (·.addr)).Perm (cells.map (·.record.callback.addr)) := by
    simpa [List.map_map, Function.comp_def] using howns.stored.callbacks.map (·.addr)
  have hctxs : (s.table.entries.map (·.ctx)).Perm (cells.map (·.record.callback.addr)) := by
    simpa [List.map_map, Function.comp_def, Cell.ctx_eq] using howns.entries.map (·.ctx)
  have hnodup : (cells.map (·.record.callback.addr)).Nodup := by
    simpa [List.map_map, Function.comp_def] using howns.stored.addrs
  refine ⟨?_, hctxs.nodup_iff.mpr hnodup, hctxs.trans haddrs.symm, ?_, ?_⟩
  · have hkeys : (s.table.entries.map (·.combo.toList)).Nodup := by
      rw [(howns.entries.map _).nodup_iff, List.map_map]
      exact howns.keys
    refine (List.pairwise_map.mp hkeys).imp fun {a b} hne => ?_
    rw [Bool.eq_false_iff]
    exact fun heq => hne (comboEq_iff.mp heq)
  · refine howns.stored.records.congr (haddrs.trans ?_)
    rw [List.map_map]
    exact .refl _
  · intro hok combo
    rw [howns.boundFunction, hmap hok]
    cases latestCall calls combo <;> rfl

end Uniwm
