import Uniwm.Keys.Bindings

/-!
# uniwm — keybinds when registering fails

`l_register_keybind` replaces the keybind of a combo by unbinding and freeing the old one
before the new record is allocated and bound. The table is never full then, but the
allocation and `enable_keyboard` can still fail, and the old keybind is gone already.
`register_keepsBindings_iff` says for which calls an error leaves the bindings as they
were: those that fail before the unbinding, those of a combo with nothing bound to it, and
those where neither of the two fails.
-/

namespace Uniwm

open Base

/-- The same bindings, and each old one runs the function that it ran. -/
def KeepsBindings (s s' : LuaKeys) : Prop :=
  s'.table.entries.Perm s.table.entries ∧
    ∀ e ∈ s.table.entries, keybindFunction s' e.ctx = keybindFunction s e.ctx

/-- Nothing is bound to `combo`. -/
def Unbound (t : KeybindTable) (combo : KeyCombo) : Prop :=
  ∀ e ∈ t.entries, comboEq e.combo combo = false

theorem keepsBindings_of_eq {s s' : LuaKeys} (htable : s'.table = s.table)
    (hcallbacks : s'.callbacks = s.callbacks) (hregistry : s'.registry = s.registry) :
    KeepsBindings s s' := by
  refine ⟨by rw [htable], ?_⟩
  intro e _
  rw [keybindFunction, keybindFunction, hcallbacks, hregistry]

/-! ## Nothing bound -/

theorem dropKeybind_of_unbound {s : LuaKeys} {combo : KeyCombo} (h : Unbound s.table combo) :
    dropKeybind s combo = s := by
  rcases wmUnbindKey_cases s.table combo with ⟨-, hsame⟩ | ⟨e, hcombo, -, hperm⟩
  · rw [dropKeybind, hsame]
    simp
  · have he : e ∈ s.table.entries := hperm.mem_iff.mpr List.mem_cons_self
    rw [h e he] at hcombo
    exact Bool.noConfusion hcombo

/-- What is new is found at its fresh key, and taken out again. -/
theorem eraseP_concat_fresh {α : Type} {p : α → Bool} {l : List α} {x : α}
    (hfresh : ∀ y ∈ l, p y = false) (hx : p x = true) : (l ++ [x]).eraseP p = l := by
  rw [List.eraseP_append_right _ (fun y hy => by rw [hfresh y hy]; exact Bool.false_ne_true),
    List.eraseP_cons_of_pos hx, List.append_nil]

@[simp] theorem newCallback_table (s : LuaKeys) (k L : Ptr) (ref : LuaRef) (f : LuaFunction) :
    (s.newCallback k L ref f).table = s.table := rfl

/-- A record that was made is freed without a trace. -/
theorem free_newCallback {s : LuaKeys} {k L : Ptr} {ref : LuaRef} {f : LuaFunction}
    {t : KeybindTable} (hk : k ∉ s.callbacks.map (·.addr)) (href : ref ∉ s.registry.map (·.1)) :
    let s' := luaCallbackFree { s.newCallback k L ref f with table := t } k
    s'.table = t ∧ s'.callbacks = s.callbacks ∧ s'.registry = s.registry := by
  have hold : ∀ c ∈ s.callbacks, decide (c.addr = k) = false := by
    intro c hc
    rw [decide_eq_false_iff_not]
    rintro rfl
    exact hk (List.mem_map_of_mem hc)
  have hrefs : ∀ slot ∈ s.registry, decide (slot.1 = ref) = false := by
    intro slot hslot
    rw [decide_eq_false_iff_not]
    rintro rfl
    exact href (List.mem_map_of_mem hslot)
  have hfind : (s.callbacks ++ [(⟨k, L, ref⟩ : LuaCallback)]).find? (·.addr = k) =
      some ⟨k, L, ref⟩ := by
    have hnone : s.callbacks.find? (·.addr = k) = none := by
      rw [List.find?_eq_none]
      intro c hc
      rw [hold c hc]
      exact Bool.false_ne_true
    rw [List.find?_append, hnone, Option.none_or, List.find?_cons_of_pos (by simp)]
  simp only [luaCallbackFree, LuaKeys.newCallback, hfind]
  exact ⟨trivial, eraseP_concat_fresh hold (by simp), eraseP_concat_fresh hrefs (by simp)⟩

section Register

variable {s : LuaKeys} {L : Ptr} {spec : String} {combo : KeyCombo} {f : LuaFunction}
  {o : RegisterOutcome}

/-- With nothing bound to the combo, a failed call changes no binding. -/
theorem register_keeps_of_unbound (hunbound : Unbound s.table combo)
    (herror : (lRegisterKeybind s L spec (some combo) f o).1 ≠ none) :
    KeepsBindings s (lRegisterKeybind s L spec (some combo) f o).2 := by
  rw [lRegisterKeybind, dropKeybind_of_unbound hunbound] at herror ⊢
  cases hwm : o.wm with
  | false => exact keepsBindings_of_eq rfl rfl rfl
  | true =>
    simp only [hwm, Bool.not_true, Bool.false_eq_true, if_false] at herror ⊢
    cases halloc : o.alloc with
    | none => exact keepsBindings_of_eq rfl rfl rfl
    | some alloc =>
      simp only [halloc] at herror ⊢
      have hk := List.not_mem_of_not_mem_cons (alloc.fresh (0 :: s.callbacks.map (·.addr)))
      have href := o.ref.fresh (s.registry.map (·.1))
      generalize alloc.pick (0 :: s.callbacks.map (·.addr)) = k at herror hk ⊢
      generalize o.ref.pick (s.registry.map (·.1)) = ref at herror href ⊢
      rcases wmBindKey_cases (s.newCallback k L ref f).table combo k o.keyboard Nat.one_ne_zero
        with ⟨hok, -⟩ | ⟨hfail, hsame⟩
      · rw [if_neg (not_not.mpr hok)] at herror
        exact absurd rfl herror
      · rw [if_pos hfail]
        obtain ⟨htable, hcallbacks, hregistry⟩ := free_newCallback (L := L) (f := f)
          (t := (wmBindKey (s.newCallback k L ref f).table combo keybindCb k o.keyboard).2) hk href
        exact keepsBindings_of_eq (htable.trans hsame) hcallbacks hregistry

/-- The unbound table has one entry less. -/
theorem wmUnbindKey_length (hbound : ¬ Unbound s.table combo) :
    (wmUnbindKey s.table combo).2.2.entries.length + 1 = s.table.entries.length := by
  rcases wmUnbindKey_cases s.table combo with ⟨hnone, -⟩ | ⟨e, -, -, hperm⟩
  · exact absurd hnone hbound
  · rw [hperm.length_eq, List.length_cons]

theorem luaCallbackFree_table (s : LuaKeys) (k : Ptr) : (luaCallbackFree s k).table = s.table := by
  rw [luaCallbackFree]
  split <;> rfl

theorem dropKeybind_table (s : LuaKeys) (combo : KeyCombo) :
    (dropKeybind s combo).table = (wmUnbindKey s.table combo).2.2 := by
  rw [dropKeybind]
  split
  · exact luaCallbackFree_table _ _
  · rfl

/-- Where something was bound there is room for the new entry, so only `mc_alloc` and
`enable_keyboard` can fail. -/
theorem register_ok_of_bound (hbound : ¬ Unbound s.table combo) (hwm : o.wm = true)
    (halloc : o.alloc.isSome) (hkeyboard : o.keyboard = .ok) :
    (lRegisterKeybind s L spec (some combo) f o).1 = none := by
  obtain ⟨alloc, halloc⟩ := Option.isSome_iff_exists.mp halloc
  have hroom : (dropKeybind s combo).table.binds.count < keybindMax := by
    have hlen := wmUnbindKey_length hbound
    have hle := s.table.binds.count_le
    rw [KeybindTable.entries, KeybindTable.entries, Slots.toList_length, Slots.toList_length]
      at hlen
    rw [dropKeybind_table]
    omega
  have hbind : ∀ k ref, (wmBindKey ((dropKeybind s combo).newCallback k L ref f).table combo
      keybindCb k o.keyboard).1 = .ok := by
    intro k ref
    rw [newCallback_table, wmBindKey, if_neg Nat.one_ne_zero, if_neg (not_not.mpr hkeyboard),
      dif_pos hroom]
  simp only [lRegisterKeybind, hwm, halloc, Bool.not_true, Bool.false_eq_true, if_false]
  rw [if_neg (not_not.mpr (hbind _ _))]

/-- And when one of them fails, the table is left as the unbinding left it. -/
theorem register_drops (hwm : o.wm = true)
    (hfails : o.alloc = none ∨ o.keyboard ≠ .ok) :
    (lRegisterKeybind s L spec (some combo) f o).1 ≠ none ∧
      (lRegisterKeybind s L spec (some combo) f o).2.table =
        (wmUnbindKey s.table combo).2.2 := by
  simp only [lRegisterKeybind, hwm, Bool.not_true, Bool.false_eq_true, if_false]
  cases halloc : o.alloc with
  | none => exact ⟨Option.some_ne_none _, dropKeybind_table s combo⟩
  | some alloc =>
    have hkeyboard : o.keyboard ≠ .ok := by
      rcases hfails with hnone | hkeyboard
      · rw [hnone] at halloc
        exact absurd halloc nofun
      · exact hkeyboard
    have hbind : ∀ ctx, wmBindKey (dropKeybind s combo).table combo keybindCb ctx o.keyboard =
        (o.keyboard, (dropKeybind s combo).table) := by
      intro ctx
      rw [wmBindKey, if_neg Nat.one_ne_zero, if_pos hkeyboard]
    simp only [newCallback_table, hbind]
    rw [if_pos hkeyboard]
    refine ⟨Option.some_ne_none _, ?_⟩
    rw [luaCallbackFree_table]
    exact dropKeybind_table s combo

end Register

/-- **Registering and errors.** A call that raises an error leaves the bindings as they were,
exactly if it fails before the old keybind is dropped, or there is none, or neither the
allocation nor the keyboard fails. -/
theorem register_keepsBindings_iff (s : LuaKeys) (L : Ptr) (spec : String)
    (combo : Option KeyCombo) (f : LuaFunction) (o : RegisterOutcome) :
    ((lRegisterKeybind s L spec combo f o).1 ≠ none →
        KeepsBindings s (lRegisterKeybind s L spec combo f o).2) ↔
      combo = none ∨ o.wm = false ∨ (∀ c ∈ combo, Unbound s.table c) ∨
        (o.alloc.isSome ∧ o.keyboard = .ok) := by
  cases combo with
  | none => exact iff_of_true (fun _ => keepsBindings_of_eq rfl rfl rfl) (Or.inl rfl)
  | some combo =>
    cases hwm : o.wm with
    | false =>
      refine iff_of_true (fun _ => ?_) (Or.inr (Or.inl rfl))
      rw [lRegisterKeybind, hwm]
      exact keepsBindings_of_eq rfl rfl rfl
    | true =>
      simp only [Option.some_ne_none, Bool.true_eq_false, Option.mem_some, forall_eq', false_or]
      by_cases hbound : Unbound s.table combo
      · exact iff_of_true (register_keeps_of_unbound hbound) (Or.inl hbound)
      by_cases hfails : o.alloc = none ∨ o.keyboard ≠ .ok
      · obtain ⟨herror, htable⟩ := @register_drops s L spec combo f o hwm hfails
        refine iff_of_false ?_ ?_
        · intro hkeeps
          have hlen := (hkeeps herror).1.length_eq
          rw [htable] at hlen
          have := wmUnbindKey_length hbound
          omega
        · rintro (hunbound | ⟨halloc, hkeyboard⟩)
          · exact hbound hunbound
          · rcases hfails with hnone | hne
            · rw [hnone] at halloc
              exact absurd halloc nofun
            · exact hne hkeyboard
      · rw [not_or, not_not, ← ne_eq, Option.ne_none_iff_isSome] at hfails
        refine iff_of_true ?_ (Or.inr hfails)
        intro herror
        exact absurd (register_ok_of_bound hbound hwm hfails.1 hfails.2) herror

/-- A keybind of 1 + 2 that runs function 7. -/
def oneKeybind : LuaKeys :=
  (lRegisterKeybind .init 1 "A + B" (some (.pair 1 2)) 7
    ⟨true, some .next, .next, .ok⟩).2

/-- Registering 1 + 2 anew when memory is short raises an error, and the old keybind is
gone. -/
theorem register_forgets :
    ¬ ((lRegisterKeybind oneKeybind 1 "A + B" (some (.pair 1 2)) 8
          ⟨true, none, .next, .ok⟩).1 ≠ none →
        KeepsBindings oneKeybind (lRegisterKeybind oneKeybind 1 "A + B" (some (.pair 1 2)) 8
          ⟨true, none, .next, .ok⟩).2) := by
  intro hkeeps
  have hlen := (hkeeps (by decide)).1.length_eq
  exact absurd hlen (by decide)

end Uniwm
