import Uniwm.Model.Events

/-!
# uniwm — key combos, suppression and keybinds

The keyboard half of `libuniwm/src/input.c`: the combo test shared by both uses,
the table of suppressed combos consulted by the keyboard hook (`suppressCb`), and
the table of keybinds fired from the event queue (`processKeybinds`).

`MC_KEY_MAX`, a constant of the mc library, is the parameter `keyMax`, the length
of the two `down` arrays.

A keybind callback is arbitrary code that may itself bind and unbind keys. All
that the firing loop can see of it are the calls it makes, so `Callbacks` gives,
for the bindings run so far for the press in hand, the `BindCall`s made by the
last of them. Nothing else is known about a callback.

`Keybind.serial` and `KeybindTable.made` are ghosts: they number the successful
`wm_bind_key` calls, so that two bindings with equal fields stay apart. No
definition of this module decides anything by them.
-/

namespace Uniwm

open Base

/-! ## Combos -/

/-- `WM_KEY_COMBO_MAX` -/
abbrev wmKeyComboMax : Nat := 4

/-- `WM_KeyCombo`: up to four keys, the last of which triggers. -/
abbrev KeyCombo := Slots MCKey wmKeyComboMax

/-- A combo of two keys. -/
def KeyCombo.pair (mod key : MCKey) : KeyCombo := ⟨#v[mod, key, 0, 0], 2, by decide⟩

/-- `combo_eq` -/
def comboEq (a b : KeyCombo) : Bool := a.count = b.count && a.toList = b.toList

/-- `comboEq` compares the keys. -/
theorem comboEq_iff {a b : KeyCombo} : comboEq a b = true ↔ a.toList = b.toList := by
  rw [comboEq, Bool.and_eq_true, decide_eq_true_eq, decide_eq_true_eq, and_iff_right_iff_imp]
  intro h
  rw [← Slots.toList_length, ← Slots.toList_length, h]

/-- `combo_triggered`: `key` is the last key of `c`, and every earlier one is held
according to `down`. -/
def comboTriggered {keyMax : Nat} (key : MCKey) (c : KeyCombo) (down : Vector Bool keyMax) :
    Bool :=
  match c.toList.getLast? with
  | none => false
  | some last => key = last && c.toList.dropLast.all fun mod => flag down mod

/-! ## Suppressed combos -/

/-- `SUPPRESS_MAX` -/
abbrev suppressMax : Nat := 128

/-- The static `suppress`. -/
structure Suppress (keyMax : Nat) where
  combos : Slots KeyCombo suppressMax
  down : Vector Bool keyMax

instance : Inhabited KeyCombo := ⟨Slots.empty⟩

/-- Static storage starts zeroed. -/
def Suppress.init (keyMax : Nat) : Suppress keyMax := ⟨Slots.empty, Vector.replicate keyMax false⟩

/-- `suppress_cb`: the keyboard hook asks whether to swallow this event. -/
def suppressCb {keyMax : Nat} (s : Suppress keyMax) (key : MCKey) (down : Bool) :
    Suppress keyMax × Bool :=
  let held := setFlag s.down key down
  ({ s with down := held }, s.combos.toList.any fun c => comboTriggered key c held)

/-- `wm_suppress_key`; `keyboard` is what `enable_keyboard` returns. -/
def wmSuppressKey {keyMax : Nat} (s : Suppress keyMax) (combo : KeyCombo) (keyboard : WMError) :
    WMError × Suppress keyMax :=
  if keyboard ≠ .ok then
    (keyboard, s)
  else if h : s.combos.count < suppressMax then
    (.ok, { s with combos := s.combos.push combo h })
  else
    (.outOfMemory, s)

/-- The loop of `wm_unsuppress_key` from slot `j`. `fuel` is `count - j`: each round takes
an entry out or goes on by one slot. -/
def unsuppressFrom (combo : KeyCombo) : Nat → Nat → Slots KeyCombo suppressMax →
    Slots KeyCombo suppressMax
  | 0, _, t => t
  | fuel + 1, j, t =>
    if h : j < t.count then
      -- the entry moved into the hole is looked at next
      if comboEq (t.get j h) combo then unsuppressFrom combo fuel j (t.erase j h)
      else unsuppressFrom combo fuel (j + 1) t
    else t

/-- `wm_unsuppress_key` -/
def wmUnsuppressKey {keyMax : Nat} (s : Suppress keyMax) (combo : KeyCombo) :
    WMError × Suppress keyMax :=
  (.ok, { s with combos := unsuppressFrom combo s.combos.count 0 s.combos })

/-! ## Keybinds -/

/-- `KEYBIND_MAX` -/
abbrev keybindMax : Nat := 128

/-- `Keybind`, with the ghost number of the call that stored it. -/
structure Keybind where
  combo : KeyCombo
  cb : Ptr
  ctx : Ptr
  serial : Nat
deriving DecidableEq

instance : Inhabited Keybind := ⟨⟨default, 0, 0, 0⟩⟩

/-- The fields `binds` and `count` of the static `keybind`. The serials of bound
entries are distinct and none is still to be given out. -/
structure KeybindTable where
  binds : Slots Keybind keybindMax
  made : Nat
  serial_lt : ∀ e ∈ binds.toList, e.serial < made
  serial_nodup : (binds.toList.map (·.serial)).Nodup

/-- No key bound. -/
def KeybindTable.empty : KeybindTable := ⟨Slots.empty, 0, by simp, by simp⟩

/-- The bindings in force, in table order. -/
def KeybindTable.entries (t : KeybindTable) : List Keybind := t.binds.toList

/-- `keybind.binds[keybind.count++] = { combo, cb, ctx }` -/
def KeybindTable.add (t : KeybindTable) (combo : KeyCombo) (cb ctx : Ptr)
    (h : t.binds.count < keybindMax) : KeybindTable where
  binds := t.binds.push ⟨combo, cb, ctx, t.made⟩ h
  made := t.made + 1
  serial_lt := by
    intro e he
    rw [Slots.toList_push, List.mem_append, List.mem_singleton] at he
    rcases he with he | rfl
    · have := t.serial_lt e he
      omega
    · exact Nat.lt_succ_self _
  serial_nodup := by
    rw [Slots.toList_push, List.map_append, List.nodup_append]
    refine ⟨t.serial_nodup, List.nodup_singleton _, ?_⟩
    intro a ha b hb
    obtain ⟨e, he, rfl⟩ := List.mem_map.mp ha
    have hb' : b = t.made := by simpa using hb
    have := t.serial_lt e he
    omega

/-- `keybind.binds[j] = keybind.binds[--keybind.count]` -/
def KeybindTable.remove (t : KeybindTable) (j : Nat) (h : j < t.binds.count) : KeybindTable where
  binds := t.binds.erase j h
  made := t.made
  serial_lt := by
    intro e he
    rw [Slots.toList_erase, (swapRemove_perm (by simpa using h)).mem_iff] at he
    exact t.serial_lt e (List.mem_of_mem_eraseIdx he)
  serial_nodup := by
    rw [Slots.toList_erase, ((swapRemove_perm (by simpa using h)).map _).nodup_iff]
    exact t.serial_nodup.sublist ((List.eraseIdx_sublist ..).map _)

/-- `wm_bind_key`; `keyboard` is what `enable_keyboard` returns. -/
def wmBindKey (t : KeybindTable) (combo : KeyCombo) (cb ctx : Ptr) (keyboard : WMError) :
    WMError × KeybindTable :=
  if cb = 0 then
    (.invalidArgument, t)
  else if keyboard ≠ .ok then
    (keyboard, t)
  else if h : t.binds.count < keybindMax then
    (.ok, t.add combo cb ctx h)
  else
    (.outOfMemory, t)

/-- The slot of the first binding of `combo`. -/
def KeybindTable.slotOf (t : KeybindTable) (combo : KeyCombo) : Option Nat :=
  t.entries.findIdx? fun e => comboEq e.combo combo

theorem KeybindTable.slotOf_lt {t : KeybindTable} {combo : KeyCombo} {j : Nat}
    (h : t.slotOf combo = some j) : j < t.binds.count := by
  have := (List.findIdx?_eq_some_iff_findIdx_eq.mp h).1
  rwa [entries, Slots.toList_length] at this

/-- `wm_unbind_key`: the first binding of `combo` goes; its `ctx` is handed back
through `out_ctx`, `NULL` when there was none. -/
def wmUnbindKey (t : KeybindTable) (combo : KeyCombo) : WMError × Ptr × KeybindTable :=
  match h : t.slotOf combo with
  | none => (.ok, 0, t)
  | some j =>
    (.ok, (t.binds.get j (KeybindTable.slotOf_lt h)).ctx, t.remove j (KeybindTable.slotOf_lt h))

/-! ## Firing -/

/-- A call that a running callback makes on the table. -/
inductive BindCall where
  | bind (combo : KeyCombo) (cb ctx : Ptr) (keyboard : WMError)
  | unbind (combo : KeyCombo)

/-- The table after one call. -/
def BindCall.run (t : KeybindTable) : BindCall → KeybindTable
  | bind combo cb ctx keyboard => (wmBindKey t combo cb ctx keyboard).2
  | unbind combo => (wmUnbindKey t combo).2.2

/-- The table after the calls of one callback. -/
def runCalls (t : KeybindTable) (calls : List BindCall) : KeybindTable :=
  calls.foldl BindCall.run t

/-- The calls made by a callback: those of the last of the bindings run so far. -/
abbrev Callbacks := List Keybind → List BindCall

/-- Callbacks that leave the table alone. -/
def Callbacks.idle : Callbacks := fun _ => []

/-- One callback run by the firing loop: the slot the loop stood on, the binding it
ran, the table it found and the calls it made. -/
structure Firing where
  slot : Nat
  entry : Keybind
  before : KeybindTable
  calls : List BindCall

/-- The table the callback left. -/
def Firing.after (f : Firing) : KeybindTable := runCalls f.before f.calls

/-- The test of the firing loop: the entry's combo has length `best` and is triggered. -/
def firesFor {keyMax : Nat} (key : MCKey) (best : Nat) (down : Vector Bool keyMax)
    (e : Keybind) : Bool :=
  e.combo.count = best && comboTriggered key e.combo down

/-- The firing loop of `process_keybinds` from slot `i`, with the bindings already
run for this press. `fuel` is `KEYBIND_MAX - i`, and `keybind.count` never exceeds
`KEYBIND_MAX`, so the loop ends by its own test. -/
def fireFrom {keyMax : Nat} (cbs : Callbacks) (key : MCKey) (best : Nat)
    (down : Vector Bool keyMax) : Nat → Nat → KeybindTable → List Keybind →
    KeybindTable × List Firing
  | 0, _, t, _ => (t, [])
  | fuel + 1, i, t, ran =>
    match t.binds.get? i with
    | none => (t, [])
    | some e =>
      -- the callback is called with the table as it stands, and the walk goes on in the
      -- table that it leaves
      if firesFor key best down e then
        let calls := cbs (ran ++ [e])
        let rest := fireFrom cbs key best down fuel (i + 1) (runCalls t calls) (ran ++ [e])
        (rest.1, ⟨i, e, t, calls⟩ :: rest.2)
      else
        fireFrom cbs key best down fuel (i + 1) t ran

/-- The length of the longest triggered combo: the first loop of
`process_keybinds`. -/
def bestCount {keyMax : Nat} (key : MCKey) (down : Vector Bool keyMax)
    (entries : List Keybind) : Nat :=
  entries.foldl
    (fun best e => if comboTriggered key e.combo down && best < e.combo.count then e.combo.count
      else best) 0

/-- The static `keybind`. -/
structure Keybinds (keyMax : Nat) where
  table : KeybindTable
  down : Vector Bool keyMax

def Keybinds.init (keyMax : Nat) : Keybinds keyMax :=
  ⟨KeybindTable.empty, Vector.replicate keyMax false⟩

/-- `process_keybinds` once the event is known to be a keyboard event. -/
def processKey {keyMax : Nat} (cbs : Callbacks) (kb : Keybinds keyMax) (key : MCKey)
    (down : Bool) : Keybinds keyMax × List Firing :=
  let wasDown := flag kb.down key
  let held := setFlag kb.down key down
  -- a release, or an auto-repeat of a key already held
  if !down || wasDown then
    ({ kb with down := held }, [])
  else
    let best := bestCount key held kb.table.entries
    let fired := fireFrom cbs key best held keybindMax 0 kb.table []
    ({ table := fired.1, down := held }, fired.2)

/-- `process_keybinds` -/
def processKeybinds {keyMax : Nat} (cbs : Callbacks) (kb : Keybinds keyMax) :
    WMEvent → Keybinds keyMax × List Firing
  | .globalKeyDown key => processKey cbs kb key true
  | .globalKeyUp key => processKey cbs kb key false
  | _ => (kb, [])

end Uniwm
