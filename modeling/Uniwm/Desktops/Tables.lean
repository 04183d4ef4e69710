import Uniwm.Base.Keyed
import Uniwm.Desktops.Span
import Uniwm.Model.Tables

/-!
# uniwm — one table for each desktop

The Lua cache of tables has the address of a record as its key and the script wants one table
for each desktop. That works because the cache of records is one-to-one in between: ids are
distinct, and so are addresses, as long as `mc_alloc` gives no address that is in use
(`AllocFresh`); and a record never moves (`Sound`, `Grows`).

`Tables s live issued seen` is the invariant of a run: `issued` are the tables returned so
far, each with the id of its desktop, and `seen` is what the OS has shown. The part about the
Lua cache is `WeakCache.Interned`. `vdesk_tables` reads off that tables are the same as long
as they are held, that desktops never share one, and what methods act on.
-/

namespace Uniwm

open Base

/-! ## Records that stay apart -/

/-- Ids and addresses are distinct, and each record holds an interface that was read as one of
its desktop. -/
structure Sound (seen : List DesktopElement) (items : List VDesktop) : Prop where
  ids : (items.map (·.id)).Nodup
  addrs : (items.map (·.addr)).Nodup
  read : ∀ d ∈ items, ∃ e ∈ seen, e.vd = some d.iface ∧ e.id = d.id

/-- Wherever the loop of `refresh` calls `mc_alloc`, that gives an address at which the cache
has no record. -/
def AllocFresh : Target → Nat → List DesktopElement → Prop
  | _, _, [] => True
  | t, ordinal, e :: elements =>
    (e.vd.isSome = true → e.id ∉ t.ids → ∀ addr ∈ e.addr, addr ∉ t.items.map (·.addr)) ∧
      ((refreshFrom t ordinal [e]).1 = .ok →
        AllocFresh (refreshFrom t ordinal [e]).2 (ordinal + 1) elements)

instance AllocFresh.decidable : ∀ t ordinal elements, Decidable (AllocFresh t ordinal elements)
  | _, _, [] => .isTrue trivial
  | t, ordinal, e :: elements =>
    have := AllocFresh.decidable (refreshFrom t ordinal [e]).2 (ordinal + 1) elements
    inferInstanceAs (Decidable
      ((e.vd.isSome = true → e.id ∉ t.ids → ∀ addr ∈ e.addr, addr ∉ t.items.map (·.addr)) ∧
        ((refreshFrom t ordinal [e]).1 = .ok →
          AllocFresh (refreshFrom t ordinal [e]).2 (ordinal + 1) elements)))

/-- So does `refresh`. -/
def RefreshFresh (t : Target) (arr : Option (List DesktopElement)) : Prop :=
  AllocFresh (resetCache t) 0 (arr.getD [])

instance (t : Target) (arr : Option (List DesktopElement)) : Decidable (RefreshFresh t arr) :=
  inferInstanceAs (Decidable (AllocFresh ..))

section Sound

variable {seen : List DesktopElement} {t t' : Target}

theorem mem_updateDesktop {id : GUID} {f : VDesktop → VDesktop} {items : List VDesktop}
    {d : VDesktop} (h : d ∈ updateDesktop id f items) :
    d ∈ items ∨ ∃ d' ∈ items, d'.id = id ∧ d = f d' := by
  induction items with
  | nil => exact Or.inl h
  | cons d' items ih =>
    unfold updateDesktop at h
    split at h
    · next hid =>
      rcases List.mem_cons.mp h with rfl | h
      · exact Or.inr ⟨d', List.mem_cons_self .., hid, rfl⟩
      · exact Or.inl (List.mem_cons_of_mem _ h)
    · rcases List.mem_cons.mp h with rfl | h
      · exact Or.inl (List.mem_cons_self ..)
      · rcases ih h with hmem | ⟨e, he, hid, hd⟩
        · exact Or.inl (List.mem_cons_of_mem _ hmem)
        · exact Or.inr ⟨e, List.mem_cons_of_mem _ he, hid, hd⟩

/-- One element of the loop. -/
theorem Sound.element (h : Sound seen t.items) {e : DesktopElement} (hSeen : e ∈ seen)
    {ordinal : Nat} {error : WMError} {items : List VDesktop}
    (hdone : ElementDone t e ordinal error items)
    (hFresh : e.vd.isSome = true → e.id ∉ t.ids → ∀ addr ∈ e.addr, addr ∉ t.items.map (·.addr)) :
    Sound seen items := by
  cases hdone with
  | failed _ _ => exact h
  | skipped _ => exact h
  | existing vd hvd hmem =>
    have hids : (updateDesktop e.id (refilled e vd ordinal) t.items).map (·.id) =
        t.items.map (·.id) := updateDesktop_map (·.id) (by intros; rfl) t.items
    have haddrs : (updateDesktop e.id (refilled e vd ordinal) t.items).map (·.addr) =
        t.items.map (·.addr) := updateDesktop_map (·.addr) (by intros; rfl) t.items
    refine ⟨by rw [hids]; exact h.ids, by rw [haddrs]; exact h.addrs, ?_⟩
    intro d hd
    rcases mem_updateDesktop hd with hd | ⟨d', hd', hid, rfl⟩
    · exact h.read d hd
    · exact ⟨e, hSeen, hvd, hid.symm⟩
  | new vd addr hvd hmem haddr =>
    have hfresh := hFresh (by rw [hvd]; rfl) hmem addr haddr
    refine ⟨?_, ?_, ?_⟩
    · rw [List.map_append, List.nodup_append_comm]
      exact List.nodup_cons.mpr ⟨hmem, h.ids⟩
    · rw [List.map_append, List.nodup_append_comm]
      exact List.nodup_cons.mpr ⟨hfresh, h.addrs⟩
    · intro d hd
      rcases List.mem_append.mp hd with hd | hd
      · exact h.read d hd
      · rw [List.mem_singleton.mp hd]
        exact ⟨e, hSeen, hvd, rfl⟩

theorem Sound.refreshFrom {elements : List DesktopElement} {ordinal : Nat}
    (h : Sound seen t.items) (hSeen : ∀ e ∈ elements, e ∈ seen)
    (hFresh : AllocFresh t ordinal elements) :
    Sound seen (refreshFrom t ordinal elements).2.items := by
  induction elements generalizing t ordinal with
  | nil => exact h
  | cons e elements ih =>
    rw [List.forall_mem_cons] at hSeen
    have hone := h.element hSeen.1 (refreshFrom_one t e ordinal) hFresh.1
    rw [refreshFrom_cons]
    split
    · exact hone
    · next hok => exact ih hone hSeen.2 (hFresh.2 (not_not.mp hok))

theorem Sound.mono (h : Sound seen t.items) (more : List DesktopElement) :
    Sound (seen ++ more) t.items where
  ids := h.ids
  addrs := h.addrs
  read := fun d hd =>
    let ⟨e, he, hread⟩ := h.read d hd
    ⟨e, List.mem_append_left _ he, hread⟩

/-- From `t` to `t'` records stay apart and stay where they are. -/
def Grows (seen : List DesktopElement) (t t' : Target) : Prop :=
  Sound seen t.items → Sound seen t'.items ∧ t.places <+: t'.places

theorem Grows.refl (t : Target) : Grows seen t t := fun h => ⟨h, List.prefix_refl _⟩

theorem Grows.trans {t'' : Target} (h : Grows seen t t') (h' : Grows seen t' t'') :
    Grows seen t t'' := by
  intro hsound
  obtain ⟨hsound', hplaces⟩ := h hsound
  obtain ⟨hsound'', hplaces'⟩ := h' hsound'
  exact ⟨hsound'', hplaces.trans hplaces'⟩

theorem refresh_grows {arr : Option (List DesktopElement)} (hFresh : RefreshFresh t arr)
    (hSeen : ∀ e ∈ arr.getD [], e ∈ seen) : Grows seen t (refresh t arr).2 := by
  intro h
  refine ⟨?_, (refresh_keeps t arr h.ids).2⟩
  cases arr with
  | none => exact h
  | some elements =>
    have hreset : Sound seen (resetCache t).items := by
      refine ⟨?_, ?_, ?_⟩
      · simpa [resetCache, Function.comp_def] using h.ids
      · simpa [resetCache, Function.comp_def] using h.addrs
      · intro d hd
        obtain ⟨d', hd', rfl⟩ := List.mem_map.mp hd
        exact h.read d' hd'
    exact hreset.refreshFrom hSeen hFresh

end Sound

/-! ## Calls -/

/-- What the OS shows in a call. -/
def DesktopCall.elements : DesktopCall → List DesktopElement
  | list arr _ => arr.getD []
  | current o _ => o.arr.getD [] ++ o.span.getD []
  | create _ arr span _ => arr.getD [] ++ span.getD []
  | refresh arr => arr.getD []
  | forget _ => []
  | collect _ => []

/-- In the refreshes that a call makes, `mc_alloc` gives no address in use. -/
def DesktopCall.Fresh (t : Target) : DesktopCall → Prop
  | list arr _ => RefreshFresh t arr
  | current o _ =>
    (t.items.length = 0 → RefreshFresh t o.arr) ∧
      RefreshFresh (winVdeskCurrent t o.arr o.cur).2 o.span
  | create created arr span _ =>
    (created.isSome = true → RefreshFresh t arr) ∧
      ((winVdeskCreate t created arr).1.isSome = true →
        RefreshFresh (winVdeskCreate t created arr).2 span)
  | refresh arr => RefreshFresh t arr
  | forget _ => True
  | collect _ => True

section Calls

variable {seen : List DesktopElement} {t : Target}

theorem winVdeskCurrent_grows {arr : Option (List DesktopElement)} (cur : Option GUID)
    (hFresh : t.items.length = 0 → RefreshFresh t arr) (hSeen : ∀ e ∈ arr.getD [], e ∈ seen) :
    Grows seen t (winVdeskCurrent t arr cur).2 := by
  have htarget : (winVdeskCurrent t arr cur).2 =
      (if t.items.length = 0 then refresh t arr else (.ok, t)).2 := by
    simp only [winVdeskCurrent]
    generalize (if t.items.length = 0 then refresh t arr else (.ok, t)) = filled
    split
    · rfl
    · cases cur <;> rfl
  rw [htarget]
  split
  · next hempty => exact refresh_grows (hFresh hempty) hSeen
  · exact Grows.refl t

theorem winVdeskCreate_grows {created : Option GUID} {arr : Option (List DesktopElement)}
    (hFresh : created.isSome = true → RefreshFresh t arr) (hSeen : ∀ e ∈ arr.getD [], e ∈ seen) :
    Grows seen t (winVdeskCreate t created arr).2 := by
  cases created with
  | none => exact Grows.refl t
  | some id =>
    have htarget : (winVdeskCreate t (some id) arr).2 = (refresh t arr).2 := by
      simp only [winVdeskCreate]
      split <;> rfl
    rw [htarget]
    exact refresh_grows (hFresh rfl) hSeen

/-- A pointer that was checked leads to a record of the cache. -/
theorem mem_derefVdesk {vdesk : Option Ptr} {d : VDesktop} (h : d ∈ derefVdesk t vdesk) :
    d ∈ t.items := by
  rw [derefVdesk, Option.mem_toList, Option.bind_eq_some_iff] at h
  obtain ⟨p, -, hfind⟩ := h
  exact List.mem_of_find?_eq_some hfind

/-- A call only makes the cache grow, and pushes records of it. -/
theorem DesktopCall.records_grow {call : DesktopCall} (hFresh : call.Fresh t)
    (hSeen : ∀ e ∈ call.elements, e ∈ seen) :
    Grows seen t (call.records t).2 ∧
      ∀ d ∈ (call.records t).1, d ∈ (call.records t).2.items := by
  cases call with
  | list arr gc =>
    refine ⟨refresh_grows hFresh hSeen, ?_⟩
    intro d hd
    simp only [records, lVdeskList, winGetVdesk] at hd ⊢
    split at hd
    · exact hd
    · cases hd
  | current o gc =>
    have hSeen' := List.forall_mem_append.mp hSeen
    refine ⟨?_, fun d hd => mem_derefVdesk hd⟩
    exact (winVdeskCurrent_grows o.cur hFresh.1 hSeen'.1).trans
      (refresh_grows hFresh.2 hSeen'.2)
  | create created arr span gc =>
    have hSeen' := List.forall_mem_append.mp hSeen
    have hcreate := winVdeskCreate_grows hFresh.1 hSeen'.1
    simp only [records]
    cases hout : (winVdeskCreate t created arr).1 with
    | none =>
      -- no desktop was made, and nothing is pushed
      exact ⟨hcreate, fun _ hd => absurd hd List.not_mem_nil⟩
    | some d =>
      have hspan := hFresh.2 (by rw [hout]; rfl)
      exact ⟨hcreate.trans (refresh_grows hspan hSeen'.2), fun d hd => mem_derefVdesk hd⟩
  | refresh arr => exact ⟨refresh_grows hFresh hSeen, fun _ hd => absurd hd List.not_mem_nil⟩
  | forget dropped => exact ⟨Grows.refl t, fun _ hd => absurd hd List.not_mem_nil⟩
  | collect cleared => exact ⟨Grows.refl t, fun _ hd => absurd hd List.not_mem_nil⟩

end Calls

/-! ## Tables -/

/-- The invariant: the records are sound; the Lua cache interns tables by the address of their
record; each table issued belongs to the record of the desktop it was issued for; and a table
is known by its number. -/
structure Tables (s : LuaDesktops) (live : List VDeskTable)
    (issued : List (GUID × VDeskTable)) (seen : List DesktopElement) : Prop where
  sound : Sound seen s.target.items
  interned : s.cache.Interned live (issued.map fun p => (p.2.vdesk, p.2))
  places : ∀ p ∈ issued, (p.2.vdesk, p.1) ∈ s.target.places
  made : ∀ p ∈ issued, p.2.ident < s.made
  idents : ∀ p ∈ issued, ∀ q ∈ issued, p.2.ident = q.2.ident → p.2 = q.2

section Tables

variable {s : LuaDesktops} {live : List VDeskTable} {issued : List (GUID × VDeskTable)}
  {seen : List DesktopElement}

theorem tables_init : Tables .init [] [] [] where
  sound := ⟨List.nodup_nil, List.nodup_nil, fun _ hd => nomatch hd⟩
  interned := WeakCache.interned_empty
  places := fun _ hp => nomatch hp
  made := fun _ hp => nomatch hp
  idents := fun _ hp => nomatch hp

/-- The cache of desktops grows. -/
theorem Tables.grow (h : Tables s live issued seen) {t : Target} (hgrows : Grows seen s.target t) :
    Tables { s with target := t } live issued seen := by
  obtain ⟨hsound, hplaces⟩ := hgrows h.sound
  exact ⟨hsound, h.interned, fun p hp => hplaces.subset (h.places p hp), h.made, h.idents⟩

/-- The collector runs. -/
theorem Tables.collect (h : Tables s live issued seen) {live' : List VDeskTable}
    (hsub : live ⊆ live') (cleared : VDeskTable → Bool) :
    Tables { s with cache := s.cache.collect live' cleared } live issued seen :=
  ⟨h.sound, h.interned.collect hsub cleared, h.places, h.made, h.idents⟩

/-- The cache has a table for the record. -/
theorem pushVdesk_hit {s : LuaDesktops} {d : VDesktop} {table : VDeskTable}
    (hget : s.cache.get d.addr = some table) : pushVdesk s d = (table, s) := by
  simp only [pushVdesk, hget]

/-- It has none. -/
theorem pushVdesk_miss {s : LuaDesktops} {d : VDesktop} (hget : s.cache.get d.addr = none) :
    pushVdesk s d = (⟨s.made, d.addr, d.name⟩, { s with
      cache := s.cache.put d.addr ⟨s.made, d.addr, d.name⟩
      made := s.made + 1 }) := by
  simp only [pushVdesk, hget]

@[simp] theorem pushVdesk_target (s : LuaDesktops) (d : VDesktop) :
    (pushVdesk s d).2.target = s.target := by
  unfold pushVdesk
  split <;> rfl

@[simp] theorem pushVdesk_held (s : LuaDesktops) (d : VDesktop) :
    (pushVdesk s d).2.held = s.held := by
  unfold pushVdesk
  split <;> rfl

/-- A table that the Lua cache has is issued again. -/
theorem Tables.again (h : Tables s live issued seen) {d : VDesktop} {table : VDeskTable}
    (hd : d ∈ s.target.items) (hget : s.cache.get d.addr = some table) :
    Tables s (live ++ [table]) (issued ++ [(d.id, table)]) seen := by
  -- the table has been issued, for the record at this address
  obtain ⟨p, hp, heq⟩ := List.mem_map.mp (h.interned.cached _ (WeakCache.mem_of_get hget))
  obtain ⟨hvdesk, htable⟩ := Prod.mk.inj heq
  rw [htable] at hvdesk
  have hold : ∀ q ∈ issued ++ [(d.id, table)], ∃ q' ∈ issued, q'.2 = q.2 := by
    rw [List.forall_mem_append, List.forall_mem_singleton]
    exact ⟨fun q hq => ⟨q, hq, rfl⟩, p, hp, htable⟩
  refine ⟨h.sound, ?_, ?_, ?_, ?_⟩
  · have hinterned := h.interned.get hget
    rw [← hvdesk] at hinterned
    rw [List.map_append, List.map_singleton]
    exact hinterned
  · rw [List.forall_mem_append, List.forall_mem_singleton]
    show _ ∧ (table.vdesk, d.id) ∈ s.target.places
    rw [hvdesk]
    exact ⟨h.places, List.mem_map.mpr ⟨d, hd, rfl⟩⟩
  · intro q hq
    obtain ⟨q', hq', heq⟩ := hold q hq
    rw [← heq]
    exact h.made q' hq'
  · intro q₁ hq₁ q₂ hq₂ heq
    obtain ⟨p₁, hp₁, heq₁⟩ := hold q₁ hq₁
    obtain ⟨p₂, hp₂, heq₂⟩ := hold q₂ hq₂
    rw [← heq₁, ← heq₂] at heq ⊢
    exact h.idents p₁ hp₁ p₂ hp₂ heq

/-- A table is made for a record that has none. -/
theorem Tables.make (h : Tables s live issued seen) {d : VDesktop} (hd : d ∈ s.target.items)
    (hget : s.cache.get d.addr = none) :
    let table : VDeskTable := ⟨s.made, d.addr, d.name⟩
    Tables { s with cache := s.cache.put d.addr table, made := s.made + 1 }
      (live ++ [table]) (issued ++ [(d.id, table)]) seen := by
  intro table
  refine ⟨h.sound, ?_, ?_, ?_, ?_⟩
  · rw [List.map_append, List.map_singleton]
    refine h.interned.put hget fun e he => ?_
    obtain ⟨q, hq, rfl⟩ := List.mem_map.mp he
    intro heq
    have hlt := h.made q hq
    rw [heq] at hlt
    exact Nat.lt_irrefl _ hlt
  · rw [List.forall_mem_append, List.forall_mem_singleton]
    exact ⟨h.places, List.mem_map.mpr ⟨d, hd, rfl⟩⟩
  · rw [List.forall_mem_append, List.forall_mem_singleton]
    exact ⟨fun q hq => Nat.lt_succ_of_lt (h.made q hq), Nat.lt_succ_self _⟩
  -- its number is above all that were given
  · intro q hq q' hq' heq
    rw [List.mem_append, List.mem_singleton] at hq hq'
    rcases hq with hq | rfl <;> rcases hq' with hq' | rfl
    · exact h.idents q hq q' hq' heq
    · exact absurd heq (Nat.ne_of_lt (h.made q hq))
    · exact absurd heq.symm (Nat.ne_of_lt (h.made q' hq'))
    · rfl

/-- A table is pushed, an old one or a new one. -/
theorem Tables.push (h : Tables s live issued seen) {d : VDesktop} (hd : d ∈ s.target.items) :
    let out := pushVdesk s d
    Tables out.2 (live ++ [out.1]) (issued ++ [(d.id, out.1)]) seen := by
  intro out
  cases hget : s.cache.get d.addr with
  | some table =>
    have hout : out = (table, s) := pushVdesk_hit hget
    rw [hout]
    exact h.again hd hget
  | none =>
    have hout : out = _ := pushVdesk_miss hget
    rw [hout]
    exact h.make hd hget

theorem pushSpan_held (s : LuaDesktops) (gc : Collector) (pushed : List (GUID × VDeskTable))
    (span : List VDesktop) : (pushSpan s gc pushed span).2.held = s.held := by
  induction span generalizing s pushed with
  | nil => rfl
  | cons d span ih =>
    rw [pushSpan, ih, pushVdesk_held]

/-- All tables of a call. -/
theorem Tables.pushSpan {pushed : List (GUID × VDeskTable)}
    (h : Tables s (s.held ++ pushed.map (·.2)) (issued ++ pushed) seen) {span : List VDesktop}
    (hspan : ∀ d ∈ span, d ∈ s.target.items) (gc : Collector) :
    let out := pushSpan s gc pushed span
    Tables out.2 (out.2.held ++ out.1.map (·.2)) (issued ++ out.1) seen := by
  induction span generalizing s pushed with
  | nil => exact h
  | cons d span ih =>
    rw [List.forall_mem_cons] at hspan
    have hcollected := h.collect (List.Subset.refl _) (gc pushed.length)
    have hpush := hcollected.push hspan.1
    rw [Uniwm.pushSpan]
    generalize hs : ({ s with cache := s.cache.collect _ _ } : LuaDesktops) = s' at hpush ⊢
    have hheld : s.held = (pushVdesk s' d).2.held := by rw [pushVdesk_held, ← hs]
    have htarget : s.target = (pushVdesk s' d).2.target := by rw [pushVdesk_target, ← hs]
    have hlive : s.held ++ pushed.map (·.2) ++ [(pushVdesk s' d).1] =
        s.held ++ (pushed ++ [(d.id, (pushVdesk s' d).1)]).map (·.2) := by
      rw [List.map_append, List.append_assoc]
      rfl
    simp only at hpush
    rw [hlive, List.append_assoc] at hpush
    rw [hheld] at hpush
    rw [htarget] at hspan
    exact ih hpush hspan.2

/-- The script lets go of tables. -/
theorem Tables.drop (h : Tables s live issued seen) {live' : List VDeskTable}
    (hsub : live' ⊆ live) : Tables s live' issued seen :=
  ⟨h.sound, h.interned.drop hsub, h.places, h.made, h.idents⟩

theorem Tables.setHeld (h : Tables s live issued seen) (held : List VDeskTable) :
    Tables { s with held := held } live issued seen :=
  ⟨h.sound, h.interned, h.places, h.made, h.idents⟩

theorem Tables.mono (h : Tables s live issued seen) (more : List DesktopElement) :
    Tables s live issued (seen ++ more) :=
  ⟨h.sound.mono more, h.interned, h.places, h.made, h.idents⟩

/-- **One step** keeps the invariant for what the script then holds. -/
theorem Tables.step (h : Tables s s.held issued seen) {call : DesktopCall}
    (hFresh : call.Fresh s.target) :
    Tables (s.step call).1 (s.step call).1.held (issued ++ (s.step call).2)
      (seen ++ call.elements) := by
  have hseen : ∀ e ∈ call.elements, e ∈ seen ++ call.elements := by
    intro e he
    exact List.mem_append_right _ he
  obtain ⟨hgrows, hrecords⟩ := DesktopCall.records_grow hFresh hseen
  have hmore := h.mono call.elements
  have hstart : Tables { s with target := (call.records s.target).2 }
      (s.held ++ ([] : List (GUID × VDeskTable)).map (·.2)) (issued ++ [])
      (seen ++ call.elements) := by
    simpa using hmore.grow hgrows
  have hpushed := hstart.pushSpan hrecords call.collector
  cases call with
  | forget dropped =>
    rw [LuaDesktops.step, List.append_nil]
    exact (hmore.drop List.filter_sublist.subset).setHeld _
  | collect cleared =>
    rw [LuaDesktops.step, List.append_nil]
    exact hmore.collect (List.Subset.refl _) cleared
  | list arr gc => exact hpushed.setHeld _
  | current o gc => exact hpushed.setHeld _
  | create created arr span gc => exact hpushed.setHeld _
  | refresh arr => exact hpushed.setHeld _

/-- A table that is returned is held, and nothing else is let go of then. -/
theorem step_held {call : DesktopCall} {p : GUID × VDeskTable} (hp : p ∈ (s.step call).2) :
    p.2 ∈ (s.step call).1.held ∧ s.held ⊆ (s.step call).1.held := by
  have hpushed : ∀ t records gc, p ∈ (Uniwm.pushSpan { s with target := t } gc [] records).1 →
      p.2 ∈ (Uniwm.pushSpan { s with target := t } gc [] records).2.held ++
          (Uniwm.pushSpan { s with target := t } gc [] records).1.map (·.2) ∧
        s.held ⊆ (Uniwm.pushSpan { s with target := t } gc [] records).2.held ++
          (Uniwm.pushSpan { s with target := t } gc [] records).1.map (·.2) := by
    intro t records gc hp
    rw [pushSpan_held]
    exact ⟨List.mem_append_right _ (List.mem_map_of_mem hp), List.subset_append_left ..⟩
  cases call with
  | forget dropped => nomatch hp
  | collect cleared => nomatch hp
  | list arr gc => exact hpushed _ _ _ hp
  | current o gc => exact hpushed _ _ _ hp
  | create created arr span gc => exact hpushed _ _ _ hp
  | refresh arr => exact hpushed _ _ _ hp

/-- Where the table of a desktop is, there is its record. -/
theorem Tables.record (h : Tables s live issued seen) {p : GUID × VDeskTable} (hp : p ∈ issued) :
    ∃ d ∈ s.target.items, d.addr = p.2.vdesk ∧ d.id = p.1 := by
  obtain ⟨d, hd, heq⟩ := List.mem_map.mp (h.places p hp)
  exact ⟨d, hd, (Prod.mk.inj heq).1, (Prod.mk.inj heq).2⟩

/-- Tables of one desktop that are both held are one table. -/
theorem Tables.same (h : Tables s live issued seen) {p q : GUID × VDeskTable} (hp : p ∈ issued)
    (hq : q ∈ issued) (hid : p.1 = q.1) (hp' : p.2 ∈ live) (hq' : q.2 ∈ live) : p.2 = q.2 := by
  obtain ⟨d, hd, haddr, hdid⟩ := h.record hp
  obtain ⟨d', hd', haddr', hdid'⟩ := h.record hq
  have hdd : d = d' :=
    List.inj_on_of_nodup_map h.sound.ids hd hd' (by rw [hdid, hdid', hid])
  have hvdesk : p.2.vdesk = q.2.vdesk := by rw [← haddr, ← haddr', hdd]
  have hmem := List.mem_map_of_mem (f := fun p : GUID × VDeskTable => (p.2.vdesk, p.2)) hp
  have hmem' := List.mem_map_of_mem (f := fun p : GUID × VDeskTable => (p.2.vdesk, p.2)) hq
  rw [← hvdesk] at hmem'
  exact h.interned.same hmem hmem' hp' hq'

/-- Two desktops never share a table. -/
theorem Tables.apart (h : Tables s live issued seen) {p q : GUID × VDeskTable} (hp : p ∈ issued)
    (hq : q ∈ issued) (hid : p.1 ≠ q.1) : p.2.ident ≠ q.2.ident := by
  intro hident
  have htable := h.idents p hp q hq hident
  obtain ⟨d, hd, haddr, hdid⟩ := h.record hp
  obtain ⟨d', hd', haddr', hdid'⟩ := h.record hq
  have hdd : d = d' :=
    List.inj_on_of_nodup_map h.sound.addrs hd hd' (by rw [haddr, haddr', htable])
  exact hid (by rw [← hdid, ← hdid', hdd])

/-- A method acts on the desktop of its table, through an interface read as that desktop's;
and unless the refresh fails it does act. -/
theorem Tables.method (h : Tables s live issued seen) {p : GUID × VDeskTable} (hp : p ∈ issued)
    {arr : Option (List DesktopElement)} (hFresh : RefreshFresh s.target arr) :
    (∀ d, methodVdesk s.target arr p.2 = some d →
        d.id = p.1 ∧ ∃ e ∈ seen ++ arr.getD [], e.vd = some d.iface ∧ e.id = p.1) ∧
      ((refresh s.target arr).1 = .ok → (methodVdesk s.target arr p.2).isSome = true) := by
  have hgrown := (h.mono (arr.getD [])).grow
    (refresh_grows hFresh fun e he => List.mem_append_right _ he)
  obtain ⟨d, hd, haddr, hid⟩ := hgrown.record hp
  have hfind : (refresh s.target arr).2.items.find? (·.addr = p.2.vdesk) = some d :=
    find?_keyed hgrown.sound.addrs hd haddr
  obtain ⟨e, he, hvd, heid⟩ := hgrown.sound.read d hd
  have hmethod : methodVdesk s.target arr p.2 =
      if (winGetVdesk s.target arr).1.any (·.addr = p.2.vdesk) then some d else none := by
    simp only [methodVdesk, checkedVdesk]
    split
    · exact hfind
    · rfl
  refine ⟨?_, ?_⟩
  · intro d' hd'
    rw [hmethod] at hd'
    split at hd'
    · cases hd'
      exact ⟨hid, e, he, hvd, heid.trans hid⟩
    · cases hd'
  · intro hok
    have hany : (winGetVdesk s.target arr).1.any (·.addr = p.2.vdesk) = true := by
      rw [winGetVdesk, hok, List.any_eq_true]
      exact ⟨d, hd, by simpa using haddr⟩
    rw [hmethod, if_pos hany]
    rfl

end Tables

/-! ## Runs -/

/-- The tables returned by the calls of a run, with the ids of their desktops. -/
def issuedTables (calls : List DesktopCall) : List (GUID × VDeskTable) :=
  (outputs LuaDesktops.step .init calls).flatten

/-- Allocations of a run. -/
def FreshRun (s : LuaDesktops) (calls : List DesktopCall) : Prop :=
  AtEachStep LuaDesktops.step (fun s call _ => call.Fresh s.target) s calls

theorem Tables.run {s : LuaDesktops} {issued : List (GUID × VDeskTable)}
    {seen : List DesktopElement} (h : Tables s s.held issued seen) {calls : List DesktopCall}
    (hFresh : FreshRun s calls) :
    Tables (final LuaDesktops.step s calls) (final LuaDesktops.step s calls).held
      (issued ++ (outputs LuaDesktops.step s calls).flatten)
      (seen ++ calls.flatMap DesktopCall.elements) := by
  induction calls generalizing s issued seen with
  | nil => simpa using h
  | cons call calls ih =>
    rw [FreshRun, atEachStep_cons] at hFresh
    have hrest := ih (h.step hFresh.1) hFresh.2
    rw [List.append_assoc, List.append_assoc] at hrest
    exact hrest

theorem tables_run {calls : List DesktopCall} (hFresh : FreshRun .init calls) :
    Tables (final LuaDesktops.step .init calls) (final LuaDesktops.step .init calls).held
      (issuedTables calls) (calls.flatMap DesktopCall.elements) :=
  tables_init.run hFresh

/-- **One table for each desktop.** Let a script call `list`, `current` and `create` in any
order, with refreshes of any outcome, changes of the desktops and collections of garbage in
between, `mc_alloc` never giving an address in use. Then for one more call:
* a table that it returns is the one returned before for the same desktop, if the script
  still holds that one, and the one that it returns again itself;
* tables for different desktops are different, whenever they were returned;
* before the call, the methods of a table returned act on the desktop of that table, through
  an interface that was read as that desktop's, unless their refresh fails. -/
theorem vdesk_tables (calls : List DesktopCall) (call : DesktopCall)
    (hFresh : FreshRun .init (calls ++ [call])) :
    let s := final LuaDesktops.step .init calls
    let returned := (s.step call).2
    (∀ p ∈ returned, ∀ q, q ∈ returned ∨ (q ∈ issuedTables calls ∧ q.2 ∈ s.held) →
        p.1 = q.1 → p.2 = q.2) ∧
      (∀ p ∈ issuedTables calls ++ returned, ∀ q ∈ issuedTables calls ++ returned,
        p.1 ≠ q.1 → p.2.ident ≠ q.2.ident) ∧
      ∀ p ∈ issuedTables calls, ∀ arr, RefreshFresh s.target arr →
        (∀ d, methodVdesk s.target arr p.2 = some d → d.id = p.1 ∧
          ∃ e ∈ calls.flatMap DesktopCall.elements ++ arr.getD [],
            e.vd = some d.iface ∧ e.id = p.1) ∧
        ((refresh s.target arr).1 = .ok → (methodVdesk s.target arr p.2).isSome = true) := by
  intro s returned
  have hpast : FreshRun .init calls := fun past i rest hsplit =>
    hFresh past i (rest ++ [call]) (by rw [hsplit, List.append_assoc, List.cons_append])
  have hrun := tables_run hpast
  have hnext := hrun.step (hFresh calls call [] rfl)
  refine ⟨?_, fun p hp q hq hid => hnext.apart hp hq hid, fun p hp arr harr => hrun.method hp harr⟩
  intro p hp q hq hid
  have hheld := step_held hp
  rcases hq with hq | ⟨hq, hlive⟩
  · exact hnext.same (List.mem_append_right _ hp) (List.mem_append_right _ hq) hid hheld.1
      (step_held hq).1
  · exact hnext.same (List.mem_append_right _ hp) (List.mem_append_left _ hq) hid hheld.1
      (hheld.2 hlive)

/-- The script lists the desktops 1 and 2, and then lists them again. -/
theorem vdesk_tables_two :
    let s := final LuaDesktops.step .init [.list showsTwo fun _ _ => true]
    let returned := (s.step (.list showsTwo fun _ _ => true)).2
    returned.map (·.1) = [1, 2] ∧
      ∀ p ∈ returned, ∀ q,
        q ∈ returned ∨ (q ∈ issuedTables [.list showsTwo fun _ _ => true] ∧ q.2 ∈ s.held) →
        p.1 = q.1 → p.2 = q.2 := by
  intro s returned
  have hfirst : RefreshFresh Target.init showsTwo := by decide
  have hsecond : RefreshFresh s.target showsTwo := by decide
  refine ⟨by decide, (vdesk_tables [.list showsTwo fun _ _ => true]
    (.list showsTwo fun _ _ => true) ?_).1⟩
  exact atEachStep_cons.mpr ⟨hfirst, atEachStep_cons.mpr ⟨hsecond, atEachStep_nil⟩⟩

end Uniwm
