import Uniwm.Desktops.Span

/-!
# uniwm — the current desktop

`win_vdesk_current` looks the current desktop up in what the cache holds, and refreshes only
a cache that is empty. `push_vdesk_ptr` then refreshes the cache for its check, so the call
after that may find what this one did not.

`current_found_iff`: with everything else in order, the current desktop is found, and the
next call agrees, exactly if the cache was empty or had that desktop. `new_current_missed`
switches to a desktop created outside.
-/

namespace Uniwm

open Base

/-! ## Refreshes that succeed -/

/-- An enumeration of the desktops `shown` in which every element can be read and every
allocation succeeds. -/
structure Shows (shown : List GUID) (elements : List DesktopElement) : Prop where
  ids : elements.map (·.id) = shown
  readable : ∀ e ∈ elements, e.vd.isSome = true
  allocates : ∀ e ∈ elements, e.nameGrown = true ∧ e.addr.isSome = true ∧ e.grown = true

/-- Nothing else can make a refresh fail. -/
theorem refreshFrom_ok {t : Target} {elements : List DesktopElement} {ordinal : Nat}
    (hAllocates : ∀ e ∈ elements, e.nameGrown = true ∧ e.addr.isSome = true ∧ e.grown = true) :
    (refreshFrom t ordinal elements).1 = .ok := by
  induction elements generalizing t ordinal with
  | nil => rfl
  | cons e elements ih =>
    rw [List.forall_mem_cons] at hAllocates
    obtain ⟨⟨hname, haddr, hgrown⟩, hrest⟩ := hAllocates
    obtain ⟨addr, haddr⟩ := Option.isSome_iff_exists.mp haddr
    cases hvd : e.vd with
    -- an element that cannot be read is passed over
    | none =>
      simp only [refreshFrom, hvd]
      exact ih hrest
    | some vd =>
      cases hfind : findDesktop t.items e.id with
      | some existing =>
        simp only [refreshFrom, hvd, hfind, refreshExisting, fetchName, hname, if_true, ne_eq,
          not_true_eq_false, if_false]
        exact ih hrest
      | none =>
        simp only [refreshFrom, hvd, hfind, refreshNew, wrapDesktop, haddr, fetchName, hname,
          hgrown, if_true, ne_eq, not_true_eq_false, if_false]
        exact ih hrest

theorem Shows.refresh_ok {t : Target} {shown : List GUID} {elements : List DesktopElement}
    (h : Shows shown elements) : (refresh t (some elements)).1 = .ok :=
  refreshFrom_ok h.allocates

theorem Shows.mem_ids {t : Target} {shown : List GUID} {elements : List DesktopElement} {id : GUID}
    (h : Shows shown elements) (hid : id ∈ shown) : id ∈ (refresh t (some elements)).2.ids := by
  have hshown : id ∈ shownIds elements := by
    rw [shownIds, List.filter_eq_self.mpr h.readable, h.ids]
    exact hid
  rw [(refresh_done h.refresh_ok).ids, mem_append_newcomers]
  exact Or.inr hshown

/-! ## Lookups across refreshes -/

/-- Where the desktop `id` is. -/
def Target.placeOf (t : Target) (id : GUID) : Option Ptr := (findDesktop t.items id).map (·.addr)

section Places

variable {t t' : Target} {id : GUID} {d : Ptr}

theorem Target.placeOf_isSome_iff : (t.placeOf id).isSome = true ↔ id ∈ t.ids := by
  rw [placeOf, Option.isSome_map, Option.isSome_iff_ne_none, ne_eq, findDesktop_eq_none_iff,
    not_not]

theorem Target.placeOf_eq (t : Target) (id : GUID) :
    t.placeOf id = (t.places.find? (·.2 = id)).map (·.1) := by
  rw [placeOf, findDesktop, places, List.find?_map, Option.map_map]
  rfl

/-- Desktops that have a place keep it. -/
theorem placeOf_keeps (hplaces : t.places <+: t'.places) (hd : t.placeOf id = some d) :
    t'.placeOf id = some d := by
  obtain ⟨more, hmore⟩ := hplaces
  rw [Target.placeOf_eq] at hd ⊢
  rw [← hmore, List.find?_append]
  cases hfind : t.places.find? (·.2 = id) with
  | none => simp [hfind] at hd
  | some place =>
    rw [hfind] at hd
    exact hd

theorem placeOf_mem (hd : t.placeOf id = some d) : ∃ e ∈ t.items, e.addr = d := by
  rw [Target.placeOf, Option.map_eq_some_iff] at hd
  obtain ⟨e, he, rfl⟩ := hd
  exact ⟨e, List.mem_of_find?_eq_some he, rfl⟩

end Places

/-! ## The current desktop -/

section Current

variable {t : Target} {shown : List GUID} {cur : GUID} {arr span : List DesktopElement}

/-- The span contains what the cache contains, so the check passes. -/
theorem pushVdeskPtr_placeOf (h : Shows shown span) {d : Ptr} (hd : t.placeOf cur = some d) :
    (pushVdeskPtr t (some span) (some d)).1 = some d ∧
      (pushVdeskPtr t (some span) (some d)).2.placeOf cur = some d := by
  have hok : (refresh t (some span)).1 = .ok := h.refresh_ok
  have hplaces : t.places <+: (refresh t (some span)).2.places := (refresh_done hok).places
  have hkept := placeOf_keeps hplaces hd
  obtain ⟨e, he, haddr⟩ := placeOf_mem hkept
  have hany : (winGetVdesk t (some span)).1.any (·.addr = d) = true := by
    rw [winGetVdesk, hok, List.any_eq_true]
    exact ⟨e, he, by simpa using haddr⟩
  exact ⟨by rw [pushVdeskPtr]; simp [hany], hkept⟩

/-- A cache that has the current desktop finds it. -/
theorem winVdeskCurrent_of_mem (hmem : cur ∈ t.ids) (arr : Option (List DesktopElement)) :
    winVdeskCurrent t arr (some cur) = (findDesktop t.items cur, t) := by
  have hne : t.items.length ≠ 0 := by
    intro hzero
    rw [Target.ids, List.length_eq_zero_iff.mp hzero] at hmem
    cases hmem
  simp only [winVdeskCurrent, hne, if_false, ne_eq, not_true_eq_false]

/-- An empty one is filled first. -/
theorem winVdeskCurrent_of_empty (hempty : t.items = []) (h : Shows shown arr) :
    winVdeskCurrent t (some arr) (some cur) =
      (findDesktop (refresh t (some arr)).2.items cur, (refresh t (some arr)).2) := by
  have hzero : t.items.length = 0 := by rw [hempty, List.length_nil]
  simp only [winVdeskCurrent, hzero, h.refresh_ok, if_true, ne_eq, not_true_eq_false, if_false]

/-- A cache that is not empty and lacks it does not find it. -/
theorem winVdeskCurrent_of_not_mem (hne : t.items ≠ []) (hmem : cur ∉ t.ids)
    (arr : Option (List DesktopElement)) : winVdeskCurrent t arr (some cur) = (none, t) := by
  have hzero : t.items.length ≠ 0 := fun h => hne (List.length_eq_zero_iff.mp h)
  simp only [winVdeskCurrent, hzero, if_false, ne_eq, not_true_eq_false]
  rw [findDesktop_eq_none_iff.mpr hmem]

/-- `wm_vdesktop_current` gives the entry of the desktop `cur`. -/
def CurrentFound (t : Target) (arr : Option (List DesktopElement)) (cur : GUID) : Prop :=
  ∃ d, (winVdeskCurrent t arr (some cur)).1 = some d ∧ d.id = cur ∧
    d ∈ (winVdeskCurrent t arr (some cur)).2.items

theorem currentFound_of_mem {filled : Target} (arr : Option (List DesktopElement))
    (hmem : cur ∈ filled.ids)
    (hfilled : winVdeskCurrent t arr (some cur) = (findDesktop filled.items cur, filled)) :
    CurrentFound t arr cur := by
  unfold CurrentFound
  rw [hfilled]
  cases hfind : findDesktop filled.items cur with
  | none => exact absurd hmem (findDesktop_eq_none_iff.mp hfind)
  | some d =>
    exact ⟨d, rfl, by simpa using List.find?_some hfind, List.mem_of_find?_eq_some hfind⟩

/-- **The current desktop.** After any refreshes, let the OS show the desktops `shown`, one of
them the current one, in enumerations whose elements can all be read, with no allocation
failing. Then `wm_vdesktop_current` gives the entry of the current desktop, and two calls
of `vdesktop:current()` in a row agree, exactly if the cache is empty or has that desktop. -/
theorem current_found_iff (past : List (Option (List DesktopElement))) (hCur : cur ∈ shown)
    {span' : List DesktopElement} (hArr : Shows shown arr) (hSpan : Shows shown span)
    (hSpan' : Shows shown span') (arr' : Option (List DesktopElement)) :
    let t := final Target.step .init past
    let first := lVdeskCurrent t ⟨some arr, some cur, some span⟩
    let second := lVdeskCurrent first.2 ⟨arr', some cur, some span'⟩
    CurrentFound t (some arr) cur ∧ first.1 = second.1 ↔ t.items = [] ∨ cur ∈ t.ids := by
  intro t first second
  constructor
  -- a cache that has other desktops only is not refreshed before the lookup
  · rintro ⟨⟨d, hd, -, -⟩, -⟩
    by_contra hcon
    rw [not_or] at hcon
    rw [winVdeskCurrent_of_not_mem hcon.1 hcon.2] at hd
    cases hd
  · intro hcond
    -- the cache in which the desktop is looked up
    obtain ⟨filled, hmem, hfilled⟩ : ∃ filled : Target, cur ∈ filled.ids ∧
        winVdeskCurrent t (some arr) (some cur) =
          (findDesktop filled.items cur, filled) := by
      by_cases hmem : cur ∈ t.ids
      · exact ⟨t, hmem, winVdeskCurrent_of_mem hmem _⟩
      · have hempty := hcond.resolve_right hmem
        exact ⟨_, hArr.mem_ids hCur, winVdeskCurrent_of_empty hempty hArr⟩
    refine ⟨currentFound_of_mem _ hmem hfilled, ?_⟩
    obtain ⟨d, hd⟩ := Option.isSome_iff_exists.mp (Target.placeOf_isSome_iff.mpr hmem)
    have hfirst : first = pushVdeskPtr filled (some span) (some d) := by
      rw [← hd, Target.placeOf]
      simp only [first, lVdeskCurrent, hfilled]
    -- it keeps its place in the refreshes of both checks
    obtain ⟨hanswer, hkept⟩ := pushVdeskPtr_placeOf hSpan hd
    rw [← hfirst] at hanswer hkept
    have hmem' : cur ∈ first.2.ids := by
      rw [← Target.placeOf_isSome_iff, hkept]
      rfl
    have hsecond : second = pushVdeskPtr first.2 (some span') (some d) := by
      rw [← hkept, Target.placeOf]
      simp only [second, lVdeskCurrent, winVdeskCurrent_of_mem hmem']
    rw [hanswer, hsecond, (pushVdeskPtr_placeOf hSpan' hkept).1]

end Current

/-! ### A desktop that was created outside -/

theorem shows_nil : Shows [] [] := by
  exact ⟨rfl, by simp, by simp⟩

theorem Shows.cons {shown : List GUID} {elements : List DesktopElement} (h : Shows shown elements)
    (vd : IVirtualDesktop) (id : GUID) (addr : Ptr) :
    Shows (id :: shown) (namedDesktop vd id addr :: elements) where
  ids := by rw [List.map_cons, h.ids, namedDesktop]
  readable := List.forall_mem_cons.mpr ⟨rfl, h.readable⟩
  allocates := List.forall_mem_cons.mpr ⟨⟨rfl, rfl, rfl⟩, h.allocates⟩

/-- An enumeration of the desktops 1 and 2. -/
def twoDesktops (vd : IVirtualDesktop) : List DesktopElement :=
  [namedDesktop vd 1 101, namedDesktop (vd + 1) 2 102]

theorem shows_twoDesktops (vd : IVirtualDesktop) : Shows [1, 2] (twoDesktops vd) :=
  (shows_nil.cons (vd + 1) 2 102).cons vd 1 101

theorem current_found_iff_two :
    CurrentFound (final Target.step .init []) (some (twoDesktops 11)) 2 ∧
        (lVdeskCurrent (final Target.step .init [])
          ⟨some (twoDesktops 11), some 2, some (twoDesktops 13)⟩).1 =
        (lVdeskCurrent (lVdeskCurrent (final Target.step .init [])
          ⟨some (twoDesktops 11), some 2, some (twoDesktops 13)⟩).2
          ⟨none, some 2, some (twoDesktops 15)⟩).1 ↔
      (final Target.step .init []).items = [] ∨ 2 ∈ (final Target.step .init []).ids :=
  current_found_iff [] (by decide) (shows_twoDesktops 11) (shows_twoDesktops 13)
    (shows_twoDesktops 15) none

/-- Desktop 1 is cached; desktop 2 is then created outside and becomes the current one. The
first call gives `nil`, and the next one desktop 2. -/
theorem new_current_missed :
    let t := final Target.step .init [some [namedDesktop 11 1 101]]
    let first := lVdeskCurrent t ⟨some (twoDesktops 12), some 2, some (twoDesktops 14)⟩
    Shows [1, 2] (twoDesktops 12) ∧ Shows [1, 2] (twoDesktops 14) ∧
      Shows [1, 2] (twoDesktops 16) ∧
      (winVdeskCurrent t (some (twoDesktops 12)) (some 2)).1 = none ∧ first.1 = none ∧
      (lVdeskCurrent first.2 ⟨some (twoDesktops 15), some 2, some (twoDesktops 16)⟩).1 =
        some 102 ∧
      ¬ CurrentFound t (some (twoDesktops 12)) 2 := by
  have hmissed : (winVdeskCurrent (final Target.step .init [some [namedDesktop 11 1 101]])
      (some (twoDesktops 12)) (some 2)).1 = none := by decide
  refine ⟨shows_twoDesktops 12, shows_twoDesktops 14, shows_twoDesktops 16, hmissed, by decide,
    by decide, ?_⟩
  rintro ⟨d, hd, -⟩
  rw [hmissed] at hd
  cases hd

end Uniwm
