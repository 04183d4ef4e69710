import Uniwm.Desktops.Refresh

/-!
# uniwm — the span of virtual desktops

A refresh keeps the records it has, in their places, and appends one for each desktop it
lacks (`refresh_ids`). It also keeps track of which records still stand for a desktop
(`refresh_valid`), but nothing reads that flag: the span is the whole cache, with the
desktops that have gone and in the order in which desktops were first seen.

So `vdesk_span_iff`: the span is the enumeration, the check accepts just the desktops that
exist and the list shows them in order, exactly if the desktops cached before are the
first ones of the enumeration. Over a whole run of refreshes (`spans_right_iff_chain`) this
means that desktops have only ever been added at the end. `removed_desktop_listed` removes
a desktop.
-/

namespace Uniwm

open Base

/-! ## The records -/

theorem shownIds_eq {elements : List DesktopElement}
    (hReadable : ∀ e ∈ elements, e.vd.isSome = true) :
    shownIds elements = elements.map (·.id) := by
  rw [shownIds, List.filter_eq_self.mpr hReadable]

/-- **One refresh.** The cached desktops stay where they are and the newcomers follow. -/
theorem refresh_ids {t : Target} {elements : List DesktopElement}
    (hReadable : ∀ e ∈ elements, e.vd.isSome = true)
    (hok : (refresh t (some elements)).1 = .ok) :
    (refresh t (some elements)).2.ids = t.ids ++ newcomers t.ids (elements.map (·.id)) ∧
      t.items.map (·.addr) <+: (refresh t (some elements)).2.items.map (·.addr) := by
  have hdone := refresh_done hok
  refine ⟨?_, ?_⟩
  · rw [hdone.ids, shownIds_eq hReadable]
  · have haddrs : ∀ t : Target, t.items.map (·.addr) = t.places.map (·.1) := fun t => by
      rw [Target.places, List.map_map]
      rfl
    rw [haddrs, haddrs]
    exact hdone.places.map _

/-! ## The flag that nothing reads -/

/-- After a refresh that succeeds with every element readable, `valid` tells exactly which
cached desktops exist. -/
theorem refresh_valid {t : Target} {elements : List DesktopElement}
    (hReadable : ∀ e ∈ elements, e.vd.isSome = true)
    (hok : (refresh t (some elements)).1 = .ok) (hNodup : t.ids.Nodup) :
    ∀ d ∈ (refresh t (some elements)).2.items, d.valid = true ↔ d.id ∈ elements.map (·.id) := by
  rw [← shownIds_eq hReadable]
  exact (refresh_done hok).valid hNodup

/-! ## The span -/

/-- The span handed out is the enumeration, the check accepts just the cached desktops that
exist, and the list for scripts shows all desktops in order. -/
structure SpanRight (t : Target) (elements : List DesktopElement) : Prop where
  span : (winGetVdesk t (some elements)).1.map (·.id) = elements.map (·.id)
  checked : ∀ d ∈ t.items,
    (checkedVdesk t (some elements) d.addr).1 = some d.addr ↔ d.id ∈ elements.map (·.id)
  listed : (lVdeskList t (some elements)).1.map (·.id) = elements.map (·.id)

/-- Whatever has been cached before: when a refresh succeeds with every element readable and
one id for each desktop, the span is right exactly if the cached desktops are the first
desktops of the enumeration, in its order. -/
theorem spanRight_iff {t : Target} {elements : List DesktopElement}
    (hReadable : ∀ e ∈ elements, e.vd.isSome = true)
    (hNodup : (elements.map (·.id)).Nodup) (hok : (refresh t (some elements)).1 = .ok) :
    SpanRight t elements ↔ t.ids <+: elements.map (·.id) := by
  obtain ⟨hids, haddrs⟩ := refresh_ids hReadable hok
  have hspan : (winGetVdesk t (some elements)).1 = (refresh t (some elements)).2.items := by
    rw [winGetVdesk, hok]
    rfl
  have hspan_ids : (winGetVdesk t (some elements)).1.map (·.id) =
      t.ids ++ newcomers t.ids (elements.map (·.id)) := by
    rw [hspan]
    exact hids
  constructor
  · intro hright
    exact (append_newcomers_eq_iff hNodup).mp (hspan_ids.symm.trans hright.span)
  · intro hprefix
    have hright := hspan_ids.trans ((append_newcomers_eq_iff hNodup).mpr hprefix)
    refine ⟨hright, fun d hd => iff_of_true ?_ ?_, hright⟩
    -- a record that was cached is still in the span
    · have haddr : d.addr ∈ (refresh t (some elements)).2.items.map (·.addr) :=
        haddrs.subset (List.mem_map_of_mem hd)
      obtain ⟨d', hd', heq⟩ := List.mem_map.mp haddr
      have hfound : (winGetVdesk t (some elements)).1.any (·.addr = d.addr) = true := by
        rw [hspan, List.any_eq_true]
        exact ⟨d', hd', by simpa using heq⟩
      simp only [checkedVdesk, hfound, if_true]
    · exact hprefix.subset (List.mem_map_of_mem hd)

/-- **The span.** After any refreshes, of whatever outcome: when the next one succeeds with
every element readable and one id for each desktop, the span is right exactly if the
cached desktops are the first desktops of the enumeration, in its order. -/
theorem vdesk_span_iff (past : List (Option (List DesktopElement)))
    {elements : List DesktopElement} (hReadable : ∀ e ∈ elements, e.vd.isSome = true)
    (hNodup : (elements.map (·.id)).Nodup)
    (hok : ((final Target.step .init past).step (some elements)).2 = .ok) :
    SpanRight (final Target.step .init past) elements ↔
      (final Target.step .init past).items.map (·.id) <+: elements.map (·.id) :=
  spanRight_iff hReadable hNodup hok

/-- **Whole runs.** If every refresh of a run succeeds with every element readable, every
span is right exactly if each enumeration begins with the one before it. -/
theorem spans_right_iff_chain {t : Target} {history : List (List DesktopElement)}
    (hRead : AtEachStep (fun t elements => t.step (some elements))
      (fun t elements _ => (∀ e ∈ elements, e.vd.isSome = true) ∧
        (elements.map (·.id)).Nodup ∧ (t.step (some elements)).2 = .ok) t history) :
    AtEachStep (fun t elements => t.step (some elements))
        (fun t elements _ => SpanRight t elements) t history ↔
      (t.ids :: history.map fun elements => elements.map (·.id)).IsChain (· <+: ·) := by
  induction history generalizing t with
  | nil => simp
  | cons elements history ih =>
    rw [atEachStep_cons] at hRead
    obtain ⟨⟨hReadable, hNodup, hok⟩, hrest⟩ := hRead
    rw [atEachStep_cons, spanRight_iff hReadable hNodup hok, List.map_cons,
      List.isChain_cons_cons, ih hrest]
    refine and_congr_right fun hprefix => ?_
    -- where the span is right, the cache afterwards is the enumeration
    have hids : (t.step (some elements)).1.ids = elements.map (·.id) :=
      (refresh_ids hReadable hok).1.trans ((append_newcomers_eq_iff hNodup).mpr hprefix)
    rw [hids]

/-! ### A desktop that is removed -/

/-- An element that can be read, with a name of its own. -/
def namedDesktop (vd : IVirtualDesktop) (id : GUID) (addr : Ptr) : DesktopElement :=
  ⟨some vd, id, some "work", true, some addr, true⟩

/-- A refresh that shows the desktops 1 and 2. -/
def showsTwo : Option (List DesktopElement) :=
  some [namedDesktop 11 1 101, namedDesktop 12 2 102]

theorem vdesk_span_iff_two :
    SpanRight (final Target.step .init [showsTwo])
        [namedDesktop 13 1 101, namedDesktop 14 2 102] ↔
      (final Target.step .init [showsTwo]).items.map (·.id) <+:
        [namedDesktop 13 1 101, namedDesktop 14 2 102].map (·.id) :=
  vdesk_span_iff [showsTwo] (by simp [namedDesktop]) (by decide) (by decide)

/-- With desktop 1 removed, a refresh that succeeds hands out both, and the check still
accepts desktop 1. -/
theorem removed_desktop_listed :
    ((final Target.step .init [showsTwo]).step (some [namedDesktop 14 2 102])).2 = .ok ∧
      (winGetVdesk (final Target.step .init [showsTwo])
        (some [namedDesktop 14 2 102])).1.map (·.id) = [1, 2] ∧
      (checkedVdesk (final Target.step .init [showsTwo])
        (some [namedDesktop 14 2 102]) 101).1 = some 101 ∧
      ¬ SpanRight (final Target.step .init [showsTwo]) [namedDesktop 14 2 102] := by
  have hspan : (winGetVdesk (final Target.step .init [showsTwo])
      (some [namedDesktop 14 2 102])).1.map (·.id) = [1, 2] := by decide
  refine ⟨by decide, hspan, by decide, ?_⟩
  intro hright
  have hright' := hspan.symm.trans hright.span
  simp [namedDesktop] at hright'

end Uniwm
