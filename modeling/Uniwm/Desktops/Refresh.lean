import Uniwm.Base.Machine
import Uniwm.Base.Newcomers
import Uniwm.Model.Desktops

/-!
# uniwm — what a refresh does to the cache

A refresh goes through an enumeration of the desktops: it refills the record of a desktop
that the cache has, appends one for a desktop that it lacks, and passes over what it cannot
read. It may stop at any element, with what it has done so far left in place.

`Refreshed t₀ done t` says what the loop has reached when it is through with the elements
`done`; each element keeps it (`Refreshed.existing`, `Refreshed.new`). So a refresh that
fails is one that was stopped after a beginning of the enumeration (`refreshFrom_stops`).

`refresh_reconciles`: after any refreshes the ids are distinct, records stay where they are,
newcomers follow in the order of the enumeration, `valid` marks what was read, and a marked
record holds interface and name of its last occurrence.
-/

namespace Uniwm

open Base

/-- The ids of the cached desktops. -/
def Target.ids (t : Target) : List GUID := t.items.map (·.id)

/-! ## One element -/

section Element

variable {t : Target} {e : DesktopElement} {vd : IVirtualDesktop}

theorem findDesktop_eq_none_iff {id : GUID} : findDesktop t.items id = none ↔ id ∉ t.ids := by
  simp [findDesktop, Target.ids]

theorem mem_ids_of_findDesktop {id : GUID} {d : VDesktop}
    (hfind : findDesktop t.items id = some d) : id ∈ t.ids := by
  by_contra hnone
  rw [findDesktop_eq_none_iff.mpr hnone] at hfind
  cases hfind

/-- Where an update leaves a field alone, it leaves the list of that field alone. -/
theorem updateDesktop_map {β : Type} (g : VDesktop → β) {id : GUID} {f : VDesktop → VDesktop}
    (hf : ∀ d, g (f d) = g d) (items : List VDesktop) :
    (updateDesktop id f items).map g = items.map g := by
  induction items with
  | nil => rfl
  | cons d items ih =>
    unfold updateDesktop
    split
    · simp [hf]
    · simp [ih]

/-- Ids being unique, the first record with an id is the only one. -/
theorem updateDesktop_eq_map {id : GUID} {f : VDesktop → VDesktop} {items : List VDesktop}
    (hNodup : (items.map (·.id)).Nodup) :
    updateDesktop id f items = items.map fun d => if d.id = id then f d else d := by
  induction items with
  | nil => rfl
  | cons d items ih =>
    rw [List.map_cons, List.nodup_cons] at hNodup
    unfold updateDesktop
    by_cases hd : d.id = id
    -- the record is found here, and no later one has its id
    · have hothers : items.map (fun d => if d.id = id then f d else d) = items := by
        refine (List.map_congr_left fun d' hd' => ?_).trans (List.map_id items)
        have hne : d'.id ≠ id := fun h => hNodup.1 (hd ▸ h ▸ List.mem_map_of_mem hd')
        rw [if_neg hne, id_def]
      rw [if_pos hd, List.map_cons, if_pos hd, hothers]
    · rw [if_neg hd, List.map_cons, if_neg hd, ih hNodup.2]

/-- A name fetched is the desktop's own, or made from its position. -/
theorem fetchName_eq {ordinal : Nat} {name : String} (h : fetchName e ordinal = some name) :
    name = e.name.getD ("Desktop " ++ toString (ordinal + 1)) := by
  unfold fetchName at h
  split at h
  · exact (Option.some.inj h).symm
  · cases h

/-- What a record becomes when it is filled from an element. -/
def refilled (e : DesktopElement) (vd : IVirtualDesktop) (ordinal : Nat) (d : VDesktop) :
    VDesktop :=
  { d with
    iface := vd
    name := e.name.getD ("Desktop " ++ toString (ordinal + 1))
    valid := true }

/-- The record of a desktop that the cache has is refilled, or nothing changes. -/
theorem refreshExisting_items (t : Target) (e : DesktopElement) (vd : IVirtualDesktop)
    (existing : VDesktop) (ordinal : Nat) :
    let out := refreshExisting t existing e vd ordinal
    (out.1 = .ok ∧ out.2.items = updateDesktop e.id (refilled e vd ordinal) t.items) ∨
      (out.1 ≠ .ok ∧ out.2.items = t.items) := by
  intro out
  cases hname : fetchName e ordinal with
  -- no memory for the name
  | none => exact Or.inr (by simp [out, refreshExisting, hname, Target.release])
  | some name =>
    refine Or.inl ⟨by simp [out, refreshExisting, hname], ?_⟩
    have hfill : (fun d : VDesktop => { d with iface := vd, name := name, valid := true }) =
        refilled e vd ordinal := by
      rw [fetchName_eq hname]
      rfl
    simp only [out, refreshExisting, hname, Target.release, hfill]

/-- A record for a desktop that the cache lacks is appended, or nothing changes. -/
theorem refreshNew_items (t : Target) (e : DesktopElement) (vd : IVirtualDesktop)
    (ordinal : Nat) :
    let out := refreshNew t e vd ordinal
    (out.1 = .ok ∧ ∃ addr, e.addr = some addr ∧
        out.2.items = t.items ++ [refilled e vd ordinal ⟨addr, vd, e.id, "", true⟩]) ∨
      (out.1 ≠ .ok ∧ out.2.items = t.items) := by
  intro out
  cases haddr : e.addr with
  -- no memory for the record
  | none => exact Or.inr (by simp [out, refreshNew, wrapDesktop, haddr, Target.release])
  | some addr =>
    cases hname : fetchName e ordinal with
    | none => exact Or.inr (by simp [out, refreshNew, wrapDesktop, haddr, hname, Target.release])
    | some name =>
      cases hgrown : e.grown with
      -- the list could not grow, and the record is destroyed again
      | false =>
        exact Or.inr (by
          simp [out, refreshNew, wrapDesktop, haddr, hname, hgrown, Target.release])
      | true =>
        refine Or.inl ⟨by simp [out, refreshNew, wrapDesktop, haddr, hname, hgrown], addr, rfl, ?_⟩
        simp [out, refreshNew, wrapDesktop, haddr, hname, hgrown, refilled, fetchName_eq hname]

/-- The loop does its first element, and goes on if that succeeds. -/
theorem refreshFrom_cons (t : Target) (ordinal : Nat) (e : DesktopElement)
    (elements : List DesktopElement) :
    refreshFrom t ordinal (e :: elements) =
      if (refreshFrom t ordinal [e]).1 ≠ .ok then refreshFrom t ordinal [e]
      else refreshFrom (refreshFrom t ordinal [e]).2 (ordinal + 1) elements := by
  cases hvd : e.vd with
  | none => simp [refreshFrom, hvd]
  | some vd =>
    have hgo : ∀ out : WMError × Target,
        (if out.1 ≠ .ok then out else refreshFrom out.2 (ordinal + 1) elements) =
          let one := if out.1 ≠ .ok then out else (.ok, out.2)
          if one.1 ≠ .ok then one else refreshFrom one.2 (ordinal + 1) elements := by
      intro out
      by_cases hok : out.1 = .ok <;> simp [hok]
    simp only [refreshFrom, hvd]
    exact hgo _

/-- What one element does to the records. -/
inductive ElementDone (t : Target) (e : DesktopElement) (ordinal : Nat) :
    WMError → List VDesktop → Prop where
  -- an allocation fails
  | failed (error : WMError) (hfail : error ≠ .ok) : ElementDone t e ordinal error t.items
  -- it cannot be read
  | skipped (hvd : e.vd = none) : ElementDone t e ordinal .ok t.items
  | existing (vd : IVirtualDesktop) (hvd : e.vd = some vd) (hmem : e.id ∈ t.ids) :
      ElementDone t e ordinal .ok (updateDesktop e.id (refilled e vd ordinal) t.items)
  | new (vd : IVirtualDesktop) (addr : Ptr) (hvd : e.vd = some vd) (hmem : e.id ∉ t.ids)
      (haddr : e.addr = some addr) :
      ElementDone t e ordinal .ok
        (t.items ++ [refilled e vd ordinal ⟨addr, vd, e.id, "", true⟩])

theorem refreshFrom_one (t : Target) (e : DesktopElement) (ordinal : Nat) :
    ElementDone t e ordinal (refreshFrom t ordinal [e]).1
      (refreshFrom t ordinal [e]).2.items := by
  -- after the element nothing is left to do
  have hone : ∀ out : WMError × Target,
      (if out.1 ≠ .ok then out else refreshFrom out.2 (ordinal + 1) []) = out := by
    intro out
    by_cases hok : out.1 = .ok
    · rw [if_neg (not_not.mpr hok), refreshFrom, ← hok]
    · rw [if_pos hok]
  cases hvd : e.vd with
  | none =>
    simp only [refreshFrom, hvd]
    exact .skipped hvd
  | some vd =>
    simp only [refreshFrom, hvd] at hone ⊢
    rw [hone]
    cases hfind : findDesktop t.items e.id with
    | some d =>
      have hmem := mem_ids_of_findDesktop hfind
      rcases refreshExisting_items t e vd d ordinal with
        ⟨hok, hitems⟩ | ⟨hfail, hitems⟩
      · simp only [hok, hitems]
        exact .existing vd hvd hmem
      · simp only [hitems]
        exact .failed _ hfail
    | none =>
      have hmem : e.id ∉ t.ids := findDesktop_eq_none_iff.mp hfind
      rcases refreshNew_items t e vd ordinal with
        ⟨hok, addr, haddr, hitems⟩ | ⟨hfail, hitems⟩
      · simp only [hok, hitems]
        exact .new vd addr hvd hmem haddr
      · simp only [hitems]
        exact .failed _ hfail

end Element

/-! ## The loop -/

/-- The ids of the elements that can be read. -/
def shownIds (elements : List DesktopElement) : List GUID :=
  (elements.filter (·.vd.isSome)).map (·.id)

/-- The address and the id of each record. -/
def Target.places (t : Target) : List (Ptr × GUID) := t.items.map fun d => (d.addr, d.id)

/-- `d` holds the interface and the name of the last element of its id that could be read. -/
def HoldsLast (elements : List DesktopElement) (d : VDesktop) : Prop :=
  ∃ (k : Nat) (e : DesktopElement), elements[k]? = some e ∧ e.id = d.id ∧ e.vd = some d.iface ∧
    d.name = e.name.getD ("Desktop " ++ toString (k + 1)) ∧
    ∀ (j : Nat) (later : DesktopElement), k < j → elements[j]? = some later →
      later.vd.isSome = true → later.id ≠ d.id

/-- What the loop has made of the cache `t₀` when it is through with the elements `done`. The
flags and what the records hold go by ids, so they need these to be distinct. -/
structure Refreshed (t₀ : Target) (done : List DesktopElement) (t : Target) : Prop where
  ids : t.ids = t₀.ids ++ newcomers t₀.ids (shownIds done)
  places : t₀.places <+: t.places
  valid : t₀.ids.Nodup → ∀ d ∈ t.items, d.valid = true ↔ d.id ∈ shownIds done
  holds : t₀.ids.Nodup → ∀ d ∈ t.items, d.valid = true → HoldsLast done d

section Loop

variable {t₀ t t' : Target} {done : List DesktopElement} {e : DesktopElement}
  {vd : IVirtualDesktop}

@[simp] theorem shownIds_nil : shownIds [] = [] := rfl

theorem shownIds_concat (hvd : e.vd = some vd) :
    shownIds (done ++ [e]) = shownIds done ++ [e.id] := by
  simp [shownIds, hvd]

theorem shownIds_concat_none (hvd : e.vd = none) : shownIds (done ++ [e]) = shownIds done := by
  simp [shownIds, hvd]

theorem Refreshed.nodup (h : Refreshed t₀ done t) (hNodup : t₀.ids.Nodup) : t.ids.Nodup := by
  rw [h.ids]
  exact append_newcomers_nodup hNodup

/-- Only the records matter. -/
theorem Refreshed.congr (h : Refreshed t₀ done t) (hitems : t'.items = t.items) :
    Refreshed t₀ done t' := by
  obtain ⟨items, released⟩ := t
  obtain ⟨items', released'⟩ := t'
  cases hitems
  exact ⟨h.ids, h.places, h.valid, h.holds⟩

/-- An element of another id, or one that cannot be read, leaves a record the last of its
own. -/
theorem HoldsLast.concat {d : VDesktop} (h : HoldsLast done d)
    (hother : e.vd.isSome = true → e.id ≠ d.id) : HoldsLast (done ++ [e]) d := by
  obtain ⟨k, e', hk, hid, hvd, hname, hlast⟩ := h
  -- the occurrence stays where it is, and only `e` is new behind it
  have hlt : k < done.length := (List.getElem?_eq_some_iff.mp hk).1
  refine ⟨k, e', by rw [List.getElem?_append_left hlt, hk], hid, hvd, hname, ?_⟩
  intro j later hj hlater hsome
  by_cases hjlt : j < done.length
  · rw [List.getElem?_append_left hjlt] at hlater
    exact hlast j later hj hlater hsome
  · rw [List.getElem?_append_right (by omega), List.getElem?_singleton] at hlater
    split at hlater
    · cases hlater
      exact hother hsome
    · cases hlater

/-- A record filled from an element that has just been read. -/
theorem holdsLast_concat {d : VDesktop} (hid : e.id = d.id) (hvd : e.vd = some d.iface)
    (hname : d.name = e.name.getD ("Desktop " ++ toString (done.length + 1))) :
    HoldsLast (done ++ [e]) d := by
  refine ⟨done.length, e, List.getElem?_concat_length, hid, hvd, hname, ?_⟩
  intro j later hj hlater
  rw [List.getElem?_append_right (by omega), List.getElem?_singleton, if_neg (by omega)] at hlater
  cases hlater

/-- An element that cannot be read. -/
theorem Refreshed.skip (h : Refreshed t₀ done t) (hvd : e.vd = none) :
    Refreshed t₀ (done ++ [e]) t := by
  refine ⟨?_, h.places, ?_, ?_⟩
  · rw [shownIds_concat_none hvd]
    exact h.ids
  · intro hNodup
    rw [shownIds_concat_none hvd]
    exact h.valid hNodup
  · intro hNodup d hd hvalid
    exact (h.holds hNodup d hd hvalid).concat (by simp [hvd])

/-- An element that the cache has. -/
theorem Refreshed.existing (h : Refreshed t₀ done t) (hvd : e.vd = some vd)
    (hmem : e.id ∈ t.ids)
    (hitems : t'.items = updateDesktop e.id (refilled e vd done.length) t.items) :
    Refreshed t₀ (done ++ [e]) t' := by
  have hids : t'.ids = t.ids := by
    rw [Target.ids, hitems]
    exact updateDesktop_map (·.id) (by intros; rfl) t.items
  have hplaces : t'.places = t.places := by
    rw [Target.places, hitems]
    exact updateDesktop_map (fun d => (d.addr, d.id)) (by intros; rfl) t.items
  refine ⟨?_, ?_, ?_, ?_⟩
  · rw [hids, shownIds_concat hvd, newcomers_append, ← h.ids, newcomers_cons_of_mem hmem,
      newcomers_nil, List.append_nil]
    exact h.ids
  · rw [hplaces]
    exact h.places
  · intro hNodup d hd
    rw [hitems, updateDesktop_eq_map (h.nodup hNodup), List.mem_map] at hd
    obtain ⟨d', hd', rfl⟩ := hd
    rw [shownIds_concat hvd, List.mem_append, List.mem_singleton]
    by_cases hid : d'.id = e.id
    · simp [hid, refilled]
    · simp [hid, h.valid hNodup d' hd']
  · intro hNodup d hd hvalid
    rw [hitems, updateDesktop_eq_map (h.nodup hNodup), List.mem_map] at hd
    obtain ⟨d', hd', rfl⟩ := hd
    by_cases hid : d'.id = e.id
    -- the record that the element has refilled
    · rw [if_pos hid]
      exact holdsLast_concat hid.symm hvd rfl
    · rw [if_neg hid] at hvalid ⊢
      exact (h.holds hNodup d' hd' hvalid).concat fun _ => Ne.symm hid

/-- An element that the cache lacks. -/
theorem Refreshed.new (h : Refreshed t₀ done t) (hvd : e.vd = some vd) (hmem : e.id ∉ t.ids)
    {addr : Ptr}
    (hitems : t'.items = t.items ++ [refilled e vd done.length ⟨addr, vd, e.id, "", true⟩]) :
    Refreshed t₀ (done ++ [e]) t' := by
  have hids : t'.ids = t.ids ++ [e.id] := by simp [Target.ids, hitems, refilled]
  refine ⟨?_, ?_, ?_, ?_⟩
  · rw [hids, shownIds_concat hvd, newcomers_append, ← h.ids, newcomers_cons_of_not_mem hmem,
      newcomers_nil, ← List.append_assoc, ← h.ids]
  · refine h.places.trans ?_
    rw [Target.places, Target.places, hitems, List.map_append]
    exact List.prefix_append ..
  · intro hNodup d hd
    rw [shownIds_concat hvd, List.mem_append, List.mem_singleton]
    rw [hitems, List.mem_append, List.mem_singleton] at hd
    rcases hd with hd | rfl
    · have hne : d.id ≠ e.id := fun heq => hmem (heq ▸ List.mem_map_of_mem hd)
      simp [hne, h.valid hNodup d hd]
    · simp [refilled]
  · intro hNodup d hd hvalid
    rw [hitems, List.mem_append, List.mem_singleton] at hd
    rcases hd with hd | rfl
    · have hne : e.id ≠ d.id := fun heq => hmem (heq ▸ List.mem_map_of_mem hd)
      exact (h.holds hNodup d hd hvalid).concat fun _ => hne
    · exact holdsLast_concat rfl hvd rfl

theorem refreshed_start (hids : t.ids = t₀.ids) (hplaces : t.places = t₀.places)
    (hvalid : ∀ d ∈ t.items, d.valid = false) : Refreshed t₀ [] t := by
  refine ⟨by simpa using hids, hplaces ▸ List.prefix_refl _, ?_, ?_⟩
  · intro _ d hd
    simp [hvalid d hd]
  · intro _ d hd htrue
    rw [hvalid d hd] at htrue
    cases htrue

/-- **The loop.** It goes through the elements up to the first failure, and through all of
them if it succeeds. -/
theorem refreshFrom_stops (rest : List DesktopElement) (h : Refreshed t₀ done t) :
    let out := refreshFrom t done.length rest
    ∃ read, Refreshed t₀ (done ++ read) out.2 ∧ (out.1 = .ok → read = rest) := by
  induction rest generalizing done t with
  | nil => exact ⟨[], by simpa [refreshFrom] using h, fun _ => rfl⟩
  | cons e rest ih =>
    intro out
    have hstep := refreshFrom_one t e done.length
    have hcons : out = _ := refreshFrom_cons t done.length e rest
    -- an element that is done is one more
    have hgo : (refreshFrom t done.length [e]).1 = .ok →
        Refreshed t₀ (done ++ [e]) (refreshFrom t done.length [e]).2 →
        ∃ read, Refreshed t₀ (done ++ read) out.2 ∧ (out.1 = .ok → read = e :: rest) := by
      intro hok h'
      obtain ⟨read, hread, hall⟩ := ih h'
      rw [List.length_append, List.length_singleton] at hread hall
      rw [hcons, if_neg (not_not.mpr hok)]
      exact ⟨e :: read, by simpa using hread, fun hok => by rw [hall hok]⟩
    generalize hitems : (refreshFrom t done.length [e]).2.items = items at hstep
    generalize herror : (refreshFrom t done.length [e]).1 = error at hstep hgo
    cases hstep with
    -- the loop returns, with what was done before
    | failed error hfail =>
      have hstop : (refreshFrom t done.length [e]).1 ≠ .ok := by rwa [herror]
      rw [hcons, if_pos hstop]
      exact ⟨[], by simpa using h.congr hitems, fun hok => absurd hok hstop⟩
    | skipped hvd => exact hgo rfl ((h.skip hvd).congr hitems)
    | existing vd hvd hmem => exact hgo rfl (h.existing hvd hmem hitems)
    | new vd addr hvd hmem _ => exact hgo rfl (h.new hvd hmem hitems)

end Loop

/-! ## A refresh -/

theorem refreshed_reset (t : Target) : Refreshed t [] (resetCache t) := by
  refine refreshed_start ?_ ?_ (by simp [resetCache])
  · simp [resetCache, Target.ids]
  · simp [resetCache, Target.places]

/-- A refresh does the first elements of the enumeration, all of them if it succeeds. -/
theorem refresh_stops (t : Target) (elements : List DesktopElement) :
    ∃ read, Refreshed t read (refresh t (some elements)).2 ∧
      ((refresh t (some elements)).1 = .ok → read = elements) := by
  have hstops := refreshFrom_stops elements (refreshed_reset t)
  simpa [refresh] using hstops

theorem refresh_done {t : Target} {elements : List DesktopElement}
    (hok : (refresh t (some elements)).1 = .ok) :
    Refreshed t elements (refresh t (some elements)).2 := by
  obtain ⟨read, hread, hall⟩ := refresh_stops t elements
  rwa [hall hok] at hread

/-- However a refresh ends, ids stay distinct and records stay in place. -/
theorem refresh_keeps (t : Target) (arr : Option (List DesktopElement)) (hNodup : t.ids.Nodup) :
    (refresh t arr).2.ids.Nodup ∧ t.places <+: (refresh t arr).2.places := by
  cases arr with
  | none => exact ⟨hNodup, List.prefix_refl _⟩
  | some elements =>
    obtain ⟨read, hread, -⟩ := refresh_stops t elements
    exact ⟨hread.nodup hNodup, hread.places⟩

/-- The cache as a machine that reads what `GetDesktops` gives and answers whether the
refresh succeeds. -/
def Target.step (t : Target) (arr : Option (List DesktopElement)) : Target × WMError :=
  ((refresh t arr).2, (refresh t arr).1)

theorem ids_nodup (past : List (Option (List DesktopElement))) :
    (final Target.step .init past).ids.Nodup := by
  refine final_induction Target.step (fun t => t.ids.Nodup) (fun _ => True)
    (fun t arr _ hNodup => (refresh_keeps t arr hNodup).1) ?_ (fun _ _ => trivial)
  exact List.nodup_nil

/-- **A refresh reconciles the cache.** After any refreshes, of whatever outcome, and one
more: the ids are distinct, and the old records are the first ones of the list, at their
addresses. If that refresh succeeds, the desktops it read and the cache lacked follow, each
once and in order; `valid` marks the records of the desktops it read; and each record marked
holds interface and name of the last occurrence of its desktop. -/
theorem refresh_reconciles (past : List (Option (List DesktopElement)))
    (arr : Option (List DesktopElement)) :
    let t := final Target.step .init past
    let t' := (t.step arr).1
    t'.ids.Nodup ∧ t.places <+: t'.places ∧
      ((t.step arr).2 = .ok → ∃ elements, arr = some elements ∧
        t'.ids = t.ids ++ newcomers t.ids (shownIds elements) ∧
        (∀ d ∈ t'.items, d.valid = true ↔ d.id ∈ shownIds elements) ∧
        ∀ d ∈ t'.items, d.valid = true → HoldsLast elements d) := by
  intro t t'
  have hNodup : t.ids.Nodup := ids_nodup past
  obtain ⟨hids, hplaces⟩ := refresh_keeps t arr hNodup
  refine ⟨hids, hplaces, ?_⟩
  intro hok
  cases arr with
  | none => cases hok
  | some elements =>
    have hdone := refresh_done hok
    exact ⟨elements, rfl, hdone.ids, hdone.valid hNodup, hdone.holds hNodup⟩

end Uniwm
